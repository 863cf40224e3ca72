import LazyLisp.Proofs.Async.Invariant
import LazyLisp.Proofs.Machine.Path

/-!
# Foreground — the main thread while workers go on

While the main thread is at something, workers take their turns in between.  What they do does not
depend on what the main thread is at, only on the store.  So steps of the main thread that leave the
store alone can be left out, or taken at any other time.  This file defines:

* `Async.Proceeds`, any turns of any threads while no evaluation is begun;
* `Async.System.begun`, the begin of an evaluation, and `Async.System.Ended`, its end;
* `Async.System.Detached`, that workers do without the main thread, and `Async.Steady`, which holds
  at every point of an execution;
* `Async.System.withMain`, a system with something else on the main thread;
* `Async.Quiet`, steps that leave the store alone.

Main results: `Async.Turn.withMain`, that workers do not look at the main thread,
`Async.proceeds_iff_of_quietly`, that quiet steps make no difference to what the main thread comes to,
and `Async.proceeds_of_halts`, that without workers the machine proceeds as it does by itself.
-/

namespace LazyLisp
namespace Async

open Machine

variable {host : Host} {start system system' last : System} {log entries : Log}
  {thread : EvaluationId} {state : State} {activity activity' : Activity}

/-! ## Going on -/

/-- The threads take their turns, and no evaluation is begun. -/
abbrev Proceeds (host : Host) : System → System → Prop :=
  Relation.ReflTransGen fun system system' =>
    ∃ thread entries, Turn host thread system entries system'

/-- The main thread has come to an outcome, or nobody can do anything. -/
def System.Ended (host : Host) (system : System) : Prop :=
  (∃ result, system.threads mainEvaluation = .finished result) ∨
    ∀ thread entries system', ¬ Turn host thread system entries system'

/-- There is something to be done on the thread. -/
def Activity.Engaged : Activity → Prop
  | .idle | .finished _ => False
  | .working _ _ _ | .receiving _ _ _ _ => True

theorem Turn.engaged (h : Turn host thread system entries system') :
    (system.threads thread).Engaged := by
  cases h with
  | think hat _ _ _ => exact hat.1 ▸ trivial
  | spawn hat _ _ _ => exact hat.1 ▸ trivial
  | receive hat _ _ _ => exact hat.1 ▸ trivial
  | deliver hreceiving _ => exact hreceiving ▸ trivial
  | halt hat _ => exact hat.1 ▸ trivial

theorem System.rests_iff : system.Rests ↔ ¬ (system.threads mainEvaluation).Engaged := by
  rw [Rests]
  cases system.threads mainEvaluation with
  | idle => simp [Activity.Engaged]
  | working control stack evaluation => simp [Activity.Engaged]
  | receiving cell worker stack evaluation => simp [Activity.Engaged]
  | finished result => simp [Activity.Engaged]

/-- A main thread at rest has no turn. -/
theorem Turn.ne_of_rests (h : Turn host thread system entries system') (hrests : system.Rests) :
    thread ≠ mainEvaluation := by
  rintro rfl
  exact System.rests_iff.mp hrests h.engaged

/-- New workers are none of those that there are. -/
theorem worker_ne_of_lt {workers worker : EvaluationId} (h : workers < worker) :
    worker ≠ mainEvaluation :=
  Nat.ne_of_gt (Nat.lt_of_le_of_lt (Nat.zero_le workers) h)

/-- A turn of some other thread leaves the main thread at what it is at. -/
theorem Turn.main_eq (h : Turn host thread system entries system') (hne : thread ≠ mainEvaluation) :
    system'.threads mainEvaluation = system.threads mainEvaluation := by
  cases h with
  | think _ _ _ _ => exact system.threads_put_of_ne hne.symm _ _
  | spawn _ _ hlt _ =>
      rw [System.threads_put_of_ne _ (worker_ne_of_lt hlt).symm, system.threads_put_of_ne hne.symm]
  | receive _ _ _ _ => exact system.threads_put_of_ne hne.symm _ _
  | deliver _ _ => exact system.threads_put_of_ne hne.symm _ _
  | halt _ _ => exact system.threads_put_of_ne hne.symm _ _

theorem Turn.rests (h : Turn host thread system entries system') (hrests : system.Rests) :
    system'.Rests := by
  rw [System.Rests, h.main_eq (h.ne_of_rests hrests)]
  exact hrests

/-- As long as no evaluation is begun, the main thread stays at rest. -/
theorem Proceeds.main_eq (h : Proceeds host system system') (hrests : system.Rests) :
    system'.threads mainEvaluation = system.threads mainEvaluation ∧ system'.Rests := by
  induction h with
  | refl => exact ⟨rfl, hrests⟩
  | tail _ hturn ih =>
      obtain ⟨thread, entries, hturn⟩ := hturn
      exact ⟨(hturn.main_eq (hturn.ne_of_rests ih.2)).trans ih.1, hturn.rests ih.2⟩

/-- Where all threads are idle, nothing happens. -/
theorem eq_of_proceeds_idle (h : Proceeds host system system')
    (hidle : ∀ thread, system.threads thread = .idle) : system' = system := by
  induction h using Relation.ReflTransGen.head_induction_on with
  | refl => rfl
  | head hturn _ _ =>
      obtain ⟨thread, entries, hturn⟩ := hturn
      have hengaged := hturn.engaged
      rw [hidle thread] at hengaged
      exact hengaged.elim

/-! ## Steady systems -/

/-- Work is started for workers only, and workers receive nothing from the main thread. -/
structure System.Detached (system : System) : Prop where
  hired : Hired system.store
  worker_ne : ∀ thread cell worker stack evaluation, thread ≠ mainEvaluation →
    system.threads thread = .receiving cell worker stack evaluation → worker ≠ mainEvaluation

theorem Hired.worker_ne {store store' : Store} (h : Hired store) {me worker : EvaluationId}
    {cell : CellId} {work : Suspension}
    (hclaim : store.claim me cell = (.run work (some worker), store')) :
    worker ≠ mainEvaluation := by
  obtain ⟨name, -, ⟨-, hnone⟩ | ⟨started, -, hsome, hcell⟩⟩ := Store.claim_run hclaim
  · cases hnone
  · cases hsome
    exact worker_ne_of_lt (h cell name worker work hcell).1

/-- What holds at every point of an execution, whatever its log. -/
structure Steady (system : System) : Prop where
  sound : ∃ log, Sound system log
  detached : system.Detached

namespace Steady

theorem step (h : Steady system) (hstep : Step host system entries system') : Steady system' := by
  obtain ⟨log, hsound⟩ := h.sound
  have hsound' := sound_of_step hsound hstep
  refine ⟨⟨_, hsound'⟩, hsound'.hired, ?_⟩
  intro thread cell worker stack evaluation hne hreceiving
  rcases receiving_of_step hstep hreceiving with hbefore | ⟨work, hclaim⟩
  · exact h.detached.worker_ne _ _ _ _ _ hne hbefore
  · exact h.detached.hired.worker_ne hclaim

theorem proceeds (h : Steady system) (hproceeds : Proceeds host system system') :
    Steady system' := by
  induction hproceeds with
  | refl => exact h
  | tail _ hturn ih =>
      obtain ⟨thread, entries, hturn⟩ := hturn
      exact ih.step (.turn hturn)

end Steady

theorem steady_of_fresh (h : system.Fresh) : Steady system := by
  have hsound := sound_of_fresh h
  refine ⟨⟨[], hsound⟩, hsound.hired, ?_⟩
  intro thread cell worker stack evaluation _ hreceiving
  rw [h.2 thread] at hreceiving
  cases hreceiving

theorem steady_of_execution (hstart : start.Fresh) (h : Execution host start log system) :
    Steady system := by
  induction h with
  | refl => exact steady_of_fresh hstart
  | step _ hstep ih => exact ih.step hstep

/-! ## Something else on the main thread -/

namespace System

/-- The system with something else on the main thread. -/
def withMain (system : System) (activity : Activity) : System :=
  system.put mainEvaluation activity system.store

/-- The main thread begins with an evaluation, with the store as it is. -/
def begun (system : System) (enter : Store → State) : System :=
  system.withMain (activityOf (enter system.store))

variable (system) (activity activity' : Activity)

@[simp] theorem store_withMain : (system.withMain activity).store = system.store := rfl

@[simp] theorem main_withMain : (system.withMain activity).threads mainEvaluation = activity :=
  system.threads_put ..

theorem threads_withMain (hne : thread ≠ mainEvaluation) :
    (system.withMain activity).threads thread = system.threads thread :=
  system.threads_put_of_ne hne ..

@[simp] theorem withMain_withMain :
    (system.withMain activity).withMain activity' = system.withMain activity' :=
  system.put_put ..

@[simp] theorem withMain_main : system.withMain (system.threads mainEvaluation) = system :=
  system.put_self ..

theorem withMain_put (hne : thread ≠ mainEvaluation) (store : Store) :
    (system.put thread activity' store).withMain activity =
      (system.withMain activity).put thread activity' store :=
  congrArg (mk store) (system.threads_put_comm (Ne.symm hne) ..)

end System

theorem System.Detached.withMain (h : system.Detached) (activity : Activity) :
    (system.withMain activity).Detached := by
  refine ⟨h.hired, ?_⟩
  intro thread cell worker stack evaluation hne hreceiving
  rw [system.threads_withMain activity hne] at hreceiving
  exact h.worker_ne _ _ _ _ _ hne hreceiving

theorem Steady.begun (h : Steady system) (hrests : system.Rests) {enter : Store → State}
    (hbegins : (enter system.store).Begins) (hstore : (enter system.store).store = system.store) :
    Steady (system.begun enter) := by
  have hstep : Step .empty system [] _ :=
    .begin hrests hbegins (by rw [hstore]) (by rw [hstore])
  rw [hstore] at hstep
  exact h.step hstep

/-- A turn of some other thread is possible whatever the main thread is at. -/
theorem Turn.withMain (h : Turn host thread system entries system') (hdetached : system.Detached)
    (hne : thread ≠ mainEvaluation) (activity : Activity) :
    Turn host thread (system.withMain activity) entries (system'.withMain activity) := by
  have hat' : ∀ {state : State}, system.At thread state →
      (system.withMain activity).At thread state :=
    fun hat => ⟨(system.threads_withMain activity hne).trans hat.1, hat.2⟩
  cases h with
  | @think state state' hat hnext hover hhires =>
      rw [System.withMain_put _ _ _ hne]
      refine .think (hat' hat) hnext ?_ hhires
      -- The main thread is nobody to take over from.
      intro worker htakes
      obtain ⟨cell, work, store, -, hclaim⟩ := id htakes
      rw [← hat.2] at hclaim
      rw [system.threads_withMain activity (hdetached.hired.worker_ne hclaim)]
      exact hover worker htakes
  | spawn hat hnext hlt hcell =>
      rw [System.withMain_put _ _ _ (worker_ne_of_lt hlt), System.withMain_put _ _ _ hne]
      exact .spawn (hat' hat) hnext hlt hcell
  | @receive state cell work worker store hat hcontrol hclaim hactive =>
      rw [System.withMain_put _ _ _ hne]
      refine .receive (hat' hat) hcontrol hclaim ?_
      rw [← hat.2] at hclaim
      rw [system.threads_withMain activity (hdetached.hired.worker_ne hclaim)]
      exact hactive
  | @deliver cell worker stack evaluation result hreceiving hfinished =>
      rw [System.withMain_put _ _ _ hne]
      refine .deliver ((system.threads_withMain activity hne).trans hreceiving) ?_
      have hworker := hdetached.worker_ne _ _ _ _ _ hne hreceiving
      exact (system.threads_withMain activity hworker).trans hfinished
  | halt hat hhalt =>
      rw [System.withMain_put _ _ _ hne]
      exact .halt (hat' hat) hhalt

/-- A turn of some other thread was possible without the main thread, too. -/
theorem Turn.without (h : Turn host thread (system.withMain activity) entries system')
    (hdetached : system.Detached) (hne : thread ≠ mainEvaluation) :
    ∃ later, Turn host thread system entries later ∧ system' = later.withMain activity := by
  refine ⟨system'.withMain (system.threads mainEvaluation), ?_, ?_⟩
  · have hturn := h.withMain (hdetached.withMain activity) hne (system.threads mainEvaluation)
    rwa [System.withMain_withMain, System.withMain_main] at hturn
  · have hmain := h.main_eq hne
    rw [System.main_withMain] at hmain
    rw [System.withMain_withMain, ← hmain, System.withMain_main]

/-- What happens while the main thread is at rest can happen whatever it is at. -/
theorem Proceeds.withMain (h : Proceeds host system system') (hsteady : Steady system)
    (hrests : system.Rests) (activity : Activity) :
    Proceeds host (system.withMain activity) (system'.withMain activity) := by
  induction h with
  | refl => exact .refl
  | tail hproceeds hturn ih =>
      obtain ⟨thread, entries, hturn⟩ := hturn
      have hne := hturn.ne_of_rests (Proceeds.main_eq hproceeds hrests).2
      have hdetached := (hsteady.proceeds hproceeds).detached
      exact ih.tail ⟨thread, entries, hturn.withMain hdetached hne activity⟩

/-! ## Quiet steps -/

/-- A step that leaves the store alone and does not ask for a cell.  It is the same in every store of
which something holds. -/
inductive Quiet (host : Host) (holds : Store → Prop) : Activity → Activity → Prop where
  | step {control control' : Control} {stack stack' : List Pending}
      {evaluation evaluation' : EvaluationId} :
      (∀ cell, control ≠ .resume (.binding cell)) →
        (∀ store, holds store → Machine.step host ⟨control, stack, evaluation, store⟩ =
          .next ⟨control', stack', evaluation', store⟩) →
        Quiet host holds (.working control stack evaluation) (.working control' stack' evaluation')

/-- Any number of such steps. -/
abbrev Quietly (host : Host) (holds : Store → Prop) : Activity → Activity → Prop :=
  Relation.ReflTransGen (Quiet host holds)

variable {holds : Store → Prop}

theorem System.At.eq {control : Control} {stack : List Pending} {evaluation : EvaluationId}
    (hat : system.At thread state)
    (h : system.threads thread = .working control stack evaluation) :
    state = ⟨control, stack, evaluation, system.store⟩ := by
  obtain ⟨_, _, _, _⟩ := state
  obtain ⟨hthread, rfl⟩ := hat
  cases h.symm.trans hthread
  rfl

namespace Quiet

theorem turn (h : Quiet host holds activity activity') (hholds : holds system.store) :
    Turn host mainEvaluation (system.withMain activity) [] (system.withMain activity') := by
  cases h with
  | @step control control' stack stack' evaluation evaluation' hcontrol hnext =>
      have hat : (system.withMain (.working control stack evaluation)).At mainEvaluation
          ⟨control, stack, evaluation, system.store⟩ := ⟨system.main_withMain _, rfl⟩
      have hturn := turn_of_step hat (hnext _ hholds) rfl hcontrol
      rwa [System.withMain, System.put_put] at hturn

/-- The main thread can do nothing else. -/
theorem eq_of_turn (h : Quiet host holds activity activity') (hholds : holds system.store)
    (hturn : Turn host mainEvaluation (system.withMain activity) entries system') :
    system' = system.withMain activity' := by
  cases h with
  | @step control control' stack stack' evaluation evaluation' hcontrol hnext =>
      have hmain := system.main_withMain (.working control stack evaluation)
      have hstep := hnext system.store hholds
      cases hturn with
      | think hat hnext' _ _ =>
          cases hat.eq hmain
          cases hstep.symm.trans hnext'
          exact system.put_put ..
      | spawn hat hnext' hlt _ =>
          cases hat.eq hmain
          cases hstep.symm.trans hnext'
          exact (Nat.lt_irrefl _ hlt).elim
      | receive hat hcontrol' _ _ =>
          cases hat.eq hmain
          exact (hcontrol _ hcontrol').elim
      | deliver hreceiving _ => cases hmain.symm.trans hreceiving
      | halt hat hhalt =>
          cases hat.eq hmain
          cases hstep.symm.trans hhalt

theorem not_ended (h : Quiet host holds activity activity') (hholds : holds system.store) :
    ¬ (system.withMain activity).Ended host := by
  rintro (⟨result, hfinished⟩ | hstuck)
  · rw [System.main_withMain] at hfinished
    cases h
    cases hfinished
  · exact hstuck _ _ _ (h.turn hholds)

/-- Before and after a quiet step, the main thread can come to the same. -/
theorem proceeds_iff (h : Quiet host holds activity activity') (hsteady : Steady system)
    (hrests : system.Rests)
    (hholds : ∀ later, Proceeds host system later → holds later.store)
    (hended : last.Ended host) :
    Proceeds host (system.withMain activity) last ↔
      Proceeds host (system.withMain activity') last := by
  constructor
  · intro hproceeds
    generalize hfirst : system.withMain activity = first at hproceeds
    induction hproceeds using Relation.ReflTransGen.head_induction_on generalizing system with
    | refl =>
        subst hfirst
        exact (h.not_ended (hholds system .refl) hended).elim
    | head hturn hproceeds ih =>
        obtain ⟨thread, entries, hturn⟩ := hturn
        subst hfirst
        by_cases hne : thread = mainEvaluation
        · subst hne
          rw [h.eq_of_turn (hholds system .refl) hturn] at hproceeds
          exact hproceeds
        -- Some other thread goes first, and does so after the step as well.
        · obtain ⟨later, hlater, rfl⟩ := hturn.without hsteady.detached hne
          have hrest := ih (hsteady.step (.turn hlater)) (hlater.rests hrests)
            (fun further hfurther => hholds further (.head ⟨_, _, hlater⟩ hfurther)) rfl
          exact .head ⟨_, _, hlater.withMain hsteady.detached hne activity'⟩ hrest
  · exact .head ⟨_, _, h.turn (hholds system .refl)⟩

end Quiet

/-- Quiet steps make no difference to what the main thread can come to. -/
theorem proceeds_iff_of_quietly (h : Quietly host holds activity activity')
    (hsteady : Steady system) (hrests : system.Rests)
    (hholds : ∀ later, Proceeds host system later → holds later.store)
    (hended : last.Ended host) :
    Proceeds host (system.withMain activity) last ↔
      Proceeds host (system.withMain activity') last := by
  induction h with
  | refl => exact .rfl
  | tail _ hquiet ih => exact ih.trans (hquiet.proceeds_iff hsteady hrests hholds hended)

/-! ## Without workers -/

theorem workers_of_halts {steps : Nat} {result : Result} {store : Store}
    (h : Halts host anyState steps state result store) : state.store.workers ≤ store.workers := by
  induction h with
  | halt _ hhalt =>
      obtain ⟨-, -, rfl⟩ := halt_of_step hhalt
      exact Nat.le_refl _
  | next _ hnext _ ih => exact Nat.le_trans (workers_of_effect (effect_of_step hnext)) ih

/-- Where no other thread is used and no work is started, the main thread comes to what the machine
comes to by itself. -/
theorem proceeds_of_halts {steps : Nat} {result : Result} {store : Store} (hsteady : Steady system)
    (hat : system.At mainEvaluation state)
    (hidle : ∀ worker, worker ≠ mainEvaluation → system.threads worker = .idle)
    (hhalts : Halts host anyState steps state result store)
    (hworkers : store.workers = state.store.workers) :
    Proceeds host system (system.put mainEvaluation (.finished result) store) := by
  induction hhalts generalizing system with
  | halt _ hhalt => exact .single ⟨_, _, .halt hat hhalt⟩
  | @next steps state state' result store _ hnext hrest ih =>
      have hsame : state'.store.workers = state.store.workers := by
        refine Nat.le_antisymm ?_ (workers_of_effect (effect_of_step hnext))
        rw [← hworkers]
        exact workers_of_halts hrest
      -- Started cells belong to workers, and these have no threads.
      have hover : ∀ worker, TakesOver state worker → system.threads worker = .idle := by
        rintro worker ⟨cell, work, claimed, -, hclaim⟩
        rw [← hat.2] at hclaim
        exact hidle worker (hsteady.detached.hired.worker_ne hclaim)
      have hturn : Turn host mainEvaluation system _ _ := .think hat hnext hover (not_hires hsame)
      have hlater := ih (hsteady.step (.turn hturn)) (system.at_put ..)
        (fun worker hne => (system.threads_put_of_ne hne ..).trans (hidle worker hne))
        (hworkers.trans hsame.symm)
      rw [System.put_put] at hlater
      exact .head ⟨_, _, hturn⟩ hlater

/-- The same for a bounded run from where an evaluation begins. -/
theorem proceeds_of_run {enter : Store → State} {fuel : Nat} {result : Result} {store : Store}
    (hsteady : Steady system) (hrests : system.Rests) (hbegins : (enter system.store).Begins)
    (hstore : (enter system.store).store = system.store)
    (hidle : ∀ worker, worker ≠ mainEvaluation → system.threads worker = .idle)
    (hrun : run host fuel (enter system.store) = .finished result store)
    (hworkers : store.workers = system.store.workers) :
    Proceeds host (system.begun enter) (system.put mainEvaluation (.finished result) store) := by
  obtain ⟨steps, hhalts⟩ := finished_iff_halts.mp ⟨fuel, hrun⟩
  have hat : (system.begun enter).At mainEvaluation (enter system.store) :=
    ⟨system.main_withMain _, hstore.symm⟩
  have hproceeds := proceeds_of_halts (hsteady.begun hrests hbegins hstore) hat
    (fun worker hne => (system.threads_withMain _ hne).trans (hidle worker hne)) hhalts
    (hworkers.trans (congrArg Store.workers hstore.symm))
  rwa [System.begun, System.withMain, System.put_put] at hproceeds

end Async
end LazyLisp
