import LazyLisp.Proofs.Async.Foreground
import LazyLisp.Proofs.Lockstep.Machine

/-!
# System — evaluations side by side that go alike

Two systems whose threads are at alike things, in alike stores, take alike turns: whatever a thread
can do in one of them, the same thread can do in the other, and after that they are alike again.
Which cells are demanded, who has started them and who waits for whom is the same in both.  This file
defines `Async.System.InStep`, alike systems.

Main results: `Async.Turn.inStep`, what a turn preserves, and `Async.Proceeds.inStep` for any number
of them.
-/

namespace LazyLisp

variable {likeness : Likeness}

/-! ## Started work -/

theorem Claim.Alike.run_iff {claim claim' : Claim} (h : claim.Alike likeness claim')
    (worker : Option EvaluationId) :
    (∃ work, claim = .run work worker) ↔ ∃ work, claim' = .run work worker := by
  cases h <;> simp

theorem Cell.Alike.started_iff {cell cell' : Cell} (h : cell.Alike likeness cell') (name : String)
    (worker : EvaluationId) :
    (∃ work, cell = ⟨name, .started worker work⟩) ↔
      ∃ work, cell' = ⟨name, .started worker work⟩ := by
  obtain ⟨_, _⟩ := cell
  obtain ⟨_, _⟩ := cell'
  obtain ⟨hname, hstate⟩ := h
  cases hname
  cases hstate <;> simp

namespace Store.Alike

variable {store store' : Store} {cell : CellId} {name : String} {worker : EvaluationId}

/-- Work is started for the same worker on both sides. -/
theorem started_iff (h : store.Alike likeness store') (cell : CellId) (name : String)
    (worker : EvaluationId) :
    (∃ work, store.cells[cell]? = some ⟨name, .started worker work⟩) ↔
      ∃ work, store'.cells[cell]? = some ⟨name, .started worker work⟩ := by
  have hcells := h.cells cell
  generalize store.cells[cell]? = entry at hcells ⊢
  generalize store'.cells[cell]? = entry' at hcells ⊢
  cases hcells with
  | none => simp
  | some halike => simpa using halike.started_iff name worker

/-- It is alike. -/
theorem work_alike (h : store.Alike likeness store') {work work' : Suspension}
    (hcell : store.cells[cell]? = some ⟨name, .started worker work⟩)
    (hcell' : store'.cells[cell]? = some ⟨name, .started worker work'⟩) :
    work.Alike likeness .same work' := by
  have hcells := h.cells cell
  rw [hcell, hcell'] at hcells
  cases hcells with
  | some halike =>
      cases halike.state with
      | started _ hwork => exact hwork

end Store.Alike

namespace Machine

variable {host : Host} {state state' next : State}

/-- Alike states lead on to alike states. -/
theorem next_inStep (hhost : host.InStep likeness) (hgrow : likeness.TracesGrow)
    (h : state.InStep likeness state') (hnext : step host state = .next next) :
    ∃ next', step host state' = .next next' ∧ next.InStep likeness next' := by
  have hstep := step_inStep hhost hgrow h
  rw [hnext] at hstep
  generalize step host state' = transition at hstep ⊢
  cases hstep with
  | next halike => exact ⟨_, rfl, halike⟩

/-- Alike states halt with alike results. -/
theorem halt_inStep (hhost : host.InStep likeness) (hgrow : likeness.TracesGrow)
    (h : state.InStep likeness state') {result : Result} {store : Store}
    (hhalt : step host state = .halt result store) :
    ∃ result' store', step host state' = .halt result' store' ∧
      Result.Alike likeness .same result result' ∧ store.Alike likeness store' := by
  have hstep := step_inStep hhost hgrow h
  rw [hhalt] at hstep
  generalize step host state' = transition at hstep ⊢
  cases hstep with
  | halt hresult hstore => exact ⟨_, _, rfl, hresult, hstore⟩

/-- Tasks demand the same cell, if they demand one. -/
theorem TaskInStep.binding_iff {awaited : Awaited} {control control' : Control}
    (h : TaskInStep likeness awaited control control') (cell : CellId) :
    control = .resume (.binding cell) ↔ control' = .resume (.binding cell) := by
  cases h with
  | run _ => simp
  | resume hwork =>
      cases hwork with
      | binding hcell =>
          cases hcell
          rfl
      | _ => simp

end Machine

namespace Async

open Machine

variable {host : Host} {system system' later : System} {entries : Log} {thread : EvaluationId}
  {state state' next next' : State}

/-! ## Alike systems -/

/-- Alike things to do, for the same evaluation. -/
inductive Activity.InStep (likeness : Likeness) : Activity → Activity → Prop where
  | idle : Activity.InStep likeness .idle .idle
  | working {control control' : Control} {stack stack' : List Pending} (evaluation : EvaluationId) :
      DoingInStep likeness control control' stack stack' →
        Activity.InStep likeness (.working control stack evaluation)
          (.working control' stack' evaluation)
  | receiving (cell : CellId) (worker : EvaluationId) {stack stack' : List Pending}
      (evaluation : EvaluationId) :
      StackInStep likeness .step stack stack' →
        Activity.InStep likeness (.receiving cell worker stack evaluation)
          (.receiving cell worker stack' evaluation)
  | finished {result result' : Result} :
      Result.Alike likeness .same result result' →
        Activity.InStep likeness (.finished result) (.finished result')

/-- Threads that are at alike things, and alike stores. -/
structure System.InStep (likeness : Likeness) (system system' : System) : Prop where
  store : system.store.Alike likeness system'.store
  threads : ∀ thread, (system.threads thread).InStep likeness (system'.threads thread)

theorem Activity.inStep_of_state (h : state.InStep likeness state') :
    (activityOf state).InStep likeness (activityOf state') := by
  rw [activityOf, activityOf, h.evaluation]
  exact .working _ h.doing

theorem Activity.InStep.idle_iff {activity activity' : Activity}
    (h : activity.InStep likeness activity') : activity = .idle ↔ activity' = .idle := by
  cases h <;> simp

/-- Workers begin alike with alike work. -/
theorem Activity.inStep_workerOf {work work' : Suspension} (h : work.Alike likeness .same work')
    (worker : EvaluationId) : (workerOf work worker).InStep likeness (workerOf work' worker) :=
  .working worker ⟨.step, .step (.done (.ok (.suspended h))),
    .trampoline (CallSite.alike_self none) .nil⟩

theorem System.At.unique (h : system.At thread state) (h' : system.At thread state') :
    state = state' :=
  (h.eq h'.1).trans (h'.eq h'.1).symm

namespace System.InStep

theorem put (h : system.InStep likeness system') {activity activity' : Activity}
    (hactivity : activity.InStep likeness activity') {store store' : Store}
    (hstore : store.Alike likeness store') (thread : EvaluationId) :
    (system.put thread activity store).InStep likeness (system'.put thread activity' store') := by
  refine ⟨hstore, fun other => ?_⟩
  by_cases hother : other = thread
  · subst hother
    rw [system.threads_put, system'.threads_put]
    exact hactivity
  · rw [system.threads_put_of_ne hother, system'.threads_put_of_ne hother]
    exact h.threads other

/-- The machines on a thread are in alike states. -/
theorem of_at (h : system.InStep likeness system') (hat : system.At thread state) :
    ∃ state', system'.At thread state' ∧ state.InStep likeness state' := by
  have hactivity := h.threads thread
  rw [hat.1] at hactivity
  have hstore := h.store
  rw [hat.2] at hstore
  generalize hthread : system'.threads thread = activity' at hactivity
  cases hactivity with
  | working _ hdoing =>
      exact ⟨⟨_, _, state.evaluation, system'.store⟩, ⟨hthread, rfl⟩, hdoing, rfl, hstore⟩

/-- Nobody is at anything. -/
theorem of_idle (hstore : system.store.Alike likeness system'.store)
    (hidle : ∀ thread, system.threads thread = .idle)
    (hidle' : ∀ thread, system'.threads thread = .idle) : system.InStep likeness system' := by
  refine ⟨hstore, fun thread => ?_⟩
  rw [hidle, hidle']
  exact .idle

end System.InStep

/-! ## Alike turns -/

theorem takesOver_iff_claim {worker : EvaluationId} :
    TakesOver state worker ↔ ∃ cell, state.control = .resume (.binding cell) ∧
      ∃ work, (state.store.claim state.evaluation cell).1 = .run work (some worker) := by
  constructor
  · rintro ⟨cell, work, store, hcontrol, hclaim⟩
    exact ⟨cell, hcontrol, work, by rw [hclaim]⟩
  · rintro ⟨cell, hcontrol, work, hclaim⟩
    exact ⟨cell, work, _, hcontrol, Prod.ext hclaim rfl⟩

/-- The same worker is taken over on both sides. -/
theorem takesOver_iff (h : state.InStep likeness state') (worker : EvaluationId) :
    TakesOver state worker ↔ TakesOver state' worker := by
  obtain ⟨⟨awaited, htask, -⟩, hevaluation, hstore⟩ := h
  simp only [takesOver_iff_claim, htask.binding_iff, ← hevaluation,
    (hstore.claim state.evaluation _).1.run_iff]

/-- A worker is hired on both sides. -/
theorem hires_iff (h : state.InStep likeness state') (hnext : next.InStep likeness next') :
    Hires state next ↔ Hires state' next' := by
  simp only [Hires, h.store.workers, hnext.store.workers, hnext.store.started_iff]

/-- Whatever a thread can do, it can do in an alike system, and the systems are alike after that.  In
the same system it does the same. -/
theorem Turn.inStep (hhost : host.InStep likeness) (hgrow : likeness.TracesGrow)
    (h : system.InStep likeness system') (hturn : Turn host thread system entries later) :
    ∃ entries' later', Turn host thread system' entries' later' ∧ later.InStep likeness later' ∧
      (system = system' → later = later') := by
  cases hturn with
  | think hat hnext hover hhires =>
      obtain ⟨state', hat', hstate⟩ := h.of_at hat
      obtain ⟨next', hnext', hlater⟩ := next_inStep hhost hgrow hstate hnext
      refine ⟨_, _, .think hat' hnext' ?_ ?_,
        h.put (Activity.inStep_of_state hlater) hlater.store thread, ?_⟩
      · intro worker htakes
        have hidle := hover worker ((takesOver_iff hstate worker).mpr htakes)
        exact (h.threads worker).idle_iff.mp hidle
      · rwa [← hires_iff hstate hlater]
      · rintro rfl
        cases hat.unique hat'
        cases hnext.symm.trans hnext'
        rfl
  | @spawn state next cell name work hat hnext hlt hcell =>
      obtain ⟨state', hat', hstate⟩ := h.of_at hat
      obtain ⟨next', hnext', hlater⟩ := next_inStep hhost hgrow hstate hnext
      have hworkers := hlater.store.workers
      obtain ⟨work', hcell'⟩ := (hlater.store.started_iff cell name _).mp ⟨work, hcell⟩
      have hwork := hlater.store.work_alike hcell hcell'
      have hput := h.put (Activity.inStep_of_state hlater) hlater.store thread
      rw [hstate.store.workers, hworkers] at hlt
      rw [hworkers] at hcell hcell' ⊢
      refine ⟨_, _, .spawn hat' hnext' hlt hcell',
        hput.put (Activity.inStep_workerOf hwork _) hlater.store _, ?_⟩
      rintro rfl
      cases hat.unique hat'
      cases hnext.symm.trans hnext'
      cases hcell.symm.trans hcell'
      rfl
  | @receive state cell work worker store hat hcontrol hclaim hactive =>
      obtain ⟨state', hat', ⟨awaited, htask, hstack⟩, hevaluation, hstore⟩ := h.of_at hat
      have hcontrol' := (htask.binding_iff cell).mp hcontrol
      rw [hcontrol, hcontrol'] at htask
      have halike := hstore.claim state.evaluation cell
      rcases hclaim' : state'.store.claim state'.evaluation cell with ⟨claim, store'⟩
      rw [hclaim, hevaluation, hclaim'] at halike
      obtain ⟨hclaims, hstores⟩ := halike
      -- Work is only ever resumed above a trampoline.
      cases htask with
      | resume _ =>
          cases hclaims with
          | run _ _ =>
              refine ⟨_, _, .receive hat' hcontrol' hclaim' ?_,
                h.put (hevaluation ▸ .receiving cell worker _ hstack) hstores thread, ?_⟩
              · exact fun hidle => hactive ((h.threads worker).idle_iff.mpr hidle)
              · rintro rfl
                cases hat.unique hat'
                cases hclaim.symm.trans hclaim'
                rfl
  | @deliver cell worker stack evaluation result hreceiving hfinished =>
      have hthread := h.threads thread
      have hworker := h.threads worker
      rw [hreceiving] at hthread
      rw [hfinished] at hworker
      generalize hreceiving' : system'.threads thread = activity at hthread
      generalize hfinished' : system'.threads worker = activity' at hworker
      cases hthread with
      | receiving _ _ _ hstack =>
          cases hworker with
          | finished hresult =>
              have hstep := hresult.imp fun _ _ => Value.StepAlike.value
              have hactivity := Activity.InStep.working evaluation
                ⟨.step, .step (.done hstep), hstack⟩
              refine ⟨_, _, .deliver hreceiving' hfinished',
                h.put hactivity (h.store.settle cell hresult) thread, ?_⟩
              rintro rfl
              cases hreceiving.symm.trans hreceiving'
              cases hfinished.symm.trans hfinished'
              rfl
  | halt hat hhalt =>
      obtain ⟨state', hat', hstate⟩ := h.of_at hat
      obtain ⟨result', store', hhalt', hresult, hstore⟩ := halt_inStep hhost hgrow hstate hhalt
      refine ⟨_, _, .halt hat' hhalt', h.put (.finished hresult) hstore thread, ?_⟩
      rintro rfl
      cases hat.unique hat'
      cases hhalt.symm.trans hhalt'
      rfl

/-- A system that is in step with itself stays so. -/
theorem Turn.inStep_self (hhost : host.InStep likeness) (hgrow : likeness.TracesGrow)
    (h : system.InStep likeness system) (hturn : Turn host thread system entries later) :
    later.InStep likeness later := by
  obtain ⟨_, later', _, hlater, hsame⟩ := hturn.inStep hhost hgrow h
  rwa [← hsame rfl] at hlater

/-- Alike systems proceed alike. -/
theorem Proceeds.inStep (hhost : host.InStep likeness) (hgrow : likeness.TracesGrow)
    (h : system.InStep likeness system') (hproceeds : Proceeds host system later) :
    ∃ later', Proceeds host system' later' ∧ later.InStep likeness later' := by
  induction hproceeds with
  | refl => exact ⟨system', .refl, h⟩
  | tail _ hturn ih =>
      obtain ⟨thread, entries, hturn⟩ := hturn
      obtain ⟨middle', hmiddle', hmiddle⟩ := ih
      obtain ⟨entries', later', hturn', hlater, -⟩ := hturn.inStep hhost hgrow hmiddle
      exact ⟨later', hmiddle'.tail ⟨thread, entries', hturn'⟩, hlater⟩

end Async
end LazyLisp
