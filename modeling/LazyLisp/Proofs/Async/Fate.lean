import LazyLisp.Proofs.Async.Pursuit

/-!
# Fate — what becomes of the work of a cell

The work of a cell is taken up once, by a demand for the cell or by the worker that it was started for.
Whoever takes it up is at it until there is an outcome, and that is what the cell is settled with.  This
file defines:

* `Async.System.Enters` and `Async.TakenUp`, how the work of a cell is taken up;
* `Async.CameTo`, the outcomes that the work of a cell has come to;
* `Async.Tended` and `Async.Fate`, what is done about the work of a cell at any time.

Main results: `Async.takenUp_of_step`, what a step does to a cell that does not run,
`Async.fate_of_step`, what every step preserves, and `Async.fate_of_later`, what becomes of pending work
in the long run.
-/

namespace LazyLisp
namespace Async

open Machine

variable {host : Host} {first begun system system' last : System} {log entries : Log}
  {thread worker : EvaluationId} {rest : List Pending} {cell : CellId} {name : String}
  {work : Suspension} {content : Cell} {result : Result}

/-! ## Work that is taken up -/

/-- The thread turns to the work of the cell.  It is either going to settle the cell with what it comes
to, or it is the worker that the cell was started for. -/
def System.Enters (system : System) (thread : EvaluationId) (cell : CellId) (work : Suspension)
    (rest : List Pending) : Prop :=
  (∃ evaluation, system.threads thread =
      .working (.run (.done (.ok (.suspended work)))) (.trampoline none :: rest) evaluation) ∧
    ((∃ outer below, rest = .settle cell outer :: below) ∨
      rest = [] ∧ ∃ name, system.store.cells[cell]? = some ⟨name, .started thread work⟩)

/-- What a step does to a cell that does not run. -/
inductive TakenUp (cell : CellId) (system system' : System) : Cell → Prop where
  | same {content : Cell} :
      system'.store.cells[cell]? = some content → TakenUp cell system system' content
  | started {name : String} {work : Suspension} {worker : EvaluationId} :
      system'.store.cells[cell]? = some ⟨name, .started worker work⟩ →
      (system'.threads worker = .idle ∨ system'.Enters worker cell work []) →
        TakenUp cell system system' ⟨name, .pending work⟩
  | demanded {name : String} {work : Suspension} {thread outer : EvaluationId}
      {helper : Option EvaluationId} {below : List Pending} :
      system'.store.cells[cell]? = some ⟨name, .running outer helper⟩ →
      system'.Enters thread cell work (.settle cell outer :: below) →
        TakenUp cell system system' ⟨name, .pending work⟩
  | takenOver {name : String} {work : Suspension} {thread worker outer : EvaluationId}
      {helper : Option EvaluationId} {below : List Pending} :
      system.threads worker = .idle →
      system'.store.cells[cell]? = some ⟨name, .running outer helper⟩ →
      system'.Enters thread cell work (.settle cell outer :: below) →
        TakenUp cell system system' ⟨name, .started worker work⟩
  | left {name : String} {work : Suspension} {thread worker evaluation : EvaluationId}
      {helper : Option EvaluationId} {stack : List Pending} :
      system.threads worker ≠ .idle →
      system'.store.cells[cell]? = some ⟨name, .running evaluation helper⟩ →
      system'.threads thread = .receiving cell worker stack evaluation →
        TakenUp cell system system' ⟨name, .started worker work⟩

/-- What settles one cell leaves those alone that do not run. -/
theorem getElem?_settle_of_runs {store : Store} {other : CellId} (hruns : store.Runs other)
    (hcell : store.cells[cell]? = some content) (hrest : ¬ store.Runs cell) (result : Result) :
    (store.settle other result).cells[cell]? = some content := by
  obtain ⟨bound, owner, helper, hother⟩ := hruns
  have hne : other ≠ cell := by
    rintro rfl
    exact hrest ⟨bound, owner, helper, hother⟩
  rw [Store.settle_eq hother, Store.getElem?_replaceCell_of_ne hne, hcell]

/-- A step of the machine that does not demand the cell or start it leaves the cell alone. -/
theorem takenUp_of_effect {state state' : State} (hsound : Sound system log)
    (hat : system.At thread state) (heffect : Effect state state')
    (hover : ∀ worker, TakesOver state worker → system.threads worker = .idle)
    (hcell : system.store.cells[cell]? = some content) (hrest : ¬ system.store.Runs cell) :
    TakenUp cell system (system.put thread (activityOf state') state'.store) content := by
  have hthread := hsound.thread_le hat
  have hruns := hsound.runs_of_at hat
  have hactivity := system.threads_put thread (activityOf state') state'.store
  rw [hat.2] at hcell hrest hthread
  cases heffect with
  | still hstore _ _ =>
      refine .same ?_
      rw [System.put, hstore]
      exact hcell
  | @answered request next stack evaluation store =>
      rcases Store.getElem?_answer hcell request with hsame | ⟨name, work, rfl, hstarted⟩
      · exact .same hsame
      · -- There is no thread yet for a new worker.
        have hidle : system.threads (store.workers + 1) = .idle := by
          by_contra hactive
          have hle := hsound.bounded _ hactive
          rw [hat.2] at hle
          exact Nat.not_succ_le_self _ hle
        have hne : store.workers + 1 ≠ thread := Nat.ne_of_gt (Nat.lt_succ_of_le hthread)
        refine .started hstarted (.inl ?_)
        rw [System.threads_put_of_ne _ hne, hidle]
  | @entered demanded work helper stack evaluation store store' hclaim =>
      obtain ⟨bound, hstore', hbefore⟩ := Store.claim_run hclaim
      by_cases heq : demanded = cell
      · subst heq
        have henters : System.Enters (system.put thread _ store') thread demanded work
            (.settle demanded evaluation :: stack) := ⟨⟨_, hactivity⟩, .inl ⟨_, _, rfl⟩⟩
        have hrunning : store'.cells[demanded]? = some ⟨bound, .running evaluation helper⟩ := by
          rw [hstore']
          exact Store.getElem?_replaceCell_self hcell
        rcases hbefore with ⟨hpending, rfl⟩ | ⟨started, hne, rfl, hstarted⟩
        · rw [hcell] at hpending
          cases hpending
          exact .demanded hrunning henters
        · rw [hcell] at hstarted
          cases hstarted
          exact .takenOver (hover started ⟨demanded, work, store', rfl, hclaim⟩) hrunning henters
      · refine .same ?_
        rw [System.put, hstore', Store.getElem?_replaceCell_of_ne heq]
        exact hcell
  | settled =>
      exact .same (getElem?_settle_of_runs (hruns _ List.mem_cons_self) hcell hrest _)

/-- A step does nothing to a cell that does not run, unless the cell is started or demanded. -/
theorem takenUp_of_step (hsound : Sound system log) (hstep : Step host system entries system')
    (hcell : system.store.cells[cell]? = some content) (hrest : ¬ system.store.Runs cell) :
    TakenUp cell system system' content := by
  cases hstep with
  | begin _ _ hcells _ =>
      refine .same ?_
      rw [System.put, hcells]
      exact hcell
  | @turn _ _ thread hturn =>
      cases hturn with
      | think hat hnext hover _ =>
          exact takenUp_of_effect hsound hat (effect_of_step hnext) hover hcell hrest
      | @spawn state state' other bound work hat hnext hlt hother =>
          obtain ⟨request, next, -, hstore'⟩ := request_of_workers_lt (effect_of_step hnext) hlt
          have hhired : Hired state.store := hat.2 ▸ hsound.hired
          rw [hat.2] at hcell
          have hlt' := hlt
          have hother' := hother
          rw [hstore'] at hlt' hother'
          obtain ⟨hpending, scope, sought, frame, rfl, howner⟩ := hhired.pending_of_answer hlt' hother'
          by_cases heq : other = cell
          · subst heq
            rw [hcell] at hpending
            cases hpending
            exact .started hother (.inr ⟨⟨_, System.threads_put ..⟩, .inr ⟨rfl, _, hother⟩⟩)
          · refine .same ?_
            rw [System.put, hstore']
            rcases state.store.cells_startAsync scope sought with
              hcells | ⟨frame', changed, _, _, howner', -, -, hcells⟩
            · rw [Store.answer, hcells, hcell]
            · rw [howner] at howner'
              cases howner'
              rw [Store.answer, hcells, Store.getElem?_replaceCell_of_ne heq, hcell]
      | @receive state demanded work worker store hat hcontrol hclaim hactive =>
          rw [← hat.2] at hclaim
          obtain ⟨bound, hstore', ⟨-, hnone⟩ | ⟨started, hne, hsome, hstarted⟩⟩ :=
            Store.claim_run hclaim
          · cases hnone
          · cases hsome
            by_cases heq : demanded = cell
            · subst heq
              rw [hcell] at hstarted
              cases hstarted
              have hrunning : store.cells[demanded]? =
                  some ⟨bound, .running state.evaluation (some worker)⟩ := by
                rw [hstore']
                exact Store.getElem?_replaceCell_self hcell
              exact .left hactive hrunning (system.threads_put ..)
            · refine .same ?_
              rw [System.put, hstore', Store.getElem?_replaceCell_of_ne heq, hcell]
      | @deliver other worker stack evaluation result hreceiving _ =>
          have hruns := hsound.runs_of_receiving hreceiving
          exact .same (getElem?_settle_of_runs hruns hcell hrest result)
      | halt hat hhalt =>
          obtain ⟨-, -, hstore⟩ := halt_of_step hhalt
          refine .same ?_
          rw [System.put, hstore, ← hat.2]
          exact hcell

/-! ## Outcomes of work -/

/-- The second system comes some steps after the first one. -/
def Later (host : Host) (first last : System) : Prop :=
  ∃ log, Execution host first log last

theorem Later.refl (host : Host) (system : System) : Later host system system :=
  ⟨[], .refl⟩

theorem Later.step (h : Later host first system) (hstep : Step host system entries system') :
    Later host first system' := by
  obtain ⟨log, hexecution⟩ := h
  exact ⟨_, hexecution.step hstep⟩

theorem Later.trans (h : Later host first system) (h' : Later host system last) :
    Later host first last := by
  obtain ⟨log, hexecution⟩ := h'
  induction hexecution with
  | refl => exact h
  | step _ hstep ih => exact ih.step hstep

/-- Since the first system, some thread has turned to the work of the cell and has come to the
result. -/
def CameTo (host : Host) (first : System) (cell : CellId) (work : Suspension) (result : Result)
    (last : System) : Prop :=
  ∃ thread rest begun done, Later host first begun ∧ begun.Enters thread cell work rest ∧
    ComesTo host thread rest begun result done ∧ Later host done last

theorem CameTo.step (h : CameTo host first cell work result system)
    (hstep : Step host system entries system') : CameTo host first cell work result system' := by
  obtain ⟨thread, rest, begun, done, hbegun, henters, hcomes, hlater⟩ := h
  exact ⟨thread, rest, begun, done, hbegun, henters, hcomes, hlater.step hstep⟩

/-- The thread is at the work of the cell, or has come to an outcome. -/
inductive Tended (host : Host) (first : System) (cell : CellId) (work : Suspension)
    (thread : EvaluationId) (rest : List Pending) (system : System) : Prop where
  | doing {begun : System} :
      Later host first begun → begun.Enters thread cell work rest →
      Pursuit host thread rest begun system → Tended host first cell work thread rest system
  | done {result : Result} :
      CameTo host first cell work result system → (system.threads thread).Brings rest result →
        Tended host first cell work thread rest system
  | ended {result : Result} :
      CameTo host first cell work result system → rest = [] →
      system.threads thread = .finished result → Tended host first cell work thread rest system

theorem System.Enters.serves (h : system.Enters thread cell work rest) :
    (system.threads thread).Serves rest := by
  obtain ⟨⟨evaluation, hactivity⟩, -⟩ := h
  rw [hactivity]
  refine .working (List.suffix_cons _ _) fun heq => ?_
  have hlength := congrArg List.length heq
  simp at hlength

theorem tended_of_enters (hlater : Later host first system)
    (h : system.Enters thread cell work rest) : Tended host first cell work thread rest system :=
  .doing hlater h (.begin h.serves)

/-- A thread that is at something goes on with it, or has an outcome. -/
theorem tended_of_pursuit (hsound : Sound system log) (hlater : Later host first begun)
    (henters : begun.Enters thread cell work rest)
    (h : Pursuit host thread rest begun system) (hstep : Step host system entries system') :
    Tended host first cell work thread rest system' := by
  rcases pursuit_of_step hsound h hstep with hpursuit | ⟨result, hcomes⟩
  · exact .doing hlater henters hpursuit
  · have hcame : CameTo host first cell work result system' :=
      ⟨thread, rest, begun, system', hlater, henters, hcomes, .refl host system'⟩
    obtain ⟨-, -, -, -, hbrings⟩ := hcomes
    exact .done hcame hbrings

/-- An outcome that a cell waits for is what the cell is settled with. -/
theorem tended_of_step_settle {other : CellId} {outer : EvaluationId} {below : List Pending}
    (hsound : Sound system log)
    (h : Tended host first cell work thread (.settle other outer :: below) system)
    (hstep : Step host system entries system') :
    Tended host first cell work thread (.settle other outer :: below) system' ∨
      ∃ result, CameTo host first cell work result system' ∧
        system'.store = system.store.settle other result := by
  cases h with
  | doing hlater henters hpursuit =>
      exact .inl (tended_of_pursuit hsound hlater henters hpursuit hstep)
  | ended _ hnil _ => cases hnil
  | @done result hcame hbrings =>
      rcases brings_of_moves (moves_of_step hsound hstep thread) hbrings with
        hbrings' | ⟨evaluation, state', hyield, -, hstore⟩ | ⟨hnil, -⟩
      · exact .inl (.done (hcame.step hstep) hbrings')
      · cases hyield
        exact .inr ⟨result, hcame.step hstep, hstore⟩
      · cases hnil

/-- A worker comes to an outcome and keeps it. -/
theorem tended_of_step_worker (hsound : Sound system log) (hworker : thread ≠ mainEvaluation)
    (h : Tended host first cell work thread [] system) (hstep : Step host system entries system') :
    Tended host first cell work thread [] system' := by
  cases h with
  | doing hlater henters hpursuit => exact tended_of_pursuit hsound hlater henters hpursuit hstep
  | @ended result hcame _ hfinished =>
      refine .ended (hcame.step hstep) rfl ?_
      cases moves_of_step hsound hstep thread with
      | stays same => exact same.trans hfinished
      | begins free =>
          rcases free with ⟨hmain, -⟩ | ⟨-, hidle⟩
          · exact (hworker hmain).elim
          · cases hfinished.symm.trans hidle
      | thinks hat _ _ _ => cases hfinished.symm.trans hat.1
      | asks hat _ _ _ _ => cases hfinished.symm.trans hat.1
      | receives receiving _ _ _ => cases hfinished.symm.trans receiving
      | halts hat _ _ _ _ => cases hfinished.symm.trans hat.1
  | done hcame hbrings =>
      rcases brings_of_moves (moves_of_step hsound hstep thread) hbrings with
        hbrings' | ⟨evaluation, state', hyield, -⟩ | ⟨-, hfinished⟩
      · exact .done (hcame.step hstep) hbrings'
      · cases hyield
      · exact .ended (hcame.step hstep) rfl hfinished

/-! ## What is awaited -/

theorem mem_forced_of_suffix {outer : EvaluationId} {below stack : List Pending}
    (h : .settle cell outer :: below <:+ stack) : cell ∈ forced stack := by
  induction stack with
  | nil => cases List.suffix_nil.mp h
  | cons pending stack ih =>
      rcases List.suffix_cons_iff.mp h with heq | hsuffix
      · cases heq
        exact List.mem_cons_self
      · have hmem := ih hsuffix
        cases pending with
        | await next => exact hmem
        | trampoline site => exact hmem
        | settle other evaluation => exact List.mem_cons_of_mem _ hmem

theorem Activity.Serves.mem_awaited {outer : EvaluationId} {below : List Pending}
    {activity : Activity} (h : activity.Serves (.settle cell outer :: below)) :
    cell ∈ activity.awaited := by
  cases h with
  | working hsuffix _ => exact mem_forced_of_suffix hsuffix
  | receiving hsuffix => exact List.mem_cons_of_mem _ (mem_forced_of_suffix hsuffix)

/-- Whoever is going to settle the cell awaits it. -/
theorem Tended.mem_awaited {other : CellId} {outer : EvaluationId} {below : List Pending}
    (h : Tended host first cell work thread (.settle other outer :: below) system) :
    other ∈ (system.threads thread).awaited := by
  cases h with
  | doing _ _ hpursuit => exact hpursuit.serves.mem_awaited
  | done _ hbrings =>
      obtain ⟨evaluation, hactivity⟩ := hbrings
      rw [hactivity]
      exact List.mem_cons_self
  | ended _ hnil _ => cases hnil

/-- A worker without a thread is not given one later on. -/
theorem idle_of_step (hsound : Sound system log) (hpos : 0 < worker)
    (hle : worker ≤ system.store.workers) (h : system.threads worker = .idle)
    (hstep : Step host system entries system') : system'.threads worker = .idle := by
  cases moves_of_step hsound hstep worker with
  | stays same => exact same.trans h
  | begins free =>
      rcases free with ⟨hmain, -⟩ | ⟨hlt, -⟩
      · exact (Nat.ne_of_gt hpos hmain).elim
      · exact (Nat.not_lt_of_le hle hlt).elim
  | thinks hat _ _ _ => cases h.symm.trans hat.1
  | asks hat _ _ _ _ => cases h.symm.trans hat.1
  | receives receiving _ _ _ => cases h.symm.trans receiving
  | halts hat _ _ _ _ => cases h.symm.trans hat.1

/-! ## The fate of work -/

/-- What has become of the work of a cell. -/
inductive Fate (host : Host) (first : System) (cell : CellId) (name : String) (work : Suspension)
    (system : System) : Prop where
  | pending :
      system.store.cells[cell]? = some ⟨name, .pending work⟩ →
        Fate host first cell name work system
  /-- The worker may never be given a thread, and then whoever demands the cell does the work. -/
  | started {worker : EvaluationId} :
      system.store.cells[cell]? = some ⟨name, .started worker work⟩ →
      (system.threads worker = .idle ∨ Tended host first cell work worker [] system) →
        Fate host first cell name work system
  | demanded {thread outer owner : EvaluationId} {helper : Option EvaluationId}
      {below : List Pending} :
      system.store.cells[cell]? = some ⟨name, .running owner helper⟩ →
      Tended host first cell work thread (.settle cell outer :: below) system →
        Fate host first cell name work system
  | left {thread worker evaluation owner : EvaluationId} {helper : Option EvaluationId}
      {stack : List Pending} :
      system.store.cells[cell]? = some ⟨name, .running owner helper⟩ →
      worker ≠ mainEvaluation → system.threads thread = .receiving cell worker stack evaluation →
      Tended host first cell work worker [] system → Fate host first cell name work system
  | settled {result : Result} :
      system.store.cells[cell]? = some ⟨name, .settled result⟩ →
      CameTo host first cell work result system → Fate host first cell name work system

/-- The outcome of a worker that has finished is what the work has come to. -/
theorem Tended.cameTo (h : Tended host first cell work thread rest system)
    (hfinished : system.threads thread = .finished result) :
    CameTo host first cell work result system := by
  cases h with
  | doing _ _ hpursuit =>
      have hserves := hpursuit.serves
      rw [hfinished] at hserves
      cases hserves
  | done _ hbrings =>
      obtain ⟨evaluation, hactivity⟩ := hbrings
      cases hfinished.symm.trans hactivity
  | ended hcame _ hended =>
      cases hfinished.symm.trans hended
      exact hcame

/-- Every step leaves the work where it is, or takes it one stage further. -/
theorem fate_of_step (hsound : Sound system log) (hlater : Later host first system)
    (h : Fate host first cell name work system) (hstep : Step host system entries system') :
    Fate host first cell name work system' := by
  have hsound' := sound_of_step hsound hstep
  have hlater' := hlater.step hstep
  have hages := ages_of_step hsound hstep
  cases h with
  | pending hcell =>
      have hrest : ¬ system.store.Runs cell := by
        rintro ⟨_, _, _, hruns⟩
        cases hcell.symm.trans hruns
      cases takenUp_of_step hsound hstep hcell hrest with
      | same hsame => exact .pending hsame
      | started hstarted hworker =>
          exact .started hstarted (hworker.imp_right fun henters => tended_of_enters hlater' henters)
      | demanded hrunning henters => exact .demanded hrunning (tended_of_enters hlater' henters)
  | @started worker hcell hworker =>
      have hrest : ¬ system.store.Runs cell := by
        rintro ⟨_, _, _, hruns⟩
        cases hcell.symm.trans hruns
      obtain ⟨hpos, hle⟩ := hsound.hired cell name worker work hcell
      have hmain : worker ≠ mainEvaluation := Nat.ne_of_gt hpos
      cases takenUp_of_step hsound hstep hcell hrest with
      | same hsame =>
          refine .started hsame (hworker.imp ?_ ?_)
          · exact fun hidle => idle_of_step hsound hpos hle hidle hstep
          · exact fun htended => tended_of_step_worker hsound hmain htended hstep
      | takenOver _ hrunning henters => exact .demanded hrunning (tended_of_enters hlater' henters)
      | left hactive hrunning hreceiving =>
          have htended := hworker.resolve_left hactive
          exact .left hrunning hmain hreceiving (tended_of_step_worker hsound hmain htended hstep)
  | demanded hcell htended =>
      rcases tended_of_step_settle hsound htended hstep with htended' | ⟨result, hcame, hstore⟩
      · have hruns := hsound'.apart.runs _ cell htended'.mem_awaited
        exact .demanded (running_of_ages hages hcell hruns) htended'
      · exact .settled (hstore ▸ Store.getElem?_settle hcell result) hcame
  | @left thread worker evaluation owner helper stack hcell hmain hreceiving htended =>
      have htended' := tended_of_step_worker hsound hmain htended hstep
      cases moves_of_step hsound hstep thread with
      | stays same =>
          have hreceiving' := same.trans hreceiving
          have hruns := hsound'.runs_of_receiving hreceiving'
          exact .left (running_of_ages hages hcell hruns) hmain hreceiving' htended'
      | begins free => exact (free.not_receiving hreceiving).elim
      | thinks hat _ _ _ => cases hreceiving.symm.trans hat.1
      | asks hat _ _ _ _ => cases hreceiving.symm.trans hat.1
      | receives receiving finished _ store =>
          cases hreceiving.symm.trans receiving
          have hcame := (htended.cameTo finished).step hstep
          exact .settled (store ▸ Store.getElem?_settle hcell _) hcame
      | halts hat _ _ _ _ => cases hreceiving.symm.trans hat.1
  | settled hcell hcame => exact .settled (hages.settled hcell) (hcame.step hstep)

/-- Pending work has one of these fates whatever happens from then on. -/
theorem fate_of_later (hsound : Sound first log)
    (hcell : first.store.cells[cell]? = some ⟨name, .pending work⟩) (h : Later host first system) :
    Fate host first cell name work system ∧ ∃ later, Sound system later := by
  obtain ⟨later, hexecution⟩ := h
  induction hexecution with
  | refl => exact ⟨.pending hcell, log, hsound⟩
  | step hbefore hstep ih =>
      obtain ⟨hfate, later, hlater⟩ := ih
      exact ⟨fate_of_step hlater ⟨_, hbefore⟩ hfate hstep, _, sound_of_step hlater hstep⟩

/-- Whatever becomes of the work, the cell keeps its name. -/
theorem Fate.name_eq {content : Cell} (h : Fate host first cell name work system)
    (hcontent : system.store.cells[cell]? = some content) : content.name = name := by
  cases h with
  | pending hcell | started hcell | demanded hcell | left hcell | settled hcell =>
      cases hcontent.symm.trans hcell
      rfl

end Async
end LazyLisp
