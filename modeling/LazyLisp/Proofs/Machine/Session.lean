import LazyLisp.Host.Functions
import LazyLisp.Proofs.Machine.Effect

/-!
# Session — running cells are the cells on the stack

A session is any number of evaluations, one after the other, over cells that stay.  As long as it
starts no background work, a cell is marked as running from the moment the stack begins to wait for
its outcome to the moment its outcome gets there, whatever happens in between: other cells may be
demanded, requests may change bindings, and failures may travel through any number of cells and be
caught.  This file defines:

* `Machine.State.Begins`, the states in which evaluations begin;
* `Machine.Session`, the states that a session goes through;
* `Machine.Stands`, the states of cells that go with being on the stack or not, and
  `Machine.Placed`, the stores all of whose cells stand in that way.

Main results: `Machine.sound_of_step` is what a step preserves, `Machine.sound_of_session` what a
session preserves, and `Machine.session_runs_iff_forced` what follows for running cells.
-/

namespace LazyLisp
namespace Machine

variable {host : Host} {state state' : State} {store : Store} {stack : List CellId}

/-! ## Sessions -/

/-- The states in which an evaluation begins: with a script, a form or suspended work. -/
inductive State.Begins : State → Prop where
  | script (script : Script Value) (store : Store) : Begins (.ofScript script store)
  | form (form : Value) (scope : Scope) (store : Store) : Begins (.ofForm form scope store)
  | suspension (work : Suspension) (store : Store) : Begins (.ofSuspension work store)

/-- The next step is a request to start background work. -/
def State.AsksStart (state : State) : Prop :=
  ∃ scope name next, state.control = .run (.ask (.start scope name) next)

/-- The states of a session that starts no background work.  It begins without cells.  Once an
evaluation has halted, the next one finds the cells as they were left. -/
inductive Session (host : Host) : State → Prop where
  | first {state : State} : state.Begins → state.store.cells = #[] → Session host state
  | step {state state' : State} :
      Session host state → ¬ state.AsksStart → step host state = .next state' →
        Session host state'
  | again {state state' : State} {result : Result} {store : Store} :
      Session host state → Machine.step host state = .halt result store → state'.Begins →
        state'.store.cells = store.cells → Session host state'

theorem State.Begins.evaluation (h : state.Begins) : state.evaluation = mainEvaluation := by
  cases h <;> rfl

theorem State.Begins.settling (h : state.Begins) : settling state.stack = [] := by
  cases h <;> rfl

/-! ## Cells on and off the stack -/

/-- The states of a cell that go with being among the given cells or not. -/
inductive Stands (stack : List CellId) (id : CellId) : Cell → Prop where
  | pending {name : String} {work : Suspension} : id ∉ stack → Stands stack id ⟨name, .pending work⟩
  | running {name : String} : id ∈ stack → Stands stack id ⟨name, .running mainEvaluation none⟩
  | settled {name : String} {result : Result} :
      id ∉ stack → Stands stack id ⟨name, .settled result⟩

/-- Only whether a cell is among the given ones matters to it. -/
theorem Stands.congr {stack' : List CellId} {id : CellId} {cell : Cell}
    (h : Stands stack id cell) (hiff : id ∈ stack ↔ id ∈ stack') : Stands stack' id cell := by
  cases h with
  | pending hmem => exact .pending fun hmem' => hmem (hiff.mpr hmem')
  | running hmem => exact .running (hiff.mp hmem)
  | settled hmem => exact .settled fun hmem' => hmem (hiff.mpr hmem')

/-- The given cells are different cells of the store, and all cells stand accordingly. -/
structure Placed (stack : List CellId) (store : Store) : Prop where
  nodup : stack.Nodup
  present : ∀ id ∈ stack, ∃ cell, store.cells[id]? = some cell
  stands : ∀ (id : CellId) (cell : Cell), store.cells[id]? = some cell → Stands stack id cell

namespace Placed

theorem of_cells_eq {store' : Store} (h : Placed stack store)
    (hcells : store'.cells = store.cells) : Placed stack store' := by
  refine ⟨h.nodup, ?_, ?_⟩
  · intro id hmem
    rw [hcells]
    exact h.present id hmem
  · intro id cell hcell
    rw [hcells] at hcell
    exact h.stands id cell hcell

theorem empty (hcells : store.cells = #[]) : Placed [] store := by
  refine ⟨.nil, ?_, ?_⟩
  · intro id hmem
    cases hmem
  · intro id cell hcell
    rw [hcells] at hcell
    cases hcell

/-- The given cells are those that run. -/
theorem runs_iff (h : Placed stack store) (id : CellId) : store.Runs id ↔ id ∈ stack := by
  constructor
  · rintro ⟨name, owner, worker, hcell⟩
    have hstands := h.stands id _ hcell
    cases hstands with
    | running hmem => exact hmem
  · intro hmem
    rcases h.present id hmem with ⟨cell, hcell⟩
    have hstands := h.stands id cell hcell
    cases hstands with
    | pending hnot => exact (hnot hmem).elim
    | running _ => exact ⟨_, _, _, hcell⟩
    | settled hnot => exact (hnot hmem).elim

/-- A request that starts no work leaves all cells where they are, and a new cell begins off the
stack. -/
theorem answer (h : Placed stack store) {request : Request}
    (hstart : ∀ scope name, request ≠ .start scope name) :
    Placed stack (store.answer request).2 := by
  rcases (store.cells_answer hstart).2 with hcells | ⟨name, work, hcells⟩
  · exact h.of_cells_eq hcells
  · refine ⟨h.nodup, ?_, ?_⟩
    · intro id hmem
      rcases h.present id hmem with ⟨cell, hcell⟩
      rcases Store.getElem?_answer hcell request with hsame | ⟨_, _, _, hstarted⟩
      · exact ⟨cell, hsame⟩
      · exact ⟨_, hstarted⟩
    · intro id cell hcell
      rw [hcells, Array.getElem?_push] at hcell
      split at hcell
      · next hid =>
          cases hcell
          -- The new cell comes after all cells of the store, and only those are on the stack.
          refine .pending fun hmem => ?_
          rcases h.present id hmem with ⟨cell, hpresent⟩
          rcases Array.getElem?_eq_some_iff.mp hpresent with ⟨hlt, _⟩
          exact Nat.ne_of_lt hlt hid
      · exact h.stands id cell hcell

/-- Where all cells stand in this way, a demand can only begin pending work, and what it begins
goes on the stack. -/
theorem claim {id : CellId} {work : Suspension} {worker : Option EvaluationId} {store' : Store}
    (h : Placed stack store)
    (hclaim : store.claim mainEvaluation id = (.run work worker, store')) :
    worker = none ∧ Placed (id :: stack) store' := by
  rcases Store.claim_run hclaim with ⟨name, rfl, ⟨hcell, rfl⟩ | ⟨started, _, _, hcell⟩⟩
  · have hnot : id ∉ stack := by
      have hstands := h.stands id _ hcell
      cases hstands with
      | pending hnot => exact hnot
    refine ⟨rfl, List.nodup_cons.mpr ⟨hnot, h.nodup⟩, ?_, ?_⟩
    · intro other hmem
      by_cases heq : id = other
      · subst heq
        exact ⟨_, Store.getElem?_replaceCell_self hcell⟩
      · rw [Store.getElem?_replaceCell_of_ne heq]
        exact h.present other ((List.mem_cons.mp hmem).resolve_left (Ne.symm heq))
    · intro other cell hother
      by_cases heq : id = other
      · subst heq
        rw [Store.getElem?_replaceCell_self hcell] at hother
        cases hother
        exact .running List.mem_cons_self
      · rw [Store.getElem?_replaceCell_of_ne heq] at hother
        exact (h.stands other cell hother).congr (by simp [Ne.symm heq])
  -- No cell is started in a session without background work.
  · have hstands := h.stands id _ hcell
    cases hstands

/-- A settled cell leaves the stack, and no other does. -/
theorem settle {id : CellId} {result : Result} (h : Placed (id :: stack) store) :
    Placed stack (store.settle id result) := by
  rcases List.nodup_cons.mp h.nodup with ⟨hnot, hnodup⟩
  rcases h.present id List.mem_cons_self with ⟨cell, hcell⟩
  rw [Store.settle_eq hcell]
  refine ⟨hnodup, ?_, ?_⟩
  · intro other hmem
    have hne : id ≠ other := by
      rintro rfl
      exact hnot hmem
    rw [Store.getElem?_replaceCell_of_ne hne]
    exact h.present other (List.mem_cons_of_mem id hmem)
  · intro other otherCell hother
    by_cases heq : id = other
    · subst heq
      rw [Store.getElem?_replaceCell_self hcell] at hother
      cases hother
      exact .settled hnot
    · rw [Store.getElem?_replaceCell_of_ne heq] at hother
      exact (h.stands other otherCell hother).congr (by simp [Ne.symm heq])

/-- A demand is refused exactly if the demanded cell is on the stack. -/
theorem selfDependent_iff (h : Placed stack store) (id : CellId) :
    (∃ name, (store.claim mainEvaluation id).1 = .selfDependent name) ↔ id ∈ stack := by
  constructor
  · rintro ⟨name, hclaim⟩
    cases hcell : store.cells[id]? with
    | none =>
        rw [Store.claim_of_none hcell] at hclaim
        cases hclaim
    | some cell =>
        have hstands := h.stands id cell hcell
        cases hstands with
        | pending _ =>
            rw [Store.claim_of_pending hcell] at hclaim
            cases hclaim
        | running hmem => exact hmem
        | settled _ =>
            rw [Store.claim_of_settled hcell] at hclaim
            cases hclaim
  · intro hmem
    rcases (h.runs_iff id).mpr hmem with ⟨name, owner, worker, hcell⟩
    have hstands := h.stands id _ hcell
    cases hstands with
    | running _ => exact ⟨name, by rw [Store.claim_of_running_self hcell (.inl rfl)]⟩

end Placed

/-! ## What sessions preserve -/

/-- The machine works for the main evaluation, now and after each cell that the stack waits for, and
the cells on the stack are those that run. -/
structure Sound (state : State) : Prop where
  evaluation : state.evaluation = mainEvaluation
  outer : ∀ entry ∈ settling state.stack, entry.2 = mainEvaluation
  placed : Placed (forced state.stack) state.store

/-- Where an evaluation begins, no cell may be running. -/
theorem sound_of_begins (h : state.Begins) (hplaced : Placed [] state.store) : Sound state := by
  refine ⟨h.evaluation, ?_, ?_⟩
  · intro entry hmem
    rw [h.settling] at hmem
    cases hmem
  · rw [forced, h.settling]
    exact hplaced

/-- One step: the stack and the marks on the cells change together. -/
theorem sound_of_step (h : Sound state) (hstart : ¬ state.AsksStart)
    (hstep : step host state = .next state') : Sound state' := by
  have heffect := effect_of_step hstep
  cases heffect with
  | still hstore hevaluation hsettling =>
      refine ⟨hevaluation.trans h.evaluation, ?_, ?_⟩
      · rw [hsettling]
        exact h.outer
      · rw [forced, hsettling, hstore]
        exact h.placed
  | @answered request next =>
      have hrequest : ∀ scope name, request ≠ .start scope name := by
        rintro scope name rfl
        exact hstart ⟨scope, name, next, rfl⟩
      exact ⟨h.evaluation, h.outer, h.placed.answer hrequest⟩
  -- The cell is marked and put on the stack in one step.
  | entered hclaim =>
      have hmain := h.evaluation
      subst hmain
      rcases h.placed.claim hclaim with ⟨rfl, hplaced⟩
      refine ⟨rfl, ?_, hplaced⟩
      intro entry hmem
      rcases List.mem_cons.mp hmem with rfl | hmem
      · rfl
      · exact h.outer entry hmem
  -- The outcome of the cell on top is there, be it a value or a failure.
  | settled =>
      refine ⟨h.outer _ List.mem_cons_self, ?_, h.placed.settle⟩
      intro entry hmem
      exact h.outer entry (List.mem_cons_of_mem _ hmem)

/-- No cell is running any more when an evaluation halts. -/
theorem placed_of_halt {result : Result} (h : Sound state)
    (hhalt : step host state = .halt result store) : Placed [] store := by
  rcases halt_of_step hhalt with ⟨_, hstack, rfl⟩
  have hplaced := h.placed
  rw [hstack] at hplaced
  exact hplaced

/-- Sessions, by induction on their steps. -/
theorem sound_of_session (h : Session host state) : Sound state := by
  induction h with
  | first hbegins hcells => exact sound_of_begins hbegins (.empty hcells)
  | step _ hstart hstep ih => exact sound_of_step ih hstart hstep
  | again _ hhalt hbegins hcells ih =>
      exact sound_of_begins hbegins ((placed_of_halt ih hhalt).of_cells_eq hcells)

/-- At every point of a session, the running cells are exactly those whose outcome the stack waits
for.  So no cell is running when an evaluation has come to its end, with a value or a failure, and
the failure of a binding that depends on its own value is raised exactly when the demanded binding
is being resolved further out. -/
theorem session_runs_iff_forced (h : Session host state) :
    (∀ cell, state.store.Runs cell ↔ cell ∈ forced state.stack) ∧
      (∀ result store, step host state = .halt result store → ∀ cell, ¬ store.Runs cell) ∧
      (state.RaisesSelfDependence ↔
        ∃ cell ∈ forced state.stack, state.control = .resume (.binding cell)) := by
  have hsound := sound_of_session h
  refine ⟨hsound.placed.runs_iff, ?_, ?_⟩
  · intro result store hhalt cell hruns
    have hmem := ((placed_of_halt hsound hhalt).runs_iff cell).mp hruns
    cases hmem
  · have hrefused := hsound.placed.selfDependent_iff
    rw [← hsound.evaluation] at hrefused
    constructor
    · rintro ⟨cell, name, hcontrol, hclaim⟩
      exact ⟨cell, (hrefused cell).mp ⟨name, hclaim⟩, hcontrol⟩
    · rintro ⟨cell, hmem, hcontrol⟩
      rcases (hrefused cell).mpr hmem with ⟨name, hclaim⟩
      exact ⟨cell, name, hcontrol, hclaim⟩

/-- One evaluation binds `x` to work that demands `x`, and the next one demands it: the cell runs,
and the demand that comes next is refused. -/
theorem session_runs_iff_forced_cycle :
    ∃ state, Session Host.standard state ∧ state.store.Runs 0 ∧ state.RaisesSelfDependence := by
  let script : Script Value := .ask (.bindLazy .base "x" (.binding 0)) fun _ => .done (.ok .nil)
  let store : Store := (Store.base.setLazy .base "x" (.binding 0)).2
  have hfirst : Session Host.standard (.ofScript script .base) := .first (.script _ _) rfl
  have hbound : Session Host.standard (.ofScript (.done (.ok .nil)) store) := by
    refine hfirst.step ?_ rfl
    rintro ⟨scope, name, next, hcontrol⟩
    simp [State.ofScript, script] at hcontrol
  -- The second evaluation demands `x`, enters it, and demands it again.
  have hdemand : Session Host.standard (.ofSuspension (.binding 0) store) :=
    hbound.again rfl (.suspension _ _) rfl
  have hresume := hdemand.step (by rintro ⟨_, _, _, hcontrol⟩; cases hcontrol) rfl
  have hentered := hresume.step (by rintro ⟨_, _, _, hcontrol⟩; cases hcontrol) rfl
  have hagain := hentered.step (by rintro ⟨_, _, _, hcontrol⟩; cases hcontrol) rfl
  have hforced := session_runs_iff_forced hagain
  exact ⟨_, hagain, (hforced.1 0).mpr (.head _), hforced.2.2.mpr ⟨0, .head _, rfl⟩⟩

end Machine
end LazyLisp
