import LazyLisp.Script

/-!
# Cells — what demands do to the cells of a store

A demand changes one cell at most, and nothing else of the store.  What it does follows from the
state of the cell: pending and started work begins to run, a running cell refuses or makes wait, and
a settled one hands out its result.  This file defines:

* `Store.replaceCell`, the store with one cell replaced;
* `Store.Runs`, the cells that are running.

There is one lemma for each state, `Store.claim_of_pending` and so on, and one lemma for what each
change of a cell means to those who read cells.
-/

namespace LazyLisp
namespace Store

variable {store : Store} {me : EvaluationId} {id : CellId} {cell cell' : Cell}

/-! ## Replacing a cell -/

/-- The store with one cell replaced. -/
def replaceCell (store : Store) (id : CellId) (cell : Cell) : Store :=
  store.modifyCell id fun _ => cell

theorem getElem?_replaceCell (h : store.cells[id]? = some cell) (other : CellId) :
    (store.replaceCell id cell').cells[other]? =
      if id = other then some cell' else store.cells[other]? := by
  simp only [replaceCell, modifyCell, Array.getElem?_modify]
  split
  · next heq =>
      subst heq
      rw [h, Option.map_some]
  · rfl

theorem getElem?_replaceCell_self (h : store.cells[id]? = some cell) :
    (store.replaceCell id cell').cells[id]? = some cell' := by
  rw [getElem?_replaceCell h, if_pos rfl]

theorem getElem?_replaceCell_of_ne {other : CellId} (hne : id ≠ other) :
    (store.replaceCell id cell').cells[other]? = store.cells[other]? := by
  simp only [replaceCell, modifyCell, Array.getElem?_modify, if_neg hne]

theorem size_replaceCell : (store.replaceCell id cell').cells.size = store.cells.size := by
  simp [replaceCell, modifyCell]

/-- Changing a cell depends on that cell only. -/
theorem modifyCell_eq_replaceCell (h : store.cells[id]? = some cell) (change : Cell → Cell) :
    store.modifyCell id change = store.replaceCell id (change cell) := by
  have hcells : store.cells.modify id change = store.cells.modify id fun _ => change cell := by
    refine Array.ext_getElem? fun other => ?_
    simp only [Array.getElem?_modify]
    split
    · next heq =>
        subst heq
        rw [h, Option.map_some, Option.map_some]
    · rfl
  simp only [replaceCell, modifyCell, hcells]

theorem replaceCell_self (h : store.cells[id]? = some cell) :
    store.replaceCell id cell = store := by
  have hcells : (store.cells.modify id fun _ => cell) = store.cells := by
    refine Array.ext_getElem? fun other => ?_
    simp only [Array.getElem?_modify]
    split
    · next heq =>
        subst heq
        rw [h, Option.map_some]
    · rfl
  simp only [replaceCell, modifyCell, hcells]

/-! ## Demands -/

theorem claim_eq (h : store.cells[id]? = some cell) :
    store.claim me id = ((cell.claim me).1, store.replaceCell id (cell.claim me).2) := by
  simp only [claim, h, modifyCell_eq_replaceCell h]

section Claim

variable {name : String}

theorem claim_of_pending {work : Suspension} (h : store.cells[id]? = some ⟨name, .pending work⟩) :
    store.claim me id = (.run work none, store.replaceCell id ⟨name, .running me none⟩) :=
  claim_eq h

theorem claim_of_started {worker : EvaluationId} {work : Suspension}
    (h : store.cells[id]? = some ⟨name, .started worker work⟩) (hne : worker ≠ me) :
    store.claim me id =
      (.run work (some worker), store.replaceCell id ⟨name, .running me (some worker)⟩) := by
  simp only [claim_eq h, Cell.claim, if_neg hne]

theorem claim_of_started_self {work : Suspension}
    (h : store.cells[id]? = some ⟨name, .started me work⟩) :
    store.claim me id = (.selfDependent name, store) := by
  simp only [claim_eq h, Cell.claim, if_true, replaceCell_self h]

theorem claim_of_running_self {owner : EvaluationId} {worker : Option EvaluationId}
    (h : store.cells[id]? = some ⟨name, .running owner worker⟩)
    (hme : owner = me ∨ worker = some me) :
    store.claim me id = (.selfDependent name, store) := by
  simp only [claim_eq h, Cell.claim, if_pos hme, replaceCell_self h]

theorem claim_of_running {owner : EvaluationId} {worker : Option EvaluationId}
    (h : store.cells[id]? = some ⟨name, .running owner worker⟩)
    (hme : ¬ (owner = me ∨ worker = some me)) : store.claim me id = (.wait, store) := by
  simp only [claim_eq h, Cell.claim, if_neg hme, replaceCell_self h]

theorem claim_of_settled {result : Result} (h : store.cells[id]? = some ⟨name, .settled result⟩) :
    store.claim me id = (.settled result, store) := by
  simp only [claim_eq h, Cell.claim, replaceCell_self h]

theorem claim_of_none (h : store.cells[id]? = none) : store.claim me id = (.wait, store) := by
  simp only [claim, h]

end Claim

theorem settle_eq (h : store.cells[id]? = some cell) (result : Result) :
    store.settle id result = store.replaceCell id ⟨cell.name, .settled result⟩ :=
  modifyCell_eq_replaceCell h _

/-! ## Running cells -/

/-- Some evaluation is resolving the cell. -/
def Runs (store : Store) (id : CellId) : Prop :=
  ∃ name owner worker, store.cells[id]? = some ⟨name, .running owner worker⟩

/-- A cell that is made to run is the only one. -/
theorem Runs.of_replaceCell {other : CellId} (h : (store.replaceCell id cell').Runs other) :
    id = other ∨ store.Runs other := by
  by_cases heq : id = other
  · exact .inl heq
  · rcases h with ⟨name, owner, worker, hother⟩
    rw [getElem?_replaceCell_of_ne heq] at hother
    exact .inr ⟨name, owner, worker, hother⟩

/-- A cell that is settled no longer runs, and all others do as before. -/
theorem Runs.of_settle {other : CellId} {result : Result} (hcell : store.cells[id]? = some cell)
    (h : (store.settle id result).Runs other) : id ≠ other ∧ store.Runs other := by
  rw [settle_eq hcell] at h
  have hne : id ≠ other := by
    rintro rfl
    rcases h with ⟨name, owner, worker, hother⟩
    rw [getElem?_replaceCell_self hcell] at hother
    cases hother
  exact ⟨hne, h.of_replaceCell.resolve_left hne⟩

/-- A new cell does not run. -/
theorem Runs.of_setLazy {scope : Scope} {name : String} {work : Suspension}
    (h : (store.setLazy scope name work).2.Runs id) : store.Runs id := by
  rcases h with ⟨bound, owner, worker, hcell⟩
  have hpush : (store.setLazy scope name work).2.cells =
      store.cells.push ⟨name, .pending work⟩ := rfl
  rw [hpush, Array.getElem?_push] at hcell
  split at hcell
  · cases hcell
  · exact ⟨bound, owner, worker, hcell⟩

end Store
end LazyLisp
