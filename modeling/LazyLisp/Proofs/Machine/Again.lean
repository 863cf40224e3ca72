import LazyLisp.Proofs.Machine.Reaches
import LazyLisp.Proofs.Store.Lifecycle

/-!
# Again — what a name comes to a second time

A name may be bound to work that has an effect.  The first evaluation of the name does the work, and
settles the cell behind the binding; from then on the name stands for the outcome, as long as it keeps
its binding.  This file defines:

* `Store.Upholds`, that what cells have come to is the same in a later store;
* `Store.Plain`, the bindings that hand out no suspended work but that of their own cell;
* `Store.Holds`, that a binding has come to a value.

Main results: `Direct.upholds_of_outcome`, that whatever is evaluated upholds what cells have come to,
and `Machine.names_again`, that a symbol that has come to a function stands for it from then on.
-/

namespace LazyLisp

namespace Store

variable {store store' store'' : Store} {binding : Binding} {value : Value}

/-! ## Stores that uphold outcomes -/

/-- Settled cells are as they were, and running cells run on. -/
structure Upholds (store store' : Store) : Prop where
  settled : ∀ (cell : CellId) (name : String) (result : Result),
    store.cells[cell]? = some ⟨name, .settled result⟩ →
      store'.cells[cell]? = some ⟨name, .settled result⟩
  runs : ∀ cell, store.Runs cell → store'.Runs cell

namespace Upholds

theorem refl (store : Store) : store.Upholds store :=
  ⟨fun _ _ _ h => h, fun _ h => h⟩

theorem trans (h : store.Upholds store') (h' : store'.Upholds store'') : store.Upholds store'' :=
  ⟨fun cell name result hcell => h'.settled cell name result (h.settled cell name result hcell),
    fun cell hcell => h'.runs cell (h.runs cell hcell)⟩

theorem answer (store : Store) (request : Request) : store.Upholds (store.answer request).2 :=
  ⟨fun _ _ _ hcell => (ages_answer store request).settled hcell, fun _ h => h.answer request⟩

/-- The cells that a demand finds, its work, and the outcome that the cell is settled with. -/
theorem resolve {me : EvaluationId} {cell : CellId} {work : Suspension}
    {worker : Option EvaluationId} (hclaim : store.claim me cell = (.run work worker, store'))
    (h : store'.Upholds store'') (result : Result) :
    store''.Runs cell ∧ store.Upholds (store''.settle cell result) := by
  obtain ⟨hruns, hbefore, hothers⟩ := Runs.claim hclaim
  have hcell := h.runs cell hruns
  refine ⟨hcell, fun other name outcome hother => ?_, fun other hother => ?_⟩
  · have hclaimed := (ages_claim hclaim).settled hother
    exact (ages_settle hcell result).settled (h.settled other name outcome hclaimed)
  · -- The cell did not run before, so it is not one of the others.
    have hne : cell ≠ other := by
      rintro rfl
      exact hbefore hother
    exact (h.runs other (hothers other hother)).settle hne result

end Upholds

/-! ## Bindings that have come to a value -/

/-- Neither is suspended work bound as a value, nor has the cell been settled with any. -/
def Plain (store : Store) : Binding → Prop
  | .value value => ∀ work, value ≠ .suspended work
  | .lazy cell => ∀ name work, store.cells[cell]? ≠ some ⟨name, .settled (.ok (.suspended work))⟩

/-- The binding has come to the value. -/
def Holds (store : Store) (value : Value) : Binding → Prop
  | .value bound => bound = value
  | .lazy cell => ∃ name, store.cells[cell]? = some ⟨name, .settled (.ok value)⟩

theorem Holds.read (h : store.Holds value binding) : store.read binding = value := by
  cases binding with
  | value bound => exact h
  | lazy cell =>
      obtain ⟨name, hcell⟩ := h
      rw [Store.read, hcell]
      rfl

theorem Holds.upheld (h : store.Holds value binding) (hupholds : store.Upholds store') :
    store'.Holds value binding := by
  cases binding with
  | value bound => exact h
  | lazy cell =>
      obtain ⟨name, hcell⟩ := h
      exact ⟨name, hupholds.settled cell name _ hcell⟩

/-- What is read of a plain binding is what it has come to, or the demand for its cell. -/
theorem Plain.holds_or (h : store.Plain binding) :
    store.Holds (store.read binding) binding ∧ (∀ work, store.read binding ≠ .suspended work) ∨
      ∃ cell, binding = .lazy cell ∧ store.read binding = .suspended (.binding cell) := by
  cases binding with
  | value bound => exact .inl ⟨rfl, h⟩
  | lazy cell =>
      cases hcell : store.cells[cell]? with
      | none =>
          refine .inr ⟨cell, rfl, ?_⟩
          rw [Store.read, hcell]
          rfl
      | some content =>
          obtain ⟨name, _ | _ | _ | ⟨_ | value⟩⟩ := content
          case settled.ok =>
            have hread : store.read (.lazy cell) = value := by
              rw [Store.read, hcell]
              rfl
            rw [hread]
            refine .inl ⟨⟨name, hcell⟩, ?_⟩
            rintro work rfl
            exact h name work hcell
          all_goals
            refine .inr ⟨cell, rfl, ?_⟩
            rw [Store.read, hcell]
            rfl

end Store

namespace Direct

open Machine

variable {host : Host} {me : EvaluationId} {caller : Option CallSite} {control : Control}
  {fuel : Nat} {store store' : Store} {result : Result}

/-! ## Evaluations -/

/-- Whatever is evaluated upholds what cells have come to. -/
theorem upholds_of_outcome
    (h : outcome Discipline.need.traced host fuel me caller control store = some (result, store')) :
    store.Upholds store' := by
  induction fuel generalizing me caller control store result store' with
  | zero => cases h
  | succ fuel ih =>
      rcases control with script | work
      · rcases script with (failure | value) | ⟨request, next⟩ | ⟨form, scope, next⟩
        · cases h
          exact .refl store
        · cases value with
          | suspended work => exact ih h
          | _ =>
              cases h
              exact .refl store
        · exact (Store.Upholds.answer store request).trans (ih h)
        · rw [outcome] at h
          split at h
          · next hfirst => exact (ih hfirst).trans (ih h)
          · cases h
      · cases work with
        | form form scope => exact ih h
        | call func head operands scope => exact ih h
        | given site result => exact ih h
        | binding cell =>
            rw [outcome, governs_need.claim cell [] me store trivial] at h
            split at h
            · next hclaim =>
                rw [Store.claim_store hclaim fun _ _ heq => by cases heq] at h
                exact ih h
            · next hclaim =>
                split at h
                · next hwork =>
                    obtain ⟨-, hupholds⟩ := Store.Upholds.resolve hclaim (ih hwork) _
                    exact hupholds.trans (ih h)
                · cases h
            · next hclaim =>
                rw [Store.claim_store hclaim fun _ _ heq => by cases heq] at h
                exact ih h
            · cases h

/-- What comes out in the end is what came out before, and nothing happens in between. -/
theorem eq_of_outcome_done {value : Value} (hresult : ∀ work, result ≠ .ok (.suspended work))
    (h : outcome Discipline.need.traced host fuel me caller (.run (.done result)) store =
      some (.ok value, store')) : result = .ok value ∧ store' = store := by
  cases fuel with
  | zero => cases h
  | succ fuel =>
      rcases result with failure | found
      · cases h
      · cases found with
        | suspended work => exact (hresult work rfl).elim
        | _ =>
            cases h
            exact ⟨rfl, rfl⟩

/-- A cell whose demand has come to a value is settled with it. -/
theorem holds_of_outcome {cell : CellId} {value : Value} (hplain : store.Plain (.lazy cell))
    (h : outcome Discipline.need.traced host fuel me caller (.resume (.binding cell)) store =
      some (.ok value, store')) : store'.Holds value (.lazy cell) := by
  cases fuel with
  | zero => cases h
  | succ fuel =>
      rw [outcome, governs_need.claim cell [] me store trivial] at h
      split at h
      · next result claimed hclaim =>
          obtain ⟨name, hcell⟩ := Store.claim_settled hclaim
          have hresult : ∀ work, result ≠ .ok (.suspended work) := by
            rintro work rfl
            exact hplain name work hcell
          obtain ⟨rfl, rfl⟩ := eq_of_outcome_done hresult h
          rw [Store.claim_store hclaim fun _ _ heq => by cases heq]
          exact ⟨name, hcell⟩
      · next hclaim =>
          split at h
          · next first later hwork =>
              have hfirst : ∀ work, first ≠ .ok (.suspended work) := by
                rintro work rfl
                exact ne_suspended_of_outcome hwork work rfl
              obtain ⟨rfl, rfl⟩ := eq_of_outcome_done hfirst h
              obtain ⟨⟨name, owner, helper, hcell⟩, -⟩ :=
                Store.Upholds.resolve hclaim (upholds_of_outcome hwork) (.ok value)
              exact ⟨name, Store.getElem?_settle hcell (.ok value)⟩
          · cases h
      · obtain ⟨heq, -⟩ := eq_of_outcome_done (fun _ heq => by cases heq) h
        cases heq
      · cases h

end Direct

namespace Machine

variable {host : Host} {me : EvaluationId} {form : Value} {scope : Scope}
  {store store' later : Store} {result : Result} {func : Func}

theorem Evaluates.upholds (h : Evaluates host me form scope store result store') :
    store.Upholds store' := by
  obtain ⟨fuel, hfuel⟩ := h.outcome
  exact Direct.upholds_of_outcome hfuel

/-! ## Names -/

theorem evaluates_of_names {head : Value} (h : store.Names scope head func) :
    Evaluates host me head scope store (.ok (.func func)) store := by
  rcases h with rfl | ⟨symbol, rfl, hget⟩
  · exact evaluates_func func
  · exact evaluates_symbol hget

/-- A symbol that has come to a value is bound. -/
theorem owner_of_evaluates {symbol : Symbol} {value : Value}
    (h : Evaluates host me (.symbol symbol) scope store (.ok value) store') :
    ∃ frame binding, store.owner? scope symbol.name = some (frame, binding) := by
  cases howner : store.owner? scope symbol.name with
  | some owner => exact ⟨owner.1, owner.2, rfl⟩
  | none =>
      have hget : store.get scope symbol.name = .error (Store.unresolved symbol.name) := by
        rw [Store.get_by_owner, howner]
      have hfails : Evaluates host me (.symbol symbol) scope store
          (.error (Store.unresolved symbol.name)) store :=
        .of_path (.head ⟨trivial, step_symbol hget _⟩ (.single ⟨trivial, rfl⟩))
      cases (h.unique hfails).1

/-- The binding of a symbol that has come to a value holds that value. -/
theorem holds_of_evaluates {symbol : Symbol} {value : Value} {frame : FrameId} {binding : Binding}
    (h : Evaluates host me (.symbol symbol) scope store (.ok value) store')
    (howner : store.owner? scope symbol.name = some (frame, binding)) (hplain : store.Plain binding) :
    store'.Holds value binding := by
  have hget : store.get scope symbol.name = .ok (store.read binding) := by
    rw [Store.get_by_owner, howner]
  obtain ⟨fuel, hfuel⟩ := h.outcome
  obtain ⟨fuel, rfl⟩ : ∃ less, fuel = less + 1 := by
    cases fuel with
    | zero => cases hfuel
    | succ less => exact ⟨less, rfl⟩
  have hlookup : Direct.outcome Discipline.need.traced host fuel me none
      (.run (.done (store.get scope symbol.name))) store = some (.ok value, store') := hfuel
  rw [hget] at hlookup
  rcases hplain.holds_or with ⟨hholds, hvalue⟩ | ⟨cell, rfl, hread⟩
  · have hresult : ∀ work, (.ok (store.read binding) : Result) ≠ .ok (.suspended work) :=
      fun work heq => hvalue work (Except.ok.inj heq)
    obtain ⟨heq, rfl⟩ := Direct.eq_of_outcome_done hresult hlookup
    cases heq
    exact hholds
  · rw [hread] at hlookup
    cases fuel with
    | zero => cases hlookup
    | succ fuel => exact Direct.holds_of_outcome hplain hlookup

/-- A symbol that has come to a function stands for it from then on, as long as it keeps its
binding. -/
theorem names_again {symbol : Symbol} {frame : FrameId} {binding : Binding}
    (h : Evaluates host me (.symbol symbol) scope store (.ok (.func func)) store')
    (howner : store.owner? scope symbol.name = some (frame, binding)) (hplain : store.Plain binding)
    (hupholds : store'.Upholds later)
    (hkept : later.owner? scope symbol.name = store.owner? scope symbol.name) :
    later.Names scope (.symbol symbol) func := by
  refine .inr ⟨symbol, rfl, ?_⟩
  have hholds := (holds_of_evaluates h howner hplain).upheld hupholds
  rw [Store.get_by_owner, hkept, howner]
  exact congrArg Except.ok hholds.read

end Machine
end LazyLisp
