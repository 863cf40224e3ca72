import LazyLisp.Proofs.Direct.Trampoline

/-!
# Evaluates — forms and what they come to

A run that begins with nothing but a form comes to the form's outcome, and the same steps lead to the
same outcome on top of any stack.  This file defines `Machine.Evaluates`, that a form comes to an
outcome.

Main results:

* `Evaluates.path`: an evaluation on top of any stack;
* `Evaluates.unique`: a form comes to one outcome at most;
* `path_call`: a call of what the head comes to.
-/

namespace LazyLisp
namespace Machine

variable {host : Host} {me : EvaluationId} {form : Value} {scope : Scope} {store store' : Store}
  {result : Result}

/-- Evaluated by `me` in `store`, the form comes to `result` and leaves `store'`. -/
def Evaluates (host : Host) (me : EvaluationId) (form : Value) (scope : Scope) (store : Store)
    (result : Result) (store' : Store) : Prop :=
  ∃ fuel, run host fuel ⟨.run (Form.step form scope), [.trampoline none], me, store⟩ =
    .finished result store'

theorem Evaluates.outcome (h : Evaluates host me form scope store result store') :
    ∃ fuel, Direct.outcome Discipline.need.traced host fuel me none (.run (Form.step form scope))
      store = some (result, store') :=
  (Direct.halts_iff_outcome Direct.governs_need).mp (finished_iff_halts.mp h)

/-- An evaluation takes the same steps on top of any stack. -/
theorem Evaluates.path (h : Evaluates host me form scope store result store')
    (stack : List Pending) :
    Path host anyState ⟨.run (Form.step form scope), .trampoline none :: stack, me, store⟩
      ⟨.run (.done result), stack, me, store'⟩ := by
  obtain ⟨fuel, hfuel⟩ := h.outcome
  exact Direct.path_of_outcome Direct.governs_need hfuel stack

theorem Evaluates.of_path
    (h : Path host anyState ⟨.run (Form.step form scope), [.trampoline none], me, store⟩
      ⟨.run (.done result), [], me, store'⟩) :
    Evaluates host me form scope store result store' :=
  finished_iff_halts.mpr (Halts.of_path h (.halt trivial rfl))

theorem Evaluates.unique {other : Result} {store₁ : Store}
    (h : Evaluates host me form scope store result store')
    (hother : Evaluates host me form scope store other store₁) :
    result = other ∧ store' = store₁ := by
  obtain ⟨fuel, hfuel⟩ := h.outcome
  obtain ⟨fuel', hfuel'⟩ := hother.outcome
  exact Prod.mk.injEq _ _ _ _ ▸ Direct.outcome_unique hfuel hfuel'

/-! ## Steps that evaluate a form -/

/-- A script that asks for a form goes on with its outcome. -/
theorem path_ask (h : Evaluates host me form scope store result store')
    (next : Result → Script Value) (stack : List Pending) :
    Path host anyState ⟨.run (.eval form scope next), stack, me, store⟩
      ⟨.run (next result), stack, me, store'⟩ :=
  .head ⟨trivial, rfl⟩ ((h.path (.await next :: stack)).tail ⟨trivial, rfl⟩)

/-- A call is a call of what its head comes to. -/
theorem path_call {head : Value} {func : Func}
    (h : Evaluates host me head scope store (.ok (.func func)) store') (operands : List Value)
    (site : Option CallSite) (stack : List Pending) :
    Path host anyState
      ⟨.run (Form.step (.list (head :: operands)) scope), .trampoline site :: stack, me, store⟩
      ⟨.resume (.call func head operands scope),
        .trampoline ((func.callSite? head).or site) :: stack, me, store'⟩ :=
  (path_ask h _ (.trampoline site :: stack)).tail ⟨trivial, rfl⟩

/-! ## Forms that come to a value at once -/

/-- A function as a form comes to itself. -/
theorem evaluates_func (func : Func) : Evaluates host me (.func func) scope store
    (.ok (.func func)) store :=
  .of_path (.single ⟨trivial, rfl⟩)

/-- A symbol is looked up. -/
theorem step_symbol {symbol : Symbol} (h : store.get scope symbol.name = result)
    (stack : List Pending) :
    step host ⟨.run (Form.step (.symbol symbol) scope), stack, me, store⟩ =
      .next ⟨.run (.done result), stack, me, store⟩ := by
  subst h
  rfl

/-- A symbol that is bound to a function comes to it. -/
theorem evaluates_symbol {symbol : Symbol} {func : Func}
    (h : store.get scope symbol.name = .ok (.func func)) :
    Evaluates host me (.symbol symbol) scope store (.ok (.func func)) store :=
  .of_path (.head ⟨trivial, step_symbol h _⟩ (.single ⟨trivial, rfl⟩))

end Machine
end LazyLisp
