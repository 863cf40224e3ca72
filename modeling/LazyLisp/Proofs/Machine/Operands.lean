import LazyLisp.Proofs.Machine.Reaches

/-!
# Operands — what native functions make of the values of their operands

A native function asks for the values of its operands one after the other and ends with a result, or
leaves a form in its place.  Where the values of the operands are known, the run of a call is known as
far as that.  This file defines:

* `Machine.EvaluatesAll`, that forms come to values one after the other;
* `Machine.Indistinct`, that two forms come to the same end.

Main results:

* `path_native`, from a call of a native function to its script;
* `path_value`, `path_values` and `path_values_append`, past operands that a script asks for;
* `evaluates_native`, what a call comes to, and `Indistinct.of_path`, when two calls come to the same.
-/

namespace LazyLisp
namespace Machine

variable {host : Host} {me : EvaluationId} {scope : Scope} {store store₁ store' : Store}

/-- Evaluated one after the other, the forms come to the values. -/
inductive EvaluatesAll (host : Host) (me : EvaluationId) (scope : Scope) :
    List Value → Store → List Value → Store → Prop where
  | nil {store : Store} : EvaluatesAll host me scope [] store [] store
  | cons {form value : Value} {forms values : List Value} {store store₁ store' : Store} :
      Evaluates host me form scope store (.ok value) store₁ →
        EvaluatesAll host me scope forms store₁ values store' →
          EvaluatesAll host me scope (form :: forms) store (value :: values) store'

/-! ## Operands that a script asks for -/

section Scripts

variable {form value : Value}

theorem path_value (h : Evaluates host me form scope store (.ok value) store')
    (next : Value → Script Value) (stack : List Pending) :
    Path host anyState ⟨.run ((Script.value form scope).bind next), stack, me, store⟩
      ⟨.run (next value), stack, me, store'⟩ :=
  path_ask h (fun result => (Script.done result).bind next) stack

/-- The values of more forms are the value of the first one and those of the others. -/
theorem bind_values_cons (form : Value) (forms : List Value) (next : List Value → Script Value) :
    (Script.values (form :: forms) scope).bind next =
      (Script.value form scope).bind fun first =>
        (Script.values forms scope).bind fun others => next (first :: others) := by
  rw [Script.values, List.mapM_cons]
  exact (Script.bind_assoc _ _ _).trans
    (congrArg _ (funext fun first => Script.bind_assoc _ _ _))

/-- A script that has the values of the first forms goes on with the others. -/
theorem path_values_append {forms values : List Value}
    (h : EvaluatesAll host me scope forms store values store') (rest : List Value)
    (next : List Value → Script Value) (stack : List Pending) :
    Path host anyState
      ⟨.run ((Script.values (forms ++ rest) scope).bind next), stack, me, store⟩
      ⟨.run ((Script.values rest scope).bind fun others => next (values ++ others)), stack, me,
        store'⟩ := by
  induction h generalizing next with
  | nil => exact .refl
  | cons hform _ ih =>
      rw [List.cons_append, bind_values_cons]
      exact (path_value hform _ stack).trans (ih _)

theorem path_values {forms values : List Value}
    (h : EvaluatesAll host me scope forms store values store')
    (next : List Value → Script Value) (stack : List Pending) :
    Path host anyState ⟨.run ((Script.values forms scope).bind next), stack, me, store⟩
      ⟨.run (next values), stack, me, store'⟩ := by
  have hpath := path_values_append h [] next stack
  rw [List.append_nil] at hpath
  exact values.append_nil ▸ hpath

end Scripts

/-! ## Calls -/

section Calls

variable {head : Value} {name : String} {operation : Operation} {operands : List Value}

/-- A call of a native function comes down to its script. -/
theorem path_native
    (h : Evaluates host me head scope store (.ok (.func (.native name operation))) store₁)
    (operands : List Value) (site : Option CallSite) (stack : List Pending) :
    Path host anyState
      ⟨.run (Form.step (.list (head :: operands)) scope), .trampoline site :: stack, me, store⟩
      ⟨.run (operation.perform host ⟨name, head, operands, scope⟩), .trampoline site :: stack, me,
        store₁⟩ :=
  (path_call h operands site stack).tail ⟨trivial, rfl⟩

/-- A call comes to the result of the script. -/
theorem evaluates_native {result : Result}
    (h : Evaluates host me head scope store (.ok (.func (.native name operation))) store₁)
    (hscript : Path host anyState
      ⟨.run (operation.perform host ⟨name, head, operands, scope⟩), [.trampoline none], me, store₁⟩
      ⟨.run (.done result), [.trampoline none], me, store'⟩)
    (hresult : ∀ work, result ≠ .ok (.suspended work)) :
    Evaluates host me (.list (head :: operands)) scope store result store' := by
  have hlast : step host ⟨.run (.done result), [.trampoline none], me, store'⟩ =
      .next ⟨.run (.done result), [], me, store'⟩ := by
    rcases result with failure | value
    · rfl
    · cases value with
      | suspended work => exact absurd rfl (hresult work)
      | _ => rfl
  exact .of_path (((path_native h operands none []).trans hscript).tail ⟨trivial, hlast⟩)

end Calls

/-! ## Calls that come to the same -/

theorem Path.reaches {state state' : State} (h : Path host anyState state state') :
    ∃ steps, Reaches host steps state state' := by
  induction h using Relation.ReflTransGen.head_induction_on with
  | refl => exact ⟨0, .refl _⟩
  | head hleads _ ih =>
      obtain ⟨steps, hreaches⟩ := ih
      exact ⟨steps + 1, .head hleads.2 hreaches⟩

/-- Evaluated from the same store, the two forms come to the same end: the same value or failure, the
same text printed, the same bindings and cells. -/
def Indistinct (host : Host) (me : EvaluationId) (scope : Scope) (store : Store)
    (form form' : Value) : Prop :=
  ∀ outcome : Outcome, outcome.Ends →
    ((∃ fuel, run host fuel ⟨.run (Form.step form scope), [.trampoline none], me, store⟩ = outcome) ↔
      ∃ fuel, run host fuel ⟨.run (Form.step form' scope), [.trampoline none], me, store⟩ = outcome)

/-- Forms that come down to the same state are indistinct. -/
theorem Indistinct.of_path {form form' : Value} {middle : State}
    (h : Path host anyState ⟨.run (Form.step form scope), [.trampoline none], me, store⟩ middle)
    (h' : Path host anyState ⟨.run (Form.step form' scope), [.trampoline none], me, store⟩ middle) :
    Indistinct host me scope store form form' := by
  obtain ⟨_, hreaches⟩ := h.reaches
  obtain ⟨_, hreaches'⟩ := h'.reaches
  exact fun _ hends => (hreaches.ends_iff hends).trans (hreaches'.ends_iff hends).symm

/-- Calls of one native function are indistinct if their scripts come down to the same state. -/
theorem Indistinct.of_native {head : Value} {name : String} {operation : Operation}
    {operands operands' : List Value} {middle : State}
    (hhead : Evaluates host me head scope store (.ok (.func (.native name operation))) store₁)
    (h : Path host anyState
      ⟨.run (operation.perform host ⟨name, head, operands, scope⟩), [.trampoline none], me, store₁⟩
      middle)
    (h' : Path host anyState
      ⟨.run (operation.perform host ⟨name, head, operands', scope⟩), [.trampoline none], me, store₁⟩
      middle) :
    Indistinct host me scope store (.list (head :: operands)) (.list (head :: operands')) :=
  .of_path ((path_native hhead operands none []).trans h)
    ((path_native hhead operands' none []).trans h')

end Machine
end LazyLisp
