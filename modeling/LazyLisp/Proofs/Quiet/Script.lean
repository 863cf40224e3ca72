import LazyLisp.Proofs.Alike.Builtin

/-!
# Quiet — scripts that leave existing bindings alone

Most native functions change the store in one way only: they open a scope of their own, bind names
in it, and are done.  Nothing that was there before changes.  This file defines:

* `Script.Plain`, the scripts that only have forms evaluated;
* `Script.Fills`, the scripts that bind names in one given scope and then end;
* `Script.Quiet`, the scripts that have forms evaluated and end in a lookup, or in opening a scope
  and filling it;
* `Operation.Quiet`, the operations with quiet scripts.

Main results: `Func.quiet_enter` and `Form.quiet_step`.
-/

namespace LazyLisp
namespace Script

variable {α β : Type}

/-- The script has forms evaluated, and asks for nothing else. -/
inductive Plain : Script α → Prop where
  | done (result : Except Failure α) : Plain (.done result)
  | eval (form : Value) (scope : Scope) {next : Result → Script α} :
      (∀ result, Plain (next result)) → Plain (.eval form scope next)

/-- The script binds names in `inner`, and asks for nothing else. -/
inductive Fills (inner : Scope) : Script α → Prop where
  | done (result : Except Failure α) : Fills inner (.done result)
  | bindLazy (name : String) (work : Suspension) {next : CellId → Script α} :
      (∀ cell, Fills inner (next cell)) → Fills inner (.ask (.bindLazy inner name work) next)

/-- The script changes no binding that was there before. -/
inductive Quiet : Script Value → Prop where
  | done (result : Result) : Quiet (.done result)
  | eval (form : Value) (scope : Scope) {next : Result → Script Value} :
      (∀ result, Quiet (next result)) → Quiet (.eval form scope next)
  | lookup (scope : Scope) (name : String) : Quiet (Script.lookup scope name)
  | openScope (outer : Scope) {next : Scope → Script Value} :
      (∀ inner, Fills inner (next inner)) → Quiet (.ask (.openScope outer) next)

namespace Plain

theorem pure (a : α) : Plain (Pure.pure a : Script α) := .done _

theorem fail (cause : Cause) : Plain (Script.fail cause : Script α) := .done _

theorem value (form : Value) (scope : Scope) : Plain (Script.value form scope) :=
  .eval form scope .done

theorem attempt (form : Value) (scope : Scope) : Plain (Script.attempt form scope) :=
  .eval form scope fun _ => .done _

theorem tail (form : Value) (scope : Scope) : Plain (Script.tail form scope) := .done _

theorem bind {script : Script α} {next : α → Script β} (h : script.Plain)
    (hnext : ∀ a, (next a).Plain) : (script >>= next).Plain := by
  induction h with
  | done result =>
      cases result with
      | ok a => exact hnext a
      | error failure => exact .done _
  | eval form scope _ ih => exact .eval form scope ih

theorem map {script : Script α} (f : α → β) (h : script.Plain) : (f <$> script).Plain := by
  rw [map_eq_pure_bind]
  exact h.bind fun a => .pure (f a)

theorem mapM {f : α → Script β} (hf : ∀ a, (f a).Plain) (items : List α) :
    (items.mapM f).Plain := by
  induction items with
  | nil => exact .pure []
  | cons item rest ih =>
      rw [List.mapM_cons]
      exact (hf item).bind fun b => ih.bind fun bs => .pure (b :: bs)

theorem values (forms : List Value) (scope : Scope) : (Script.values forms scope).Plain :=
  mapM (fun form => value form scope) forms

theorem quiet {script : Script Value} (h : script.Plain) : script.Quiet := by
  induction h with
  | done result => exact .done result
  | eval form scope _ ih => exact .eval form scope ih

end Plain

theorem Quiet.bind {script : Script α} {next : α → Script Value} (h : script.Plain)
    (hnext : ∀ a, (next a).Quiet) : (script >>= next).Quiet := by
  induction h with
  | done result =>
      cases result with
      | ok a => exact hnext a
      | error failure => exact .done _
  | eval form scope _ ih => exact .eval form scope ih

theorem Fills.bind {inner : Scope} {script : Script α} {next : α → Script β}
    (h : Fills inner script) (hnext : ∀ a, Fills inner (next a)) :
    Fills inner (script >>= next) := by
  induction h with
  | done result =>
      cases result with
      | ok a => exact hnext a
      | error failure => exact .done _
  | bindLazy name work _ ih => exact .bindLazy name work ih

end Script

open Script

/-! ## Calls -/

namespace Call

variable {α : Type} (call : Call)

theorem plain_arityMismatch (expected : Arity) :
    (call.arityMismatch expected : Script α).Plain := .done _

theorem plain_typeMismatch (expected : String) (got : Value) :
    (call.typeMismatch expected got : Script α).Plain := .done _

theorem plain_invalidArgument (reason : String) :
    (call.invalidArgument reason : Script α).Plain := .done _

theorem plain_value (operand : Value) : (call.value operand).Plain := .value _ _

theorem plain_tail (operand : Value) : (call.tail operand).Plain := .tail _ _

theorem plain_number (operand : Value) : (call.number operand).Plain := by
  refine (call.plain_value operand).bind fun value => ?_
  cases value with
  | number n => exact .pure n
  | _ => exact call.plain_typeMismatch _ _

theorem plain_func (operand : Value) : (call.func operand).Plain := by
  refine (call.plain_value operand).bind fun value => ?_
  cases value with
  | func func => exact .pure func
  | _ => exact call.plain_typeMismatch _ _

theorem plain_single : call.single.Plain := by
  rw [Call.single]
  split
  · exact call.plain_value _
  · exact call.plain_arityMismatch _

theorem plain_elements (value : Value) : (call.elements value).Plain := by
  rw [Call.elements]
  split
  · exact .pure _
  · exact call.plain_typeMismatch _ _

end Call

/-! ## Native functions -/

namespace Builtin

variable (call : Call)

theorem plain_choose : (choose call).Plain := by
  rw [choose]
  split
  · refine (call.plain_value _).bind fun value => ?_
    split
    · exact call.plain_tail _
    · exact .pure _
  · refine (call.plain_value _).bind fun value => ?_
    split
    · exact call.plain_tail _
    · exact call.plain_tail _
  · exact call.plain_arityMismatch _

theorem plain_inOrder : (inOrder call).Plain := by
  have hforms : ∀ forms, (sequenceOf call forms).Plain := by
    intro forms
    fun_induction sequenceOf call forms with
    | case1 => exact .pure _
    | case2 last => exact call.plain_tail last
    | case3 form rest hrest ih => exact (call.plain_value form).bind fun _ => ih
  exact hforms call.operands

theorem plain_firstOf (stop : Value → Bool) (empty : Value) (forms : List Value) :
    (firstOf stop empty call forms).Plain := by
  fun_induction firstOf stop empty call forms with
  | case1 => exact .pure _
  | case2 last => exact call.plain_tail last
  | case3 form rest hrest ih =>
      refine (call.plain_value form).bind fun value => ?_
      split
      · exact .pure _
      · exact ih

theorem plain_raise : (raise call).Plain :=
  call.plain_single.bind fun _ => .fail _

theorem plain_recover : (recover call).Plain := by
  rw [recover]
  split
  · refine Plain.bind (.attempt _ _) fun outcome => ?_
    split
    · exact .pure _
    · refine Plain.bind (.attempt _ _) fun answer => ?_
      split
      · exact .done _
      · exact call.plain_tail _
      · exact call.plain_typeMismatch _ _
  · exact call.plain_arityMismatch _

theorem fills_bindPairs (inner : Scope) (pairs : List Value) :
    Fills inner (bindPairs call inner pairs) := by
  fun_induction bindPairs call inner pairs with
  | case1 name form rest ih =>
      cases name with
      | symbol symbol => exact .bindLazy symbol.name (.form form inner) fun _ => ih
      | _ => exact .done _
  | case2 => exact .done _

theorem quiet_bindLocals : (bindLocals call).Quiet := by
  rw [bindLocals]
  split
  · refine .bind (call.plain_elements _) fun pairs => ?_
    split
    · exact (call.plain_invalidArgument _).quiet
    -- The scope is new, and nothing else is bound from here on.
    · exact .openScope _ fun inner => (fills_bindPairs call inner pairs).bind fun _ => .done _
  · exact (call.plain_arityMismatch _).quiet

theorem plain_lambda : (lambda call).Plain := by
  have hparameter : ∀ item, (parameter call item).Plain := by
    intro item
    cases item with
    | symbol symbol => exact .pure symbol
    | _ => exact call.plain_typeMismatch _ _
  rw [lambda]
  split
  · refine Plain.map _ ?_
    rw [makeClosure]
    split
    · exact (Plain.mapM hparameter _).bind fun _ => .pure _
    · exact call.plain_typeMismatch _ _
  · exact call.plain_arityMismatch _

theorem fills_bindParams (inner caller : Scope) (pairs : List (Symbol × Value)) :
    Fills inner (bindParams inner caller pairs) := by
  induction pairs with
  | nil => exact .done _
  | cons pair rest ih => exact .bindLazy pair.1.name (.form pair.2 caller) fun _ => ih

theorem quiet_enterClosure (name : String) (params : List Symbol) (body : Value) (scope : Scope)
    (operands : List Value) (caller : Scope) :
    (enterClosure name params body scope operands caller).Quiet := by
  rw [enterClosure]
  split
  · exact .openScope scope fun inner => (fills_bindParams inner caller _).bind fun _ => .done _
  · exact .done _

theorem plain_map : (map call).Plain := by
  rw [map]
  split
  · refine (call.plain_func _).bind fun func => (call.plain_value _).bind fun value => ?_
    exact (call.plain_elements value).bind fun items => call.plain_tail _
  · exact call.plain_arityMismatch _

theorem plain_apply : (apply call).Plain := by
  rw [apply]
  split
  · refine (call.plain_func _).bind fun func => (call.plain_value _).bind fun value => ?_
    exact (call.plain_elements value).bind fun items => call.plain_tail _
  · exact call.plain_arityMismatch _

theorem plain_numbers : (numbers call).Plain :=
  .mapM call.plain_number call.operands

theorem plain_divide : (divide call).Plain := by
  have hdivide : ∀ divisors dividend, (divideBy dividend divisors).Plain := by
    intro divisors
    induction divisors with
    | nil => exact fun _ => .pure _
    | cons divisor rest ih =>
        intro dividend
        rw [divideBy]
        split
        · exact ih _
        · exact .fail _
  exact (plain_numbers call).bind fun _ => (hdivide _ _).map _

theorem plain_quotRem : (quotRem call).Plain := by
  rw [quotRem]
  split
  · refine (call.plain_number _).bind fun a => (call.plain_number _).bind fun b => ?_
    refine (call.plain_number _).bind fun places => ?_
    split
    · exact .fail _
    · split
      · exact .pure _
      · exact call.plain_invalidArgument _
  · exact call.plain_arityMismatch _

theorem plain_compare (comparison : Comparison) : (compare comparison call).Plain := by
  rw [compare.eq_def]
  split
  · exact (call.plain_number _).bind fun a => (call.plain_number _).bind fun b => .pure _
  · exact call.plain_arityMismatch _

theorem plain_equal : (equal call).Plain := by
  have hforms : ∀ first forms, (allEqual call first forms).Plain := by
    intro first forms
    induction forms with
    | nil => exact .pure _
    | cons form rest ih =>
        refine (call.plain_value form).bind fun value => ?_
        split
        · exact ih
        · exact .pure _
  rw [equal]
  split
  · exact (call.plain_value _).bind fun value => hforms value _
  · exact call.plain_arityMismatch _

theorem plain_sizeOfOperand : (sizeOfOperand call).Plain := by
  refine call.plain_single.bind fun value => ?_
  cases value with
  | list items => exact .pure _
  | vector items => exact .pure _
  | map entries => exact .pure _
  | _ => exact call.plain_typeMismatch _ _

theorem plain_get : (get call).Plain := by
  rw [get]
  split
  · refine (call.plain_value _).bind fun value => ?_
    split
    · refine (call.plain_value _).bind fun key => ?_
      split
      · exact .pure _
      · exact .pure _
      · exact call.plain_typeMismatch _ _
    · exact call.plain_typeMismatch _ _
  · exact call.plain_arityMismatch _

theorem plain_quote : (quote call).Plain := by
  rw [quote]
  split
  · exact .pure _
  · exact call.plain_arityMismatch _

theorem plain_read : (read call).Plain := by
  refine call.plain_single.bind fun value => ?_
  cases value with
  | text source =>
      dsimp only
      split
      · exact .pure _
      · exact .fail _
  | _ => exact call.plain_typeMismatch _ _

end Builtin

/-! ## All quiet operations -/

/-- The operations that change no binding and print nothing.  What functions of the host program do
is not known, so they do not count. -/
def Operation.Quiet : Operation → Prop
  | .define | .undefine | .defineFunction | .async | .wait | .print | .host _ => False
  | _ => True

theorem Operation.quiet_perform {host : Host} {operation : Operation} (h : operation.Quiet)
    (call : Call) : (operation.perform host call).Quiet := by
  cases operation with
  | choose => exact (Builtin.plain_choose call).quiet
  | inOrder => exact (Builtin.plain_inOrder call).quiet
  | bindLocals => exact Builtin.quiet_bindLocals call
  | conjoin => exact (Builtin.plain_firstOf call _ _ _).quiet
  | disjoin => exact (Builtin.plain_firstOf call _ _ _).quiet
  | raise => exact (Builtin.plain_raise call).quiet
  | recover => exact (Builtin.plain_recover call).quiet
  | lambda => exact (Builtin.plain_lambda call).quiet
  | add => exact .bind (Builtin.plain_numbers call) fun _ => .done _
  | subtract => exact .bind (Builtin.plain_numbers call) fun _ => .done _
  | multiply => exact .bind (Builtin.plain_numbers call) fun _ => .done _
  | quotient => exact .bind (Builtin.plain_quotRem call) fun _ => .done _
  | remainder => exact .bind (Builtin.plain_quotRem call) fun _ => .done _
  | divide => exact (Builtin.plain_divide call).quiet
  | compare comparison => exact (Builtin.plain_compare call comparison).quiet
  | test predicate => exact .bind call.plain_single fun _ => .done _
  | kindOf => exact .bind call.plain_single fun _ => .done _
  | equal => exact (Builtin.plain_equal call).quiet
  | count => exact .bind (Builtin.plain_sizeOfOperand call) fun _ => .done _
  | isEmpty => exact .bind (Builtin.plain_sizeOfOperand call) fun _ => .done _
  | get => exact (Builtin.plain_get call).quiet
  | list => exact .bind (.values _ _) fun _ => .done _
  | map => exact (Builtin.plain_map call).quiet
  | apply => exact (Builtin.plain_apply call).quiet
  | quote => exact (Builtin.plain_quote call).quiet
  | evaluate => exact .bind call.plain_single fun _ => .done _
  | read => exact (Builtin.plain_read call).quiet
  -- These are not quiet.
  | define | undefine | defineFunction | async | wait | print | host _ => exact h.elim

/-- Traces may differ, data holds no suspended work, and all native functions are quiet. -/
def Likeness.quiet : Likeness where
  places := Eq
  traces _ _ := True
  thunks := False
  operations := Operation.Quiet
  places_equivalence := Likeness.equal_places
  traces_equivalence := Likeness.any_traces

theorem Host.respects_quiet (host : Host) : host.Respects .quiet :=
  fun _ hoperation => hoperation.elim

/-- Results of quiet evaluation are never suspended. -/
theorem Result.Alike.ne_suspended {link : Link} {result result' : Result}
    (h : Result.Alike .quiet link result result') (work : Suspension) :
    result ≠ .ok (.suspended work) := by
  rintro rfl
  cases h with
  | ok hvalue =>
      cases hvalue with
      | suspended hthunks _ => exact hthunks

theorem Func.quiet_enter {host : Host} {link : Link} {func func' : Func}
    (h : func.Alike .quiet link func') (head : Value) (operands : List Value) (scope : Scope) :
    (func.enter host head operands scope).Quiet := by
  cases h with
  | native hoperation => exact Operation.quiet_perform hoperation _
  | closure _ _ _ => exact Builtin.quiet_enterClosure _ _ _ _ _ _

theorem Form.quiet_step (form : Value) (scope : Scope) : (Form.step form scope).Quiet := by
  have hentries : ∀ entries : List (Key × Value), (entries.mapM fun entry => do
      let value ← Script.value entry.2 scope
      pure (entry.1, value) : Script (List (Key × Value))).Plain := fun entries =>
    .mapM (fun entry => Plain.bind (.value _ _) fun _ => .pure _) entries
  cases form with
  | symbol symbol => exact .lookup scope symbol.name
  | list items =>
      cases items with
      | nil => exact .done _
      | cons head operands =>
          refine .bind (.value head scope) fun value => ?_
          cases value with
          | func func => exact .done _
          | _ => exact .bind (.values operands scope) fun _ => .done _
  | vector items => exact .bind (.values items scope) fun _ => .done _
  | map entries => exact .bind (hentries entries) fun _ => .done _
  | _ => exact .done _

end LazyLisp
