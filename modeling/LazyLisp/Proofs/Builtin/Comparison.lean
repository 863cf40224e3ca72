import LazyLisp.Proofs.Machine.Operands
import LazyLisp.Proofs.Value.Equality

/-!
# Comparison — what `equal?` tells

The function `equal?` compares the values of all its operands with that of the first, and stops at the
first one that differs.  Equality is a partial equivalence, so that is enough to compare each with each
other one, and no order of the values tells more than another.  This file defines
`Builtin.IsComparison`, the calls of the function.

Main results: `Builtin.path_allEqual`, the run of a comparison, and
`Builtin.equality_partial_equivalence`, equality and the function that decides it together.
-/

namespace LazyLisp
namespace Builtin

open Machine

/-- A call of the comparison whose operands come to the values, one after the other. -/
inductive IsComparison (host : Host) (me : EvaluationId) (scope : Scope) (store : Store) :
    Value → List Value → Prop where
  | call {head : Value} {name : String} {operands values : List Value} {store₁ store' : Store} :
      Evaluates host me head scope store (.ok (.func (.native name .equal))) store₁ →
        EvaluatesAll host me scope operands store₁ values store' →
          IsComparison host me scope store (.list (head :: operands)) values

/-! ## The values -/

/-- Values are equal to each other exactly if all of them are equal to the first. -/
theorem all_equal_iff {first : Value} {rest : List Value} :
    (rest.all fun value => value.equal first) = true ↔
      (first :: rest).Pairwise fun v w => v.equal w = true := by
  simp only [List.all_eq_true, List.pairwise_cons, Value.equals_iff]
  constructor
  · intro h
    refine ⟨fun value hvalue => (h value hvalue).symm, List.pairwise_of_forall_mem_list ?_⟩
    -- Two others are equal by way of the first.
    intro v hv w hw
    exact (h v hv).trans (h w hw).symm
  · rintro ⟨hfirst, -⟩ value hvalue
    exact (hfirst value hvalue).symm

/-! ## The call -/

section Calls

variable {host : Host} {me : EvaluationId} {scope : Scope} {store store' : Store}

/-- Where all operands have values, the comparison tells whether they are equal to the first, after
those of them that it takes to know. -/
theorem path_allEqual (call : Call) {forms values : List Value}
    (h : EvaluatesAll host me call.scope forms store values store') (first : Value)
    (stack : List Pending) :
    ∃ later, Path host anyState ⟨.run (allEqual call first forms), stack, me, store⟩
      ⟨.run (.done (.ok (.bool (values.all fun value => value.equal first)))), stack, me, later⟩ := by
  generalize hscope : call.scope = scope at h
  induction h with
  | nil => exact ⟨_, .refl⟩
  | @cons form value forms values store store₁ store' hform _ ih =>
      subst hscope
      have hask := path_value hform
        (fun value => if value.equal first then allEqual call first forms else pure (.bool false))
        stack
      cases hequal : value.equal first with
      | true =>
          obtain ⟨later, hlater⟩ := ih
          simp only [hequal, if_true] at hask
          simp only [List.all_cons, hequal, Bool.true_and]
          exact ⟨later, hask.trans hlater⟩
      | false =>
          simp only [hequal] at hask
          simp only [List.all_cons, hequal, Bool.false_and]
          exact ⟨store₁, hask⟩

/-- A call with at least two operands tells whether their values are equal to each other. -/
theorem evaluates_comparison {form : Value} {values : List Value} (hlength : 2 ≤ values.length)
    (h : IsComparison host me scope store form values) {answer : Bool}
    (hanswer : answer = true ↔ values.Pairwise fun v w => v.equal w = true) :
    ∃ later, Evaluates host me form scope store (.ok (.bool answer)) later := by
  rcases h with @⟨head, name, operands, values, store₁, store', hhead, hoperands⟩
  rcases hoperands with _ | @⟨first, value, forms, values, _, store₂, _, hfirst, hforms⟩
  · cases hlength
  · rcases hforms with _ | @⟨second, value', forms, values, _, store₃, _, hsecond, hforms⟩
    · simp at hlength
    · obtain ⟨later, hlater⟩ := path_allEqual ⟨name, head, first :: second :: forms, scope⟩
        (.cons hsecond hforms) value [.trampoline none]
      rw [Bool.eq_iff_iff.mpr (all_equal_iff.trans hanswer.symm)] at hlater
      exact ⟨later, evaluates_native hhead ((path_value hfirst _ _).trans hlater) nofun⟩

end Calls

/-- Equality is symmetric and transitive, and a value is equal to itself exactly if it holds no
function and nothing suspended at any depth; maps are equal if they have equally many entries and each
key of the one leads to an equal value in the other.

So the function `equal?`, called with at least two operands, answers whether the values of all of them
are equal to each other.  It gives the same answer for each order of the values, whatever forms they
come from. -/
theorem equality_partial_equivalence :
    (∀ a b : Value, a.equal b = true → b.equal a = true) ∧
    (∀ a b c : Value, a.equal b = true → b.equal c = true → a.equal c = true) ∧
    (∀ a : Value, a.equal a = true ↔
      ∀ part : Value, part.PartOf a → part.kind ≠ .func ∧ part.kind ≠ .suspension) ∧
    (∀ entries others : List (Key × Value), Entries.Ordered entries → Entries.Ordered others →
      ((Value.map entries).equal (.map others) = true ↔
        entries.length = others.length ∧ Entries.Matched entries others)) ∧
    table.lookup "equal?" = some .equal ∧
    ∀ values : List Value, 2 ≤ values.length →
      ∃ answer : Bool, (answer = true ↔ values.Pairwise fun v w => v.equal w = true) ∧
        ∀ reordered : List Value, reordered.Perm values →
          ∀ (host : Host) (me : EvaluationId) (scope : Scope) (store : Store) (form : Value),
            IsComparison host me scope store form reordered →
              ∀ result, (∃ later, Evaluates host me form scope store result later) ↔
                result = .ok (.bool answer) := by
  refine ⟨?_, ?_, ?_, ?_, by decide, ?_⟩
  · intro a b h
    exact (Value.Equals.of_equal a b h).symm.equal_eq
  · intro a b c h h'
    exact ((Value.Equals.of_equal a b h).trans (.of_equal b c h')).equal_eq
  · intro a
    exact Value.equals_iff.trans Value.equals_self_iff
  · intro entries others h h'
    exact Entries.equal_iff_matched h h'
  · intro values hlength
    refine ⟨decide (values.Pairwise fun v w => v.equal w = true), decide_eq_true_iff, ?_⟩
    intro reordered hperm host me scope store form hform result
    -- Equality is symmetric, so the order does not matter to what is compared with what.
    have hpairwise : reordered.Pairwise (fun v w => v.equal w = true) ↔
        values.Pairwise fun v w => v.equal w = true :=
      hperm.pairwise_iff fun h => (Value.Equals.of_equal _ _ h).symm.equal_eq
    have hanswer := evaluates_comparison (hperm.length_eq ▸ hlength) hform
      (decide_eq_true_iff.trans hpairwise.symm)
    constructor
    · rintro ⟨later, hresult⟩
      obtain ⟨_, hanswer⟩ := hanswer
      exact (hresult.unique hanswer).1
    · rintro rfl
      exact hanswer

/-- One map in two spellings, compared with `equal?`; and a vector that holds a function. -/
theorem equality_partial_equivalence_map :
    (Value.map [(⟨"a"⟩, .int 1), (⟨"b"⟩, .nil)]).equal
      (.map [(⟨"a"⟩, .number ⟨10, 1⟩), (⟨"b"⟩, .nil)]) = true ∧
    Entries.Matched [(⟨"a"⟩, .int 1), (⟨"b"⟩, .nil)]
      [(⟨"a"⟩, .number ⟨10, 1⟩), (⟨"b"⟩, .nil)] ∧
    (∃ later, Evaluates Host.empty mainEvaluation (.list [.symbol (.unplaced "equal?"),
      .map [(⟨"a"⟩, .number ⟨10, 1⟩), (⟨"b"⟩, .nil)], .map [(⟨"a"⟩, .int 1), (⟨"b"⟩, .nil)]])
      .base Store.base (.ok (.bool true)) later) ∧
    (Value.vector [.func (.native "type" .kindOf)]).equal
      (.vector [.func (.native "type" .kindOf)]) ≠ true := by
  obtain ⟨hsymm, -, hself, hmap, -, hcall⟩ := equality_partial_equivalence
  have hequal : (Value.map [(⟨"a"⟩, .int 1), (⟨"b"⟩, .nil)]).equal
      (.map [(⟨"a"⟩, .number ⟨10, 1⟩), (⟨"b"⟩, .nil)]) = true := by decide
  have hhead : Evaluates Host.empty mainEvaluation (.symbol (.unplaced "equal?")) .base Store.base
      (.ok (.func (.native "equal?" .equal))) Store.base := evaluates_symbol rfl
  have hoperands : EvaluatesAll Host.empty mainEvaluation .base
      [.map [(⟨"a"⟩, .number ⟨10, 1⟩), (⟨"b"⟩, .nil)], .map [(⟨"a"⟩, .int 1), (⟨"b"⟩, .nil)]] Store.base
      [Value.map [(⟨"a"⟩, .number ⟨10, 1⟩), (⟨"b"⟩, .nil)], .map [(⟨"a"⟩, .int 1), (⟨"b"⟩, .nil)]]
      Store.base :=
    .cons ⟨40, rfl⟩ (.cons ⟨40, rfl⟩ .nil)
  have hordered : ∀ value : Value, Entries.Ordered [(⟨"a"⟩, value), (⟨"b"⟩, .nil)] :=
    fun value => List.pairwise_pair.mpr (show "a" < "b" by decide)
  refine ⟨hsymm _ _ (hsymm _ _ hequal), ((hmap _ _ (hordered _) (hordered _)).mp hequal).2, ?_, ?_⟩
  · obtain ⟨answer, hanswer, hevaluates⟩ :=
      hcall [.map [(⟨"a"⟩, .int 1), (⟨"b"⟩, .nil)],
        .map [(⟨"a"⟩, .number ⟨10, 1⟩), (⟨"b"⟩, .nil)]] (by decide)
    have htrue : answer = true := hanswer.mpr (by simpa using hequal)
    exact (hevaluates _ (.swap _ _ _) _ _ _ _ _ (.call hhead hoperands) _).mpr (by rw [htrue])
  · exact fun h => absurd rfl ((hself _).mp h _ (.vector List.mem_cons_self .self)).1

end Builtin
end LazyLisp
