import LazyLisp.Proofs.Decimal.Canonical
import LazyLisp.Proofs.Machine.Operands
import LazyLisp.Proofs.Value.Equality

/-!
# Indistinct — what cannot tell equal values apart

Equal values may differ in the scale of a number or in the place of a symbol.  None of this shows in
their text, their kind or their truth, so a function that makes no other use of a value treats equal
ones alike: whatever it prints, raises or goes on with is the same.  This file defines:

* `Builtin.EqualForms` and `Builtin.EqualRows`, that forms come to equal values.

Main results:

* `Value.Equals.display_eq`: equal values have one text;
* `Entries.equal_ofList`: maps are equal however they were put together;
* `Builtin.equal_values_indistinct`: text, kind, truth and the functions that go by them.
-/

namespace LazyLisp

/-! ## Text, kind and truth -/

mutual

theorem Value.Equals.display_eq {a b : Value} : a.Equals b → a.display = b.display
  | .nil | .bool | .text | .key => rfl
  | .number h => Decimal.render_eq_iff.mpr h
  | .symbol h => h
  | .list h => congrArg (bracketed "(" ")") h.displayAll_eq
  | .vector h => congrArg (bracketed "[" "]") h.displayAll_eq
  | .map h => congrArg (bracketed "\x7b" "\x7d") h.display_eq

theorem Value.AllEqual.displayAll_eq {as bs : List Value} :
    Value.AllEqual as bs → Value.displayAll as = Value.displayAll bs
  | .nil => rfl
  | .cons hvalue hrest => by
      rw [Value.displayAll, Value.displayAll, hvalue.display_eq, hrest.displayAll_eq]

theorem Entries.AllEqual.display_eq {as bs : List (Key × Value)} :
    Entries.AllEqual as bs → Entries.display as = Entries.display bs
  | .nil => rfl
  | .cons hvalue hrest => by
      rw [Entries.display, Entries.display, hvalue.display_eq, hrest.display_eq]

end

theorem Value.Equals.kind_eq {a b : Value} (h : a.Equals b) : a.kind = b.kind := by
  cases h <;> rfl

theorem Value.Equals.isTruthy_eq {a b : Value} (h : a.Equals b) : a.isTruthy = b.isTruthy := by
  cases h <;> rfl

theorem Value.displayAll_eq_map (items : List Value) :
    Value.displayAll items = items.map Value.display := by
  induction items with
  | nil => rfl
  | cons value rest ih => rw [Value.displayAll, ih, List.map_cons]

/-- Maps are equal if each key was stored last with equal values, however the entries were ordered. -/
theorem Entries.equal_ofList {pairs others : List (Key × Value)}
    (h : ∀ key, Option.Rel (fun v w => v.equal w = true) (pairs.reverse.lookup key)
      (others.reverse.lookup key)) :
    Entries.equal (ofList pairs) (ofList others) = true := by
  refine equal_of_lookups (ordered_ofList pairs) (ordered_ofList others) ?_
  intro key
  rw [AgreeAt, get?_ofList, get?_ofList]
  exact h key

/-! ## Calls -/

namespace Builtin

open Machine

section Calls

variable (host : Host) (me : EvaluationId) (scope : Scope) (store : Store)

/-- The forms come to equal values and leave the same store. -/
def EqualForms (form form' : Value) (store' : Store) : Prop :=
  ∃ v w : Value, v.equal w = true ∧ Evaluates host me form scope store (.ok v) store' ∧
    Evaluates host me form' scope store (.ok w) store'

/-- Each row of forms comes to values that are equal to those of the other, and leaves the same
store. -/
def EqualRows (forms forms' : List Value) (store' : Store) : Prop :=
  ∃ values values' : List Value, Value.equalAll values values' = true ∧
    EvaluatesAll host me scope forms store values store' ∧
    EvaluatesAll host me scope forms' store values' store'

/-- The form comes to a native function. -/
def ComesTo (operation : Operation) (form : Value) (store' : Store) : Prop :=
  ∃ name, Evaluates host me form scope store (.ok (.func (.native name operation))) store'

variable {host me scope store} {store₁ store₂ store' : Store} {head form form' : Value}

/-- A function that asks for its first operand is not told more than it makes use of. -/
theorem indistinct_of_next {operation : Operation} {name : String} {rest : List Value}
    (next : Value → Script Value)
    (hhead : Evaluates host me head scope store (.ok (.func (.native name operation))) store₁)
    (h : EqualForms host me scope store₁ form form' store')
    (hperform : ∀ form, operation.perform host ⟨name, head, form :: rest, scope⟩ =
      (Script.value form scope).bind next)
    (hnext : ∀ v w : Value, v.Equals w → next v = next w) :
    Indistinct host me scope store (.list (head :: form :: rest)) (.list (head :: form' :: rest)) := by
  obtain ⟨v, w, hequal, hform, hform'⟩ := h
  have hscript := path_value hform next [.trampoline none]
  rw [hnext v w (.of_equal v w hequal), ← hperform] at hscript
  have hscript' := path_value hform' next [.trampoline none]
  rw [← hperform] at hscript'
  exact .of_native hhead hscript hscript'

theorem indistinct_raise (hhead : ComesTo host me scope store .raise head store₁)
    (h : EqualForms host me scope store₁ form form' store') :
    Indistinct host me scope store (.list [head, form]) (.list [head, form']) := by
  obtain ⟨name, hhead⟩ := hhead
  exact indistinct_of_next (fun value => .fail (.thrown value.display)) hhead h (fun _ => rfl)
    fun v w hequals => by rw [hequals.display_eq]

theorem indistinct_kindOf (hhead : ComesTo host me scope store .kindOf head store₁)
    (h : EqualForms host me scope store₁ form form' store') :
    Indistinct host me scope store (.list [head, form]) (.list [head, form']) := by
  obtain ⟨name, hhead⟩ := hhead
  exact indistinct_of_next (fun value => pure (.text value.kindName)) hhead h (fun _ => rfl)
    fun v w hequals => by rw [Value.kindName, Value.kindName, hequals.kind_eq]

theorem indistinct_choose (hhead : ComesTo host me scope store .choose head store₁)
    (h : EqualForms host me scope store₁ form form' store') (branches : List Value) :
    Indistinct host me scope store (.list (head :: form :: branches))
      (.list (head :: form' :: branches)) := by
  obtain ⟨name, hhead⟩ := hhead
  -- With too few or too many branches the call fails before it looks at the first operand.
  match branches with
  | [consequent] =>
      exact indistinct_of_next (fun value =>
          if value.isTruthy then .tail consequent scope else pure .nil) hhead h (fun _ => rfl)
        fun v w hequals => by rw [hequals.isTruthy_eq]
  | [consequent, alternative] =>
      exact indistinct_of_next (fun value =>
          if value.isTruthy then .tail consequent scope else .tail alternative scope) hhead h
        (fun _ => rfl) fun v w hequals => by rw [hequals.isTruthy_eq]
  | [] => exact .of_native hhead .refl .refl
  | _ :: _ :: _ :: _ => exact .of_native hhead .refl .refl

theorem evaluates_raise {value : Value} (hhead : ComesTo host me scope store .raise head store₁)
    (hform : Evaluates host me form scope store₁ (.ok value) store') :
    Evaluates host me (.list [head, form]) scope store
      (.error { cause := .thrown value.display }) store' := by
  obtain ⟨name, hhead⟩ := hhead
  exact evaluates_native hhead (path_value hform _ _) nofun

/-- A handler is called with the text of what was thrown. -/
theorem indistinct_recover {thrower : Value}
    (hhead : ComesTo host me scope store .recover head store₁)
    (hthrower : ComesTo host me scope store₁ .raise thrower store₂)
    (h : EqualForms host me scope store₂ form form' store') (handler : Value) :
    Indistinct host me scope store (.list [head, .list [thrower, form], handler])
      (.list [head, .list [thrower, form'], handler]) := by
  obtain ⟨name, hhead⟩ := hhead
  obtain ⟨v, w, hequal, hform, hform'⟩ := h
  have hraise := evaluates_raise hthrower hform
  rw [(Value.Equals.of_equal v w hequal).display_eq] at hraise
  exact .of_native hhead (path_ask hraise _ _) (path_ask (evaluates_raise hthrower hform') _ _)

theorem indistinct_print {operands operands' : List Value}
    (hhead : ComesTo host me scope store .print head store₁)
    (h : EqualRows host me scope store₁ operands operands' store') :
    Indistinct host me scope store (.list (head :: operands)) (.list (head :: operands')) := by
  obtain ⟨name, hhead⟩ := hhead
  obtain ⟨values, values', hequal, hoperands, hoperands'⟩ := h
  have hprint := path_values hoperands
    (fun values => (Script.print (" ".intercalate (values.map Value.display))).bind fun _ => pure .nil)
    [.trampoline none]
  have htexts := (Value.AllEqual.of_equalAll values values' hequal).displayAll_eq
  rw [Value.displayAll_eq_map, Value.displayAll_eq_map] at htexts
  rw [htexts] at hprint
  exact .of_native hhead hprint (path_values hoperands' _ _)

end Calls

/-- Equal values have the same text, the same kind and the same truth.  Numbers are equal at any
scales, symbols at any places, and maps in whatever order their entries were stored.

So the functions that make use of nothing else cannot tell equal values apart: with forms in their
operands that come to equal values, `prn` prints the same line, `throw` fails with the same message and
`try` calls its handler with it, `type` gives the same name, and `if` takes the same branch. -/
theorem equal_values_indistinct :
    (∀ a b : Value, a.equal b = true →
      a.display = b.display ∧ a.kindName = b.kindName ∧ a.isTruthy = b.isTruthy) ∧
    ((∀ m n : Decimal, m.toRat = n.toRat → (Value.number m).equal (.number n) = true) ∧
      (∀ (name : String) (position position' : Option Position),
        (Value.symbol ⟨name, position⟩).equal (.symbol ⟨name, position'⟩) = true) ∧
      ∀ pairs others : List (Key × Value),
        (∀ key, Option.Rel (fun v w => v.equal w = true) (pairs.reverse.lookup key)
          (others.reverse.lookup key)) →
        (Value.map (Entries.ofList pairs)).equal (.map (Entries.ofList others)) = true) ∧
    (table.lookup "prn" = some .print ∧ table.lookup "throw" = some .raise ∧
      table.lookup "try" = some .recover ∧ table.lookup "type" = some .kindOf ∧
      table.lookup "if" = some .choose) ∧
    ∀ (host : Host) (me : EvaluationId) (scope : Scope) (head : Value) (store store₁ store' : Store),
      (∀ operands operands' : List Value, ComesTo host me scope store .print head store₁ →
        EqualRows host me scope store₁ operands operands' store' →
          Indistinct host me scope store (.list (head :: operands)) (.list (head :: operands'))) ∧
      ∀ form form' : Value,
        (∀ thrower store₂ handler, ComesTo host me scope store .recover head store₁ →
          ComesTo host me scope store₁ .raise thrower store₂ →
            EqualForms host me scope store₂ form form' store' →
              Indistinct host me scope store (.list [head, .list [thrower, form], handler])
                (.list [head, .list [thrower, form'], handler])) ∧
        (EqualForms host me scope store₁ form form' store' →
          (ComesTo host me scope store .raise head store₁ →
            Indistinct host me scope store (.list [head, form]) (.list [head, form'])) ∧
          (ComesTo host me scope store .kindOf head store₁ →
            Indistinct host me scope store (.list [head, form]) (.list [head, form'])) ∧
          (ComesTo host me scope store .choose head store₁ → ∀ branches : List Value,
            Indistinct host me scope store (.list (head :: form :: branches))
              (.list (head :: form' :: branches)))) := by
  refine ⟨?_, ⟨?_, ?_, ?_⟩, ⟨by decide, by decide, by decide, by decide, by decide⟩, ?_⟩
  · intro a b h
    have hequals := Value.Equals.of_equal a b h
    exact ⟨hequals.display_eq, congrArg Kind.name hequals.kind_eq, hequals.isTruthy_eq⟩
  · intro m n h
    exact (Decimal.equal_iff m n).mpr h
  · intro name position position'
    exact beq_self_eq_true name
  · intro pairs others h
    exact Entries.equal_ofList h
  · intro host me scope head store store₁ store'
    refine ⟨fun _ _ => indistinct_print, fun form form' => ⟨?_, fun h => ⟨?_, ?_, ?_⟩⟩⟩
    · intro thrower store₂ handler hhead hthrower h
      exact indistinct_recover hhead hthrower h handler
    · intro hhead
      exact indistinct_raise hhead h
    · intro hhead
      exact indistinct_kindOf hhead h
    · intro hhead branches
      exact indistinct_choose hhead h branches

/-- The number one in two spellings, in a map with its entries in two orders, and as an operand. -/
theorem equal_values_indistinct_scales :
    (Value.map (Entries.ofList [(⟨"a"⟩, .int 1), (⟨"b"⟩, .nil)])).display =
      (Value.map (Entries.ofList [(⟨"b"⟩, .nil), (⟨"a"⟩, .number ⟨100, 2⟩)])).display ∧
    Indistinct Host.empty mainEvaluation .base Store.base
      (.list [.symbol (.unplaced "prn"), .int 1, .text "x"])
      (.list [.symbol (.unplaced "prn"), .number ⟨100, 2⟩, .text "x"]) ∧
    Indistinct Host.empty mainEvaluation .base Store.base
      (.list [.symbol (.unplaced "try"), .list [.symbol (.unplaced "throw"), .int 1],
        .symbol (.unplaced "prn")])
      (.list [.symbol (.unplaced "try"), .list [.symbol (.unplaced "throw"), .number ⟨100, 2⟩],
        .symbol (.unplaced "prn")]) ∧
    Indistinct Host.empty mainEvaluation .base Store.base
      (.list [.symbol (.unplaced "if"), .int 1, .text "yes"])
      (.list [.symbol (.unplaced "if"), .number ⟨100, 2⟩, .text "yes"]) := by
  obtain ⟨hshown, ⟨-, -, hmaps⟩, -, hcalls⟩ := equal_values_indistinct
  have hcomes : ∀ name operation, Store.base.get .base name = .ok (.func (.native name operation)) →
      ComesTo Host.empty mainEvaluation .base Store.base operation (.symbol (.unplaced name))
        Store.base :=
    fun name operation h => ⟨name, evaluates_symbol h⟩
  have hforms : EqualForms Host.empty mainEvaluation .base Store.base (.int 1) (.number ⟨100, 2⟩)
      Store.base :=
    ⟨_, _, by decide, ⟨20, rfl⟩, ⟨20, rfl⟩⟩
  have hrows : EqualRows Host.empty mainEvaluation .base Store.base [.int 1, .text "x"]
      [.number ⟨100, 2⟩, .text "x"] Store.base :=
    ⟨[.int 1, .text "x"], [.number ⟨100, 2⟩, .text "x"], by decide,
      .cons ⟨20, rfl⟩ (.cons ⟨20, rfl⟩ .nil), .cons ⟨20, rfl⟩ (.cons ⟨20, rfl⟩ .nil)⟩
  have hrecover := ((hcalls Host.empty mainEvaluation .base (.symbol (.unplaced "try")) Store.base
    Store.base Store.base).2 _ _).1 (.symbol (.unplaced "throw")) Store.base
    (.symbol (.unplaced "prn")) (hcomes _ _ rfl) (hcomes _ _ rfl) hforms
  have hchoose := (((hcalls Host.empty mainEvaluation .base (.symbol (.unplaced "if")) Store.base
    Store.base Store.base).2 _ _).2 hforms).2.2 (hcomes _ _ rfl) [.text "yes"]
  refine ⟨(hshown _ _ (hmaps _ _ fun key => ?_)).1, (hcalls _ _ _ _ _ _ _).1 _ _ (hcomes _ _ rfl) hrows,
    hrecover, hchoose⟩
  by_cases ha : key = ⟨"a"⟩
  · subst ha
    exact .some (by decide)
  · by_cases hb : key = ⟨"b"⟩
    · subst hb
      exact .some rfl
    · simp only [List.reverse_cons, List.reverse_nil, List.nil_append, List.singleton_append,
        List.lookup_cons, beq_eq_false_iff_ne.mpr ha, beq_eq_false_iff_ne.mpr hb, List.lookup_nil]
      exact .none

end Builtin
end LazyLisp
