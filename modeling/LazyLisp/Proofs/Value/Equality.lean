import LazyLisp.Proofs.Decimal.Rational
import LazyLisp.Proofs.Value.Entries
import LazyLisp.Value.Equality
import Mathlib.Data.List.Sort

/-!
# Equality — which values are equal to which

Functions and suspended work equal nothing, so equality is no equivalence: it is one on the values
that hold neither at any depth, and no other value is equal to anything.  Maps are compared entry by
entry in the order of their keys, which comes to the same as looking each key of one up in the other,
given that both have equally many.  This file defines:

* `Value.Equals`, equality as a relation, with one rule for each kind of value;
* `Value.PartOf`, the values that are found in a value at any depth, itself included, and
  `Value.IsPassive`, the values that hold no function and nothing suspended;
* `Entries.Matched`, that the keys of one map lead to equal values in another, and
  `Entries.AgreeAt`, the keys that lead to the same in both.

Main results:

* `Value.equals_iff`: the relation is what `Value.equal` decides;
* `Value.Equals.symm` and `Value.Equals.trans`: it is a partial equivalence;
* `Value.equals_self_iff`: a value is equal to itself if no part of it is a function or suspended;
* `Entries.equal_iff_matched` and `Entries.equal_of_lookups`: equality of maps by lookups.
-/

namespace LazyLisp

/-! ## Equality as a relation -/

mutual

/-- Built alike from equal parts. -/
inductive Value.Equals : Value → Value → Prop where
  | nil : Value.Equals .nil .nil
  | bool {b : Bool} : Value.Equals (.bool b) (.bool b)
  | number {m n : Decimal} : m.toRat = n.toRat → Value.Equals (.number m) (.number n)
  | text {s : String} : Value.Equals (.text s) (.text s)
  | symbol {symbol other : Symbol} :
      symbol.name = other.name → Value.Equals (.symbol symbol) (.symbol other)
  | key {key : Key} : Value.Equals (.key key) (.key key)
  | list {items others : List Value} :
      Value.AllEqual items others → Value.Equals (.list items) (.list others)
  | vector {items others : List Value} :
      Value.AllEqual items others → Value.Equals (.vector items) (.vector others)
  | map {entries others : List (Key × Value)} :
      Entries.AllEqual entries others → Value.Equals (.map entries) (.map others)

inductive Value.AllEqual : List Value → List Value → Prop where
  | nil : Value.AllEqual [] []
  | cons {value other : Value} {rest later : List Value} :
      Value.Equals value other → Value.AllEqual rest later →
        Value.AllEqual (value :: rest) (other :: later)

inductive Entries.AllEqual : List (Key × Value) → List (Key × Value) → Prop where
  | nil : Entries.AllEqual [] []
  | cons {key : Key} {value other : Value} {rest later : List (Key × Value)} :
      Value.Equals value other → Entries.AllEqual rest later →
        Entries.AllEqual ((key, value) :: rest) ((key, other) :: later)

end

mutual

theorem Value.Equals.of_equal : (a b : Value) → a.equal b = true → a.Equals b
  -- A value of one kind is never equal to one of another, so the kind of the first is all there is
  -- to tell apart.
  | .list items, b, h => by
      cases b with
      | list others => exact .list (.of_equalAll items others h)
      | _ => cases h
  | .vector items, b, h => by
      cases b with
      | vector others => exact .vector (.of_equalAll items others h)
      | _ => cases h
  | .map entries, b, h => by
      cases b with
      | map others => exact .map (.of_equal entries others h)
      | _ => cases h
  | .number m, b, h => by
      cases b with
      | number n => exact .number ((Decimal.equal_iff m n).mp h)
      | _ => cases h
  | .symbol symbol, b, h => by
      cases b with
      | symbol other => exact .symbol (beq_iff_eq.mp h)
      | _ => cases h
  | .nil, b, h => by
      cases b with
      | nil => exact .nil
      | _ => cases h
  | .bool p, b, h => by
      cases b with
      | bool q => exact beq_iff_eq.mp h ▸ .bool
      | _ => cases h
  | .text s, b, h => by
      cases b with
      | text t => exact beq_iff_eq.mp h ▸ .text
      | _ => cases h
  | .key k, b, h => by
      cases b with
      | key l => exact beq_iff_eq.mp h ▸ .key
      | _ => cases h
  -- Nothing is equal to these.
  | .func _, b, h | .suspended _, b, h => by cases b <;> cases h

theorem Value.AllEqual.of_equalAll :
    (as bs : List Value) → Value.equalAll as bs = true → Value.AllEqual as bs
  | [], [], _ => .nil
  | a :: as, b :: bs, h => by
      rw [Value.equalAll, Bool.and_eq_true] at h
      exact .cons (.of_equal a b h.1) (.of_equalAll as bs h.2)

theorem Entries.AllEqual.of_equal :
    (as bs : List (Key × Value)) → Entries.equal as bs = true → Entries.AllEqual as bs
  | [], [], _ => .nil
  | (k, a) :: as, (l, b) :: bs, h => by
      rw [Entries.equal, Bool.and_eq_true, Bool.and_eq_true, beq_iff_eq] at h
      obtain ⟨⟨rfl, hvalue⟩, hrest⟩ := h
      exact .cons (.of_equal a b hvalue) (.of_equal as bs hrest)

end

mutual

theorem Value.Equals.equal_eq {a b : Value} : a.Equals b → a.equal b = true
  | .nil | .bool | .text | .key => by simp [Value.equal]
  | .number h => (Decimal.equal_iff _ _).mpr h
  | .symbol h => beq_iff_eq.mpr h
  | .list h | .vector h => h.equalAll_eq
  | .map h => h.equal_eq

theorem Value.AllEqual.equalAll_eq {as bs : List Value} :
    Value.AllEqual as bs → Value.equalAll as bs = true
  | .nil => rfl
  | .cons hvalue hrest => by rw [Value.equalAll, hvalue.equal_eq, hrest.equalAll_eq]; rfl

theorem Entries.AllEqual.equal_eq {as bs : List (Key × Value)} :
    Entries.AllEqual as bs → Entries.equal as bs = true
  | .nil => rfl
  | .cons hvalue hrest => by
      rw [Entries.equal, hvalue.equal_eq, hrest.equal_eq, beq_self_eq_true]
      rfl

end

/-- The relation is what the comparison decides. -/
theorem Value.equals_iff {a b : Value} : a.equal b = true ↔ a.Equals b :=
  ⟨.of_equal a b, Value.Equals.equal_eq⟩

/-! ## A partial equivalence -/

mutual

theorem Value.Equals.symm {a b : Value} : a.Equals b → b.Equals a
  | .nil => .nil
  | .bool => .bool
  | .number h => .number h.symm
  | .text => .text
  | .symbol h => .symbol h.symm
  | .key => .key
  | .list h => .list h.symm
  | .vector h => .vector h.symm
  | .map h => .map h.symm

theorem Value.AllEqual.symm {as bs : List Value} : Value.AllEqual as bs → Value.AllEqual bs as
  | .nil => .nil
  | .cons hvalue hrest => .cons hvalue.symm hrest.symm

theorem Entries.AllEqual.symm {as bs : List (Key × Value)} :
    Entries.AllEqual as bs → Entries.AllEqual bs as
  | .nil => .nil
  | .cons hvalue hrest => .cons hvalue.symm hrest.symm

end

mutual

theorem Value.Equals.trans {a b c : Value} : a.Equals b → b.Equals c → a.Equals c
  | .nil, h' => h'
  | .bool, h' => h'
  | .text, h' => h'
  | .key, h' => h'
  | .number h, .number h' => .number (h.trans h')
  | .symbol h, .symbol h' => .symbol (h.trans h')
  | .list h, .list h' => .list (h.trans h')
  | .vector h, .vector h' => .vector (h.trans h')
  | .map h, .map h' => .map (h.trans h')

theorem Value.AllEqual.trans {as bs cs : List Value} :
    Value.AllEqual as bs → Value.AllEqual bs cs → Value.AllEqual as cs
  | .nil, h' => h'
  | .cons hvalue hrest, .cons hvalue' hrest' => .cons (hvalue.trans hvalue') (hrest.trans hrest')

theorem Entries.AllEqual.trans {as bs cs : List (Key × Value)} :
    Entries.AllEqual as bs → Entries.AllEqual bs cs → Entries.AllEqual as cs
  | .nil, h' => h'
  | .cons hvalue hrest, .cons hvalue' hrest' => .cons (hvalue.trans hvalue') (hrest.trans hrest')

end

/-! ## Values that are equal to themselves -/

/-- Found in a value: itself, or found in an element or entry of it.  The code of a function and what
is suspended are not looked into. -/
inductive Value.PartOf (part : Value) : Value → Prop where
  | self : Value.PartOf part part
  | list {item : Value} {items : List Value} :
      item ∈ items → Value.PartOf part item → Value.PartOf part (.list items)
  | vector {item : Value} {items : List Value} :
      item ∈ items → Value.PartOf part item → Value.PartOf part (.vector items)
  | map {entry : Key × Value} {entries : List (Key × Value)} :
      entry ∈ entries → Value.PartOf part entry.2 → Value.PartOf part (.map entries)

/-- No part of the value is a function or suspended work. -/
def Value.IsPassive (value : Value) : Prop :=
  ∀ part : Value, part.PartOf value → part.kind ≠ .func ∧ part.kind ≠ .suspension

/-- What is equal to something is neither a function nor suspended. -/
theorem Value.Equals.kind_ne {a b : Value} (h : a.Equals b) :
    a.kind ≠ .func ∧ a.kind ≠ .suspension := by
  cases h <;> exact ⟨nofun, nofun⟩

theorem Value.AllEqual.of_mem {as bs : List Value} {item : Value} (hitem : item ∈ as)
    (h : Value.AllEqual as bs) : ∃ other, item.Equals other := by
  induction as generalizing bs with
  | nil => cases hitem
  | cons a as ih =>
      rcases h with _ | ⟨hvalue, hrest⟩
      rcases List.mem_cons.mp hitem with rfl | hitem
      · exact ⟨_, hvalue⟩
      · exact ih hitem hrest

theorem Entries.AllEqual.of_mem {as bs : List (Key × Value)} {entry : Key × Value}
    (hentry : entry ∈ as) (h : Entries.AllEqual as bs) : ∃ other, entry.2.Equals other := by
  induction as generalizing bs with
  | nil => cases hentry
  | cons a as ih =>
      rcases h with _ | ⟨hvalue, hrest⟩
      rcases List.mem_cons.mp hentry with rfl | hentry
      · exact ⟨_, hvalue⟩
      · exact ih hentry hrest

/-- Each part of what is equal to something is equal to something. -/
theorem Value.Equals.of_partOf {part a b : Value} (hpart : part.PartOf a) (h : a.Equals b) :
    ∃ other, part.Equals other := by
  induction hpart generalizing b with
  | self => exact ⟨b, h⟩
  | list hitem _ ih =>
      cases h with
      | list hitems =>
          obtain ⟨_, hequals⟩ := hitems.of_mem hitem
          exact ih hequals
  | vector hitem _ ih =>
      cases h with
      | vector hitems =>
          obtain ⟨_, hequals⟩ := hitems.of_mem hitem
          exact ih hequals
  | map hentry _ ih =>
      cases h with
      | map hentries =>
          obtain ⟨_, hequals⟩ := hentries.of_mem hentry
          exact ih hequals

mutual

theorem Value.Equals.refl_of_isPassive : (a : Value) → a.IsPassive → a.Equals a
  | .nil, _ => .nil
  | .bool _, _ => .bool
  | .number _, _ => .number rfl
  | .text _, _ => .text
  | .symbol _, _ => .symbol rfl
  | .key _, _ => .key
  | .list items, h => .list (.refl_of_isPassive items fun _ hitem _ hpart =>
      h _ (.list hitem hpart))
  | .vector items, h => .vector (.refl_of_isPassive items fun _ hitem _ hpart =>
      h _ (.vector hitem hpart))
  | .map entries, h => .map (.refl_of_isPassive entries fun _ hentry _ hpart =>
      h _ (.map hentry hpart))
  | .func _, h => absurd rfl (h _ .self).1
  | .suspended _, h => absurd rfl (h _ .self).2

theorem Value.AllEqual.refl_of_isPassive :
    (items : List Value) → (∀ item ∈ items, item.IsPassive) → Value.AllEqual items items
  | [], _ => .nil
  | item :: rest, h => .cons (.refl_of_isPassive item (h item List.mem_cons_self))
      (.refl_of_isPassive rest fun other hother => h other (List.mem_cons_of_mem _ hother))

theorem Entries.AllEqual.refl_of_isPassive :
    (entries : List (Key × Value)) → (∀ entry ∈ entries, entry.2.IsPassive) →
      Entries.AllEqual entries entries
  | [], _ => .nil
  | (key, value) :: rest, h => .cons (.refl_of_isPassive value (h (key, value) List.mem_cons_self))
      (.refl_of_isPassive rest fun other hother => h other (List.mem_cons_of_mem _ hother))

end

/-- A value is equal to itself exactly if no part of it is a function or suspended work. -/
theorem Value.equals_self_iff {a : Value} : a.Equals a ↔ a.IsPassive := by
  constructor
  · -- Its parts are equal to something, which functions and suspended work are not.
    intro h part hpart
    obtain ⟨_, hequals⟩ := h.of_partOf hpart
    exact hequals.kind_ne
  · exact .refl_of_isPassive a

/-! ## Maps by their lookups -/

namespace Entries

variable {entries others : List (Key × Value)}

/-- What is stored under a key of `entries` is equal to what is stored under it in `others`. -/
def Matched (entries others : List (Key × Value)) : Prop :=
  ∀ key value, get? key entries = some value →
    ∃ other, get? key others = some other ∧ value.equal other = true

def names (entries : List (Key × Value)) : List String := entries.map fun entry => entry.1.name

theorem Ordered.names (h : Ordered entries) : (names entries).Pairwise (· < ·) :=
  List.pairwise_map.mpr h

theorem AllEqual.names_eq (h : AllEqual entries others) : names entries = names others := by
  induction entries generalizing others with
  | nil =>
      cases h
      rfl
  | cons entry rest ih =>
      rcases h with _ | ⟨_, hrest⟩
      rw [names, List.map_cons, ← names, ih hrest]
      rfl

/-- Equal entries have the same keys, so they stand in order together. -/
theorem AllEqual.ordered (h : AllEqual entries others) (hordered : Ordered entries) :
    Ordered others := by
  have hnames := hordered.names
  rw [h.names_eq] at hnames
  exact List.pairwise_map.mp hnames

theorem AllEqual.matched (h : AllEqual entries others) : Matched entries others := by
  intro key value hget
  induction entries generalizing others with
  | nil => cases hget
  | cons entry rest ih =>
      rcases h with _ | @⟨k, v, w, rest, later, hvalue, hrest⟩
      rw [get?] at hget ⊢
      split at hget
      · next hkey =>
          cases hget
          exact ⟨w, if_pos hkey, hvalue.equal_eq⟩
      · next hkey =>
          rw [if_neg hkey]
          exact ih hrest hget

/-- A map that matches another has no key that the other has not. -/
theorem Matched.names_subset (h : Matched entries others) : names entries ⊆ names others := by
  intro name hname
  obtain ⟨entry, hentry, rfl⟩ := List.mem_map.mp hname
  obtain ⟨value, hvalue⟩ := exists_get?_of_mem hentry
  obtain ⟨other, hother, -⟩ := h entry.1 value hvalue
  exact List.mem_map.mpr ⟨_, mem_of_get? hother, rfl⟩

/-- Entries with the same keys in order are equal if they match. -/
theorem Matched.allEqual (h : Matched entries others) (hordered : Ordered entries)
    (hnames : names entries = names others) : AllEqual entries others := by
  induction entries generalizing others with
  | nil =>
      cases others with
      | nil => exact .nil
      | cons => cases hnames
  | cons entry rest ih =>
      obtain ⟨⟨name⟩, value⟩ := entry
      rcases others with _ | ⟨⟨⟨_⟩, other⟩, later⟩
      · cases hnames
      · obtain ⟨rfl, hrest⟩ := List.cons.inj hnames
        obtain ⟨hfirst, hlater⟩ := List.pairwise_cons.mp hordered
        obtain ⟨_, hget, hvalue⟩ := h ⟨name⟩ value (if_pos rfl)
        cases (if_pos rfl).symm.trans hget
        refine .cons (Value.equals_iff.mp hvalue) (ih ?_ hlater hrest)
        intro key found hfound
        -- The keys that follow are larger, so the first entry is passed over.
        have hne : Key.mk name ≠ key := by
          rintro rfl
          exact lt_irrefl _ (hfirst (_, found) (mem_of_get? hfound))
        have hmatch := h key found (Eq.trans (if_neg hne) hfound)
        rwa [get?, if_neg hne] at hmatch

/-- Maps are equal exactly if they have equally many entries and each key of the one leads to an equal
value in the other. -/
theorem equal_iff_matched (hordered : Ordered entries) (hordered' : Ordered others) :
    Entries.equal entries others = true ↔
      entries.length = others.length ∧ Matched entries others := by
  constructor
  · intro h
    have hequal := AllEqual.of_equal entries others h
    refine ⟨?_, hequal.matched⟩
    simpa [names] using congrArg List.length hequal.names_eq
  · rintro ⟨hlength, h⟩
    -- As many keys, none of them twice and all among those of the other: so they are the same.
    have hperm : (names entries).Perm (names others) :=
      (List.subperm_of_subset hordered.names.nodup h.names_subset).perm_of_length_le
        (by simp [names, hlength])
    exact (h.allEqual hordered (hperm.eq_of_pairwise' hordered.names hordered'.names)).equal_eq

/-- The key leads to nothing in either map, or to equal values in both. -/
def AgreeAt (entries others : List (Key × Value)) (key : Key) : Prop :=
  Option.Rel (fun v w => v.equal w = true) (get? key entries) (get? key others)

theorem AgreeAt.symm {key : Key} (h : AgreeAt entries others key) : AgreeAt others entries key := by
  unfold AgreeAt at h ⊢
  generalize get? key entries = value at h ⊢
  generalize get? key others = other at h ⊢
  cases h with
  | some hequal => exact .some (Value.Equals.of_equal _ _ hequal).symm.equal_eq
  | none => exact .none

theorem Matched.of_agreeAt (h : ∀ key, AgreeAt entries others key) : Matched entries others := by
  intro key value hvalue
  have hkey := h key
  unfold AgreeAt at hkey
  rw [hvalue] at hkey
  generalize get? key others = other at hkey ⊢
  cases hkey with
  | some hequal => exact ⟨_, rfl, hequal⟩

/-- Maps are equal if they agree at every key. -/
theorem equal_of_lookups (hordered : Ordered entries) (hordered' : Ordered others)
    (h : ∀ key, AgreeAt entries others key) : Entries.equal entries others = true := by
  have hmatched := Matched.of_agreeAt h
  have hmatched' := Matched.of_agreeAt fun key => (h key).symm
  have hnames : names entries = names others :=
    List.Subset.antisymm_of_pairwise hordered.names hordered'.names hmatched.names_subset
      hmatched'.names_subset
  exact (hmatched.allEqual hordered hnames).equal_eq

end Entries
end LazyLisp
