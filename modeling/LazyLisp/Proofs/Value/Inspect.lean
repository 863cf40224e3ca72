import LazyLisp.Reader.Token
import LazyLisp.Value.Render
import Mathlib.Data.List.Basic

/-!
# Inspect — how deep the detailed text goes

The detailed text of a value is written piece by piece: brackets, what stands between them, and an
ellipsis in place of what is nested too deeply.  The pieces say more than the text does, where a bracket
may as well belong to a string, to a key or to the parameters of a function.  This file defines:

* `Value.contents?`, the brackets of a collection and what stands between them, with
  `Value.IsFilled` and `Value.NestedAt`, the collections that are not empty and the depth of values;
* `Value.cut`, a value with markers in place of the filled collections at some depth;
* `Write`, the pieces, and `Value.writes`, the pieces of a value with its first levels opened up;
* `Write.after`, the brackets that are open behind a piece, where only so many may be.

Main results:

* `Value.join_writes`: the detailed text is the text of the pieces;
* `Value.inspect_bounded`: it depends on the top levels only, never has more than `Value.inspectDepth`
  and one brackets open, and leaves out nothing but what is nested that deep.
-/

namespace LazyLisp

open Reader

/-! ## Collections -/

/-- The brackets of a collection and the values between them, those of a map with their keys. -/
def Value.contents? : Value → Option (Delimiter × List (Option Key × Value))
  | .list items => some (.paren, items.map (none, ·))
  | .vector items => some (.bracket, items.map (none, ·))
  | .map entries => some (.brace, entries.map fun entry => (some entry.1, entry.2))
  | _ => none

/-- A list, a vector or a map that is not empty. -/
def Value.IsFilled (value : Value) : Prop :=
  ∃ delimiter items, value.contents? = some (delimiter, items) ∧ items ≠ []

/-- `inner` stands inside of so many collections, the value itself being the outermost one. -/
inductive Value.NestedAt (inner : Value) : Nat → Value → Prop where
  | self : Value.NestedAt inner 0 inner
  | inside {depth : Nat} {value : Value} {delimiter : Delimiter}
      {items : List (Option Key × Value)} {item : Option Key × Value} :
      value.contents? = some (delimiter, items) → item ∈ items →
        Value.NestedAt inner depth item.2 → Value.NestedAt inner (depth + 1) value

mutual

/-- The value with a marker of the same kind in place of every filled collection that is nested in
`depth` others. -/
def Value.cut : Nat → Value → Value
  | 0, .list (_ :: _) => .list [.symbol (.unplaced "…")]
  | 0, .vector (_ :: _) => .vector [.symbol (.unplaced "…")]
  | 0, .map (_ :: _) => .map [(⟨"…"⟩, .nil)]
  | depth + 1, .list items => .list (Value.cutAll depth items)
  | depth + 1, .vector items => .vector (Value.cutAll depth items)
  | depth + 1, .map entries => .map (Entries.cut depth entries)
  | _, value => value

def Value.cutAll : Nat → List Value → List Value
  | _, [] => []
  | depth, value :: rest => value.cut depth :: Value.cutAll depth rest

def Entries.cut : Nat → List (Key × Value) → List (Key × Value)
  | _, [] => []
  | depth, (key, value) :: rest => (key, value.cut depth) :: Entries.cut depth rest

end

/-! ## Pieces -/

/-- A piece of the detailed text. -/
inductive Write where
  | opening (delimiter : Delimiter)
  | closing (delimiter : Delimiter)
  /-- In place of all that stands between two brackets. -/
  | ellipsis
  | space
  | key (name : Key)
  /-- A value that is no collection. -/
  | leaf (value : Value)

def Write.text : Write → String
  | .opening delimiter => String.singleton delimiter.opening
  | .closing delimiter => String.singleton delimiter.closing
  | .ellipsis => "…"
  | .space => " "
  | .key name => name.render
  | .leaf value => value.inspect

/-- What stands in front of a value. -/
def Write.label : Option Key → List Write
  | none => []
  | some name => [.key name, .space]

/-- Rows of pieces between brackets, one space apart, or an ellipsis in place of any if no level is
left. -/
def Write.enclosed (levels : Option Nat) (delimiter : Delimiter) (rows : List (List Write)) :
    List Write :=
  .opening delimiter ::
    ((if levels = some 0 ∧ rows ≠ [] then [.ellipsis] else [.space].intercalate rows) ++
      [.closing delimiter])

mutual

/-- The pieces of a value with so many levels of collections opened up, or with all of them. -/
def Value.writes : Option Nat → Value → List Write
  | levels, .list items =>
      Write.enclosed levels .paren (Value.writesAll (levels.map (· - 1)) items)
  | levels, .vector items =>
      Write.enclosed levels .bracket (Value.writesAll (levels.map (· - 1)) items)
  | levels, .map entries =>
      Write.enclosed levels .brace (Entries.writes (levels.map (· - 1)) entries)
  | _, value => [.leaf value]

/-- One row for each value. -/
def Value.writesAll : Option Nat → List Value → List (List Write)
  | _, [] => []
  | levels, value :: rest => value.writes levels :: Value.writesAll levels rest

/-- One row for each entry, key and value. -/
def Entries.writes : Option Nat → List (Key × Value) → List (List Write)
  | _, [] => []
  | levels, (key, value) :: rest =>
      (.key key :: .space :: value.writes levels) :: Entries.writes levels rest

end

/-- The brackets that are open behind a piece, innermost first.  There may be `limit` of them, and each
one has to be closed by its own kind. -/
def Write.after (limit : Nat) (opened : List Delimiter) : Write → Option (List Delimiter)
  | .opening delimiter => if opened.length < limit then some (delimiter :: opened) else none
  | .closing delimiter =>
      match opened with
      | [] => none
      | last :: rest => if last = delimiter then some rest else none
  | _ => some opened

/-! ## Collections of any kind -/

namespace Value

variable {value : Value} {delimiter : Delimiter} {items : List (Option Key × Value)}

theorem sizeOf_lt_of_mem_contents {item : Option Key × Value}
    (h : value.contents? = some (delimiter, items)) (hmem : item ∈ items) :
    sizeOf item.2 < sizeOf value := by
  cases value with
  | list elements | vector elements =>
      cases h
      obtain ⟨element, helement, rfl⟩ := List.mem_map.mp hmem
      have hlt := List.sizeOf_lt_of_mem helement
      simp only [list.sizeOf_spec, vector.sizeOf_spec]
      omega
  | map entries =>
      cases h
      obtain ⟨⟨k, v⟩, hentry, rfl⟩ := List.mem_map.mp hmem
      have hlt := List.sizeOf_lt_of_mem hentry
      simp only [Prod.mk.sizeOf_spec, map.sizeOf_spec] at hlt ⊢
      omega
  | _ => cases h

/-- What holds of a value if it holds of all that stands between its brackets, holds of all values. -/
theorem induction_contents {motive : Value → Prop}
    (h : ∀ value : Value, (∀ delimiter items, value.contents? = some (delimiter, items) →
      ∀ item ∈ items, motive item.2) → motive value) (value : Value) : motive value :=
  h value fun _ _ hcontents item hmem =>
    have := sizeOf_lt_of_mem_contents hcontents hmem
    induction_contents h item.2
termination_by sizeOf value

/-- What goes through a list one element after the other is a map. -/
theorem eq_map_of_cons {α β : Type} {f : List α → List β} {g : α → β} (hnil : f [] = [])
    (hcons : ∀ a rest, f (a :: rest) = g a :: f rest) (elements : List α) :
    f elements = elements.map g := by
  induction elements with
  | nil => rw [hnil, List.map_nil]
  | cons a rest ih => rw [hcons, ih, List.map_cons]

/-- A collection is written between its brackets. -/
theorem writes_of_contents (h : value.contents? = some (delimiter, items)) (levels : Option Nat) :
    value.writes levels = Write.enclosed levels delimiter
      (items.map fun item => Write.label item.1 ++ item.2.writes (levels.map (· - 1))) := by
  have hall := eq_map_of_cons (f := writesAll (levels.map (· - 1))) rfl fun _ _ => rfl
  have hentries := eq_map_of_cons (f := Entries.writes (levels.map (· - 1))) rfl fun _ _ => rfl
  cases value with
  | list elements | vector elements =>
      cases h
      simp [writes, hall, Write.label, Function.comp_def]
  | map entries =>
      cases h
      simp [writes, hentries, Write.label, Function.comp_def]
  | _ => cases h

theorem writes_of_leaf (h : value.contents? = none) (levels : Option Nat) :
    value.writes levels = [.leaf value] := by
  cases value with
  | list | vector | map => cases h
  | _ => rfl

/-! ### The text of the pieces -/

/-- The items of a collection, each behind its key if it has one. -/
theorem inspectAt_of_contents (h : value.contents? = some (delimiter, items)) (depth : Nat) :
    value.inspectAt depth = inspected depth (String.singleton delimiter.opening)
      (String.singleton delimiter.closing) (items.map fun item =>
        String.join ((Write.label item.1).map Write.text) ++ item.2.inspectAt (depth + 1)) := by
  have hall := eq_map_of_cons (f := inspectAll depth) rfl fun _ _ => rfl
  have hentries := eq_map_of_cons (f := Entries.inspect depth) rfl fun _ _ => rfl
  cases value with
  | list elements | vector elements =>
      cases h
      simp [inspectAt, hall, Write.label, Function.comp_def]
      rfl
  | map entries =>
      cases h
      simp [inspectAt, hentries, Write.label, Write.text, Function.comp_def]
      rfl
  | _ => cases h

theorem inspectAt_of_leaf (h : value.contents? = none) (depth : Nat) :
    value.inspectAt depth = value.inspect := by
  cases value with
  | list | vector | map => cases h
  | bool b => cases b <;> rfl
  | _ => rfl

/-- Rows of pieces with spaces between them, as text. -/
theorem join_intercalate (rows : List (List Write)) :
    String.join (([Write.space].intercalate rows).map Write.text) =
      " ".intercalate (rows.map fun row => String.join (row.map Write.text)) := by
  induction rows with
  | nil => rfl
  | cons row rest ih =>
      cases rest with
      | nil => simp
      | cons next rest =>
          simp only [List.map_cons] at ih
          simp [List.intercalate_cons_cons, String.join_append, String.intercalate_cons_cons, ih,
            Write.text, String.append_assoc]

theorem join_enclosed (depth : Nat) (rows : List (List Write)) :
    String.join ((Write.enclosed (some (inspectDepth - depth)) delimiter rows).map Write.text) =
      inspected depth (String.singleton delimiter.opening) (String.singleton delimiter.closing)
        (rows.map fun row => String.join (row.map Write.text)) := by
  have hdeep : some (inspectDepth - depth) = some 0 ↔ inspectDepth ≤ depth := by
    rw [Option.some.injEq, Nat.sub_eq_zero_iff_le]
  simp only [Write.enclosed, inspected, hdeep, ne_eq, List.map_eq_nil_iff]
  split
  · simp only [List.map_cons, List.map_append, List.map_nil, Write.text, String.join_cons,
      String.join_append, String.join_nil, String.append_empty, String.append_assoc]
  · simp only [List.map_cons, List.map_append, List.map_nil, Write.text, String.join_cons,
      String.join_append, String.join_nil, String.append_empty, String.append_assoc, bracketed,
      join_intercalate]

/-- The detailed text is the text of the pieces, one behind the other. -/
theorem join_writes (value : Value) (depth : Nat) :
    String.join ((value.writes (some (inspectDepth - depth))).map Write.text) =
      value.inspectAt depth := by
  induction value using induction_contents generalizing depth with
  | h value ih =>
      cases h : value.contents? with
      | none => simp [writes_of_leaf h, inspectAt_of_leaf h, Write.text]
      | some contents =>
          obtain ⟨delimiter, items⟩ := contents
          rw [writes_of_contents h, inspectAt_of_contents h, join_enclosed, List.map_map]
          congr 1
          refine List.map_congr_left fun item hmem => ?_
          have hitem := ih delimiter items h item hmem (depth + 1)
          rw [Nat.sub_add_eq] at hitem
          simp [String.join_append, hitem]

/-! ### The top levels -/

theorem cut_of_leaf (h : value.contents? = none) (depth : Nat) : value.cut depth = value := by
  cases value with
  | list | vector | map => cases h
  | _ => cases depth <;> rfl

theorem cut_zero_of_empty (h : value.contents? = some (delimiter, [])) : value.cut 0 = value := by
  cases value with
  | list elements | vector elements | map elements =>
      cases elements with
      | nil => rfl
      | cons => cases h
  | _ => cases h

/-- A marker is a collection of the same kind, and is filled as well. -/
theorem contents_cut_zero (h : value.contents? = some (delimiter, items)) (hne : items ≠ []) :
    ∃ marker, (value.cut 0).contents? = some (delimiter, marker) ∧ marker ≠ [] := by
  cases value with
  | list elements | vector elements | map elements =>
      cases h
      cases elements with
      | nil => exact absurd rfl hne
      | cons => exact ⟨_, rfl, List.cons_ne_nil _ _⟩
  | _ => cases h

theorem contents_cut_succ (h : value.contents? = some (delimiter, items)) (depth : Nat) :
    (value.cut (depth + 1)).contents? =
      some (delimiter, items.map fun item => (item.1, item.2.cut depth)) := by
  have hall := eq_map_of_cons (f := cutAll depth) rfl fun _ _ => rfl
  have hentries := eq_map_of_cons (f := Entries.cut depth) rfl fun _ _ => rfl
  cases value with
  | list elements | vector elements =>
      cases h
      simp [cut, contents?, hall, Function.comp_def]
  | map entries =>
      cases h
      simp [cut, contents?, hentries, Function.comp_def]
  | _ => cases h

/-- With so many levels opened up, it does not matter what is cut off below them. -/
theorem writes_cut (value : Value) (depth : Nat) :
    (value.cut depth).writes (some depth) = value.writes (some depth) := by
  induction value using induction_contents generalizing depth with
  | h value ih =>
      cases h : value.contents? with
      | none => rw [cut_of_leaf h]
      | some contents =>
          obtain ⟨delimiter, items⟩ := contents
          cases depth with
          | zero =>
              by_cases hempty : items = []
              · subst hempty
                rw [cut_zero_of_empty h]
              · obtain ⟨marker, hmarker, hfilled⟩ := contents_cut_zero h hempty
                rw [writes_of_contents h, writes_of_contents hmarker]
                simp [Write.enclosed, hempty, hfilled]
          | succ depth =>
              rw [writes_of_contents h, writes_of_contents (contents_cut_succ h depth), List.map_map]
              congr 1
              refine List.map_congr_left fun item hmem => ?_
              simp [ih delimiter items h item hmem depth]

/-! ### Open brackets -/

theorem foldlM_intercalate {limit : Nat} {opened : List Delimiter} {rows : List (List Write)}
    (h : ∀ row ∈ rows, row.foldlM (Write.after limit) opened = some opened) :
    ([Write.space].intercalate rows).foldlM (Write.after limit) opened = some opened := by
  induction rows with
  | nil => rfl
  | cons row rest ih =>
      have hrow := h row List.mem_cons_self
      have hrest := ih fun row hmem => h row (List.mem_cons_of_mem _ hmem)
      cases rest with
      | nil => simpa using hrow
      | cons next rest =>
          simp [List.intercalate_cons_cons, hrow, hrest, Write.after]

theorem foldlM_label {limit : Nat} {opened : List Delimiter} (name : Option Key) :
    (Write.label name).foldlM (Write.after limit) opened = some opened := by
  cases name <;> rfl

/-- A collection closes the bracket that it opens, if the same goes for what is shown inside of it. -/
theorem foldlM_enclosed {limit : Nat} {opened : List Delimiter} {levels : Option Nat}
    {rows : List (List Write)} (hroom : opened.length < limit)
    (h : levels ≠ some 0 → ∀ row ∈ rows,
      row.foldlM (Write.after limit) (delimiter :: opened) = some (delimiter :: opened)) :
    (Write.enclosed levels delimiter rows).foldlM (Write.after limit) opened = some opened := by
  have hopen : Write.after limit opened (.opening delimiter) = some (delimiter :: opened) :=
    if_pos hroom
  have hclose : Write.after limit (delimiter :: opened) (.closing delimiter) = some opened :=
    if_pos rfl
  have hinside : (if levels = some 0 ∧ rows ≠ [] then [Write.ellipsis]
      else [.space].intercalate rows).foldlM (Write.after limit) (delimiter :: opened) =
        some (delimiter :: opened) := by
    split
    · rfl
    · next hshown =>
        refine foldlM_intercalate fun row hmem => h ?_ row hmem
        intro hlevels
        exact hshown ⟨hlevels, List.ne_nil_of_mem hmem⟩
  rw [Write.enclosed, List.foldlM_cons, hopen, Option.bind_eq_bind, Option.bind_some,
    List.foldlM_append, hinside]
  simpa using hclose

/-- Writing a value opens at most one bracket more than the levels that are opened up, and closes all
of them again. -/
theorem foldlM_writes {limit : Nat} (value : Value) {levels : Nat} {opened : List Delimiter}
    (hroom : opened.length + levels < limit) :
    (value.writes (some levels)).foldlM (Write.after limit) opened = some opened := by
  induction value using induction_contents generalizing levels opened with
  | h value ih =>
      cases h : value.contents? with
      | none => simp [writes_of_leaf h, Write.after]
      | some contents =>
          obtain ⟨delimiter, items⟩ := contents
          rw [writes_of_contents h]
          refine foldlM_enclosed (by omega) ?_
          intro hlevels row hmem
          obtain ⟨item, hitem, rfl⟩ := List.mem_map.mp hmem
          -- One level is used up by the bracket that is open now.
          have hless : (delimiter :: opened).length + (levels - 1) < limit := by
            have hpos : levels ≠ 0 := fun hzero => hlevels (congrArg some hzero)
            simp only [List.length_cons]
            omega
          rw [List.foldlM_append, foldlM_label]
          exact ih delimiter items h item hitem hless

/-! ### What is left out -/

theorem mem_intercalate {write : Write} (hspace : write ≠ .space) {rows : List (List Write)} :
    write ∈ [Write.space].intercalate rows ↔ ∃ row ∈ rows, write ∈ row := by
  induction rows with
  | nil => simp
  | cons row rest ih =>
      cases rest with
      | nil => simp
      | cons next rest => simp [List.intercalate_cons_cons, ih, hspace]

/-- An ellipsis or a value among the pieces of a collection. -/
theorem mem_writes_iff (h : value.contents? = some (delimiter, items)) {levels : Option Nat}
    {write : Write} (hwrite : write = .ellipsis ∨ ∃ leaf, write = .leaf leaf) :
    write ∈ value.writes levels ↔
      if levels = some 0 ∧ items ≠ [] then write = .ellipsis
      else ∃ item ∈ items, write ∈ item.2.writes (levels.map (· - 1)) := by
  have hlabel : ∀ name : Option Key, write ∉ Write.label name := by
    rintro (_ | name)
    · exact List.not_mem_nil
    · rcases hwrite with rfl | ⟨leaf, rfl⟩ <;> simp [Write.label]
  have hspace : write ≠ .space := by
    rcases hwrite with rfl | ⟨leaf, rfl⟩ <;> exact nofun
  have hbrackets : write ≠ .opening delimiter ∧ write ≠ .closing delimiter := by
    rcases hwrite with rfl | ⟨leaf, rfl⟩ <;> exact ⟨nofun, nofun⟩
  rw [writes_of_contents h]
  simp only [Write.enclosed, List.mem_cons, List.mem_append, hbrackets, List.not_mem_nil, or_false,
    false_or, ne_eq, List.map_eq_nil_iff]
  split
  · simp
  · simp [mem_intercalate hspace, hlabel]

theorem nestedAt_zero_iff {inner : Value} : NestedAt inner 0 value ↔ inner = value := by
  constructor
  · intro h
    cases h
    rfl
  · rintro rfl
    exact .self

theorem nestedAt_succ_iff (h : value.contents? = some (delimiter, items)) {inner : Value}
    {depth : Nat} :
    NestedAt inner (depth + 1) value ↔ ∃ item ∈ items, NestedAt inner depth item.2 := by
  constructor
  · rintro (_ | ⟨hcontents, hmem, hnested⟩)
    rw [h] at hcontents
    cases hcontents
    exact ⟨_, hmem, hnested⟩
  · rintro ⟨item, hmem, hnested⟩
    exact .inside h hmem hnested

theorem isFilled_iff (h : value.contents? = some (delimiter, items)) :
    value.IsFilled ↔ items ≠ [] := by
  simp [IsFilled, h]

/-- A value that is no collection has nothing filled in it. -/
theorem not_isFilled_of_leaf (h : value.contents? = none) {inner : Value} {depth : Nat}
    (hnested : NestedAt inner depth value) : ¬inner.IsFilled := by
  rintro ⟨_, _, hcontents, _⟩
  cases hnested with
  | self =>
      rw [h] at hcontents
      cases hcontents
  | inside hvalue =>
      rw [h] at hvalue
      cases hvalue

/-- An ellipsis stands for filled collections below the levels that are opened up, and for nothing
else. -/
theorem ellipsis_mem_writes_iff (value : Value) (depth : Nat) :
    .ellipsis ∈ value.writes (some depth) ↔
      ∃ inner, NestedAt inner depth value ∧ inner.IsFilled := by
  induction value using induction_contents generalizing depth with
  | h value ih =>
      cases h : value.contents? with
      | none =>
          have hnone : ¬∃ inner, NestedAt inner depth value ∧ inner.IsFilled :=
            fun ⟨_, hnested, hfilled⟩ => not_isFilled_of_leaf h hnested hfilled
          simp [writes_of_leaf h, hnone]
      | some contents =>
          obtain ⟨delimiter, items⟩ := contents
          rw [mem_writes_iff h (.inl rfl)]
          cases depth with
          | zero =>
              simp only [nestedAt_zero_iff, exists_eq_left, isFilled_iff h]
              by_cases hempty : items = [] <;> simp [hempty]
          | succ depth =>
              have hitem : ∀ item ∈ items, .ellipsis ∈ item.2.writes (some depth) ↔
                  ∃ inner, NestedAt inner depth item.2 ∧ inner.IsFilled :=
                fun item hmem => ih delimiter items h item hmem depth
              rw [if_neg (by simp)]
              constructor
              · rintro ⟨item, hmem, hellipsis⟩
                obtain ⟨inner, hnested, hfilled⟩ := (hitem item hmem).mp hellipsis
                exact ⟨inner, .inside h hmem hnested, hfilled⟩
              · rintro ⟨inner, hnested, hfilled⟩
                obtain ⟨item, hmem, hnested⟩ := (nestedAt_succ_iff h).mp hnested
                exact ⟨item, hmem, (hitem item hmem).mpr ⟨inner, hnested, hfilled⟩⟩

/-- Where nothing filled is nested that deep, all levels are opened up. -/
theorem writes_eq_writes_none (value : Value) (depth : Nat)
    (h : ∀ inner, NestedAt inner depth value → ¬inner.IsFilled) :
    value.writes (some depth) = value.writes none := by
  induction value using induction_contents generalizing depth with
  | h value ih =>
      cases hcontents : value.contents? with
      | none => rw [writes_of_leaf hcontents, writes_of_leaf hcontents]
      | some contents =>
          obtain ⟨delimiter, items⟩ := contents
          rw [writes_of_contents hcontents, writes_of_contents hcontents]
          cases depth with
          | zero =>
              have hempty : items = [] := by
                have hself := h value .self
                rwa [isFilled_iff hcontents, not_not] at hself
              simp [Write.enclosed, hempty]
          | succ depth =>
              have hrows : ∀ item ∈ items, item.2.writes (some depth) = item.2.writes none :=
                fun item hmem => ih delimiter items hcontents item hmem depth fun inner hnested =>
                  h inner (.inside hcontents hmem hnested)
              have hmap : (items.map fun item => Write.label item.1 ++ item.2.writes (some depth)) =
                  items.map fun item => Write.label item.1 ++ item.2.writes none :=
                List.map_congr_left fun item hmem => by rw [hrows item hmem]
              simp [Write.enclosed, hmap]

/-- With all levels opened up, nothing is left out. -/
theorem ellipsis_not_mem_writes_none (value : Value) : .ellipsis ∉ value.writes none := by
  induction value using induction_contents with
  | h value ih =>
      cases h : value.contents? with
      | none => simp [writes_of_leaf h]
      | some contents =>
          obtain ⟨delimiter, items⟩ := contents
          rw [mem_writes_iff h (.inl rfl), if_neg (by simp)]
          rintro ⟨item, hmem, hellipsis⟩
          exact ih delimiter items h item hmem hellipsis

theorem contents_of_leaf_mem (value : Value) {levels : Option Nat} {leaf : Value}
    (hmem : .leaf leaf ∈ value.writes levels) : leaf.contents? = none := by
  induction value using induction_contents generalizing levels with
  | h value ih =>
      cases h : value.contents? with
      | none =>
          rw [writes_of_leaf h, List.mem_singleton] at hmem
          cases hmem
          exact h
      | some contents =>
          obtain ⟨delimiter, items⟩ := contents
          rw [mem_writes_iff h (.inr ⟨leaf, rfl⟩)] at hmem
          split at hmem
          · cases hmem
          · obtain ⟨item, hitem, hleaf⟩ := hmem
            exact ih delimiter items h item hitem hleaf

/-! ## The detailed text -/

/-- The detailed text of a value shows `inspectDepth` levels of collections.

* Values that are the same once markers stand for the filled collections nested that deep have the same
  text.
* The text is written in pieces that open and close the brackets of collections, and of nothing else, in
  pairs of one kind.  Never are more than `inspectDepth + 1` of them open.
* Something is left out exactly if a filled collection is nested that deep.  Where none is, the text is
  that of the value with all its levels opened up. -/
theorem inspect_bounded :
    (∀ value other : Value, value.cut inspectDepth = other.cut inspectDepth →
      value.inspect = other.inspect) ∧
    (∀ value : Value,
      value.inspect = String.join ((value.writes (some inspectDepth)).map Write.text) ∧
        (∀ leaf, .leaf leaf ∈ value.writes (some inspectDepth) → leaf.contents? = none) ∧
        (value.writes (some inspectDepth)).foldlM (Write.after (inspectDepth + 1)) [] = some []) ∧
    ∀ value : Value,
      (.ellipsis ∈ value.writes (some inspectDepth) ↔
        ∃ inner, NestedAt inner inspectDepth value ∧ inner.IsFilled) ∧
      ((∀ inner, NestedAt inner inspectDepth value → ¬inner.IsFilled) →
        value.inspect = String.join ((value.writes none).map Write.text)) ∧
      .ellipsis ∉ value.writes none := by
  have hpieces : ∀ value : Value,
      value.inspect = String.join ((value.writes (some inspectDepth)).map Write.text) :=
    fun value => (join_writes value 0).symm
  refine ⟨?_, ?_, ?_⟩
  · intro value other h
    rw [hpieces value, hpieces other, ← writes_cut value, ← writes_cut other, h]
  · intro value
    exact ⟨hpieces value, fun leaf => contents_of_leaf_mem value, foldlM_writes value (by simp)⟩
  · intro value
    refine ⟨ellipsis_mem_writes_iff value _, fun h => ?_, ellipsis_not_mem_writes_none value⟩
    rw [hpieces value, writes_eq_writes_none value _ h]

/-- Two values that differ below seven open brackets, and a value with an empty list there. -/
theorem inspect_bounded_tower :
    (Value.list [.map [(⟨"a"⟩, .vector [.list [.vector [.map [(⟨"b"⟩, .list [.int 1])]]]])]]).inspect =
      (Value.list [.map [(⟨"a"⟩, .vector [.list [.vector [.map [(⟨"b"⟩,
        .list [.nil, .text "("])]]]])]]).inspect ∧
    (Value.list [.map [(⟨"a"⟩, .vector [.list [.vector [.map [(⟨"b"⟩, .list [])]]]])]]).inspect =
      String.join (((Value.list [.map [(⟨"a"⟩, .vector [.list [.vector [.map [(⟨"b"⟩,
        .list [])]]]])]]).writes none).map Write.text) := by
  obtain ⟨hcut, -, hshown⟩ := inspect_bounded
  refine ⟨hcut _ _ rfl, (hshown _).2.1 ?_⟩
  intro inner hnested hfilled
  have hellipsis := (hshown _).1.mpr ⟨inner, hnested, hfilled⟩
  simp [writes, writesAll, Entries.writes, Write.enclosed, inspectDepth] at hellipsis

example : (Nat.repeat (fun value => vector [value]) 10 (int 7)).inspect = "[[[[[[[…]]]]]]]" := by
  cbv

end Value
end LazyLisp
