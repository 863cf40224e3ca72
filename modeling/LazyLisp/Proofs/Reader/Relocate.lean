import LazyLisp.Proofs.Reader.Final
import LazyLisp.Proofs.Reader.Inert

/-!
# Relocate — text that stands further down

What is read does not depend on where it stands, but symbols and errors know their place.  When
complete lines are put in front of a text, every place in it moves down by their number and back by
their bytes, and keeps its column.  This file defines:

* `Value.relocate`, and the same for tokens, errors and what is open, which applies a function to
  every place;
* `Position.moved`, the place at a `Distance`.

Main results: `foldlM_relocate`, that reading tokens commutes with any such function;
`tokensFrom_moved`; and `readAll_append`, that reading takes texts apart between lines.
-/

namespace LazyLisp

/-! ## Places -/

mutual

/-- Apply `f` to the place of every symbol in the data. -/
def Value.relocate (f : Position → Position) : Value → Value
  | .nil => .nil
  | .bool b => .bool b
  | .number n => .number n
  | .text s => .text s
  | .symbol symbol => .symbol ⟨symbol.name, symbol.position.map f⟩
  | .key key => .key key
  | .list items => .list (Value.relocateAll f items)
  | .vector items => .vector (Value.relocateAll f items)
  | .map entries => .map (Entries.relocate f entries)
  | .func func => .func func
  | .suspended work => .suspended work

def Value.relocateAll (f : Position → Position) : List Value → List Value
  | [] => []
  | value :: rest => value.relocate f :: Value.relocateAll f rest

def Entries.relocate (f : Position → Position) : List (Key × Value) → List (Key × Value)
  | [] => []
  | (key, value) :: rest => (key, value.relocate f) :: Entries.relocate f rest

end

section Values

variable (f : Position → Position)

theorem Value.relocateAll_eq_map (items : List Value) :
    Value.relocateAll f items = items.map (Value.relocate f) := by
  induction items with
  | nil => rfl
  | cons value rest ih => simp [Value.relocateAll, ih]

mutual

/-- The plain text does not show places. -/
theorem Value.display_relocate : (value : Value) → (value.relocate f).display = value.display
  | .list items => by
      simp only [Value.relocate, Value.display, Value.displayAll_relocate items]
  | .vector items => by
      simp only [Value.relocate, Value.display, Value.displayAll_relocate items]
  | .map entries => by
      simp only [Value.relocate, Value.display, Entries.display_relocate entries]
  | .symbol symbol => rfl
  | .nil | .bool _ | .number _ | .text _ | .key _ | .func _ | .suspended _ => by
      rw [Value.relocate]

theorem Value.displayAll_relocate :
    (items : List Value) → Value.displayAll (Value.relocateAll f items) = Value.displayAll items
  | [] => rfl
  | value :: rest => by
      simp only [Value.relocateAll, Value.displayAll, Value.display_relocate value,
        Value.displayAll_relocate rest]

theorem Entries.display_relocate :
    (entries : List (Key × Value)) →
      Entries.display (Entries.relocate f entries) = Entries.display entries
  | [] => rfl
  | (key, value) :: rest => by
      simp only [Entries.relocate, Entries.display, Value.display_relocate value,
        Entries.display_relocate rest]

end

theorem Value.relocate_quoted (value : Value) :
    value.quoted.relocate f = (value.relocate f).quoted := by
  simp [Value.quoted, Value.relocate, Value.relocateAll, Symbol.unplaced]

theorem Entries.relocate_insert (key : Key) (value : Value) (entries : List (Key × Value)) :
    Entries.relocate f (Entries.insert key value entries) =
      Entries.insert key (value.relocate f) (Entries.relocate f entries) := by
  induction entries with
  | nil => rfl
  | cons entry rest ih =>
      rcases entry with ⟨k, v⟩
      simp only [Entries.insert, Entries.relocate]
      split
      · rfl
      · split
        · rfl
        · rw [Entries.relocate, ih]

theorem Entries.relocate_ofList (pairs : List (Key × Value)) :
    Entries.relocate f (Entries.ofList pairs) = Entries.ofList (Entries.relocate f pairs) := by
  have hfold : ∀ (pairs entries : List (Key × Value)),
      Entries.relocate f
          (pairs.foldl (fun entries pair => Entries.insert pair.1 pair.2 entries) entries) =
        (Entries.relocate f pairs).foldl
          (fun entries pair => Entries.insert pair.1 pair.2 entries)
          (Entries.relocate f entries) := by
    intro pairs
    induction pairs with
    | nil => exact fun _ => rfl
    | cons pair rest ih =>
        intro entries
        rw [List.foldl_cons, ih, Entries.relocate_insert]
        rfl
  exact hfold pairs []

end Values

namespace Reader

def Error.relocate (f : Position → Position) (error : Error) : Error :=
  ⟨error.flaw, f error.position⟩

def Token.relocate (f : Position → Position) (token : Token) : Token :=
  ⟨token.lexeme, f token.position⟩

def Opening.relocate (f : Position → Position) : Opening → Opening
  | .delimiter kind items => .delimiter kind (items.map (Value.relocate f))
  | .quoteMark => .quoteMark

/-- The same progress elsewhere, behind the forms in `outer`, the latest of them first. -/
def Progress.relocate (f : Position → Position) (outer : List Value) (progress : Progress) :
    Progress where
  opened := progress.opened.map fun entry => (entry.1.relocate f, f entry.2)
  forms := progress.forms.map (Value.relocate f) ++ outer

/-- Apply `f` to the place of an error, and `g` to what was read. -/
def relocated {α β : Type} (f : Position → Position) (g : α → β) :
    Except Error α → Except Error β
  | .ok a => .ok (g a)
  | .error error => .error (error.relocate f)

section Relocated

variable {α β γ δ : Type} {f : Position → Position}

theorem relocated_bind {g : α → β} {h : γ → δ} {next : α → Except Error γ}
    {next' : β → Except Error δ} (hnext : ∀ a, next' (g a) = relocated f h (next a))
    (result : Except Error α) :
    relocated f g result >>= next' = relocated f h (result >>= next) := by
  cases result with
  | ok a => exact hnext a
  | error error => rfl

end Relocated

/-! ## Reading tokens -/

section Forms

variable (f : Position → Position) (outer : List Value)

theorem mapEntries_relocate (items : List Value) :
    mapEntries (items.map (Value.relocate f)) =
      Entries.relocate f <$> mapEntries items := by
  fun_induction mapEntries items with
  | case1 => rfl
  | case2 item => rfl
  | case3 key value rest ih =>
      simp only [List.map_cons, Value.relocate, mapEntries, ih]
      cases mapEntries rest <;> rfl
  | case4 name value rest ih =>
      simp only [List.map_cons, Value.relocate, mapEntries, ih]
      cases mapEntries rest <;> rfl
  | case5 other value rest hkey htext =>
      have hdisplay := Value.display_relocate f other
      cases other with
      | key key => exact absurd rfl (hkey key)
      | text name => exact absurd rfl (htext name)
      | _ => simp only [List.map_cons, Value.relocate, mapEntries] at hdisplay ⊢; simp [hdisplay, Except.map_error]

theorem closeForm_relocate (delimiter : Delimiter) (items : List Value) :
    closeForm delimiter (items.map (Value.relocate f)) =
      Value.relocate f <$> closeForm delimiter items := by
  cases delimiter with
  | paren => simp [closeForm, Value.relocate, Value.relocateAll_eq_map]
  | bracket => simp [closeForm, Value.relocate, Value.relocateAll_eq_map]
  | brace =>
      simp only [closeForm, List.length_map, mapEntries_relocate]
      split
      · rfl
      · cases mapEntries items with
        | error flaw => rfl
        | ok pairs => simp [Value.relocate, Entries.relocate_ofList]

namespace Progress

theorem deliver_relocate (form : Value) (forms : List Value) (opened : List (Opening × Position)) :
    deliver (form.relocate f) (forms.map (Value.relocate f) ++ outer)
        (opened.map fun entry => (entry.1.relocate f, f entry.2)) =
      (deliver form forms opened).relocate f outer := by
  induction opened generalizing form with
  | nil => rfl
  | cons entry rest ih =>
      rcases entry with ⟨_ | _, position⟩
      · rfl
      · simp only [List.map_cons, Opening.relocate, deliver, ← Value.relocate_quoted]
        exact ih _

theorem add_relocate (progress : Progress) (form : Value) :
    (progress.relocate f outer).add (form.relocate f) = (progress.add form).relocate f outer :=
  deliver_relocate f outer form progress.forms progress.opened

/-- A token does the same elsewhere. -/
theorem step_relocate (progress : Progress) (token : Token) :
    (progress.relocate f outer).step (token.relocate f) =
      relocated f (relocate f outer) (progress.step token) := by
  rcases token with ⟨lexeme, position⟩
  have hadd : ∀ form : Value, Except.ok ((progress.relocate f outer).add (form.relocate f)) =
      relocated f (relocate f outer) (.ok (progress.add form)) :=
    fun form => congrArg Except.ok (add_relocate f outer progress form)
  cases lexeme with
  | opening delimiter => rfl
  | quoteMark => rfl
  | number digits =>
      simp only [step, Token.relocate, numberForm]
      cases Decimal.ofString? (String.ofList digits) with
      | none => rfl
      | some n => exact hadd (.number n)
  | text body =>
      simp only [step, Token.relocate, textForm]
      cases Quoted.decode body with
      | error escape => rfl
      | ok decoded => exact hadd (.text (String.ofList decoded))
  | openText body => rfl
  | key name => exact hadd (.key ⟨String.ofList name⟩)
  | symbol name => exact hadd (.symbol ⟨String.ofList name, some position⟩)
  | closing delimiter =>
      rcases progress with ⟨_ | ⟨⟨⟨opened, items⟩ | _, openedAt⟩, rest⟩, forms⟩
      · rfl
      · simp only [step, relocate, Token.relocate, Opening.relocate, List.map_cons]
        split
        · rw [← List.map_reverse, closeForm_relocate]
          cases closeForm delimiter items.reverse with
          | error flaw => rfl
          | ok form => exact congrArg Except.ok (add_relocate f outer ⟨rest, forms⟩ form)
        · rfl
      · rfl

theorem foldlM_relocate (row : List Token) (progress : Progress) :
    (row.map (Token.relocate f)).foldlM step (progress.relocate f outer) =
      relocated f (relocate f outer) (row.foldlM step progress) := by
  induction row generalizing progress with
  | nil => rfl
  | cons token rest ih =>
      rw [List.map_cons, List.foldlM_cons, List.foldlM_cons, step_relocate]
      exact relocated_bind ih (progress.step token)

theorem finish_relocate (progress : Progress) :
    (progress.relocate f outer).finish =
      relocated f (fun forms => outer.reverse ++ forms.map (Value.relocate f)) progress.finish := by
  rcases progress with ⟨_ | ⟨⟨_ | _, position⟩, rest⟩, forms⟩
  · simp [finish, relocate, relocated]
  · rfl
  · rfl

end Progress

/-- The forms of a row of tokens elsewhere, behind other forms. -/
theorem formsOf_relocate (row : List Token) :
    (row.map (Token.relocate f)).foldlM Progress.step ⟨[], outer⟩ >>= Progress.finish =
      relocated f (fun forms => outer.reverse ++ forms.map (Value.relocate f)) (formsOf row) := by
  have hfold := Progress.foldlM_relocate f outer row .start
  rw [show Progress.start.relocate f outer = ⟨[], outer⟩ from rfl] at hfold
  rw [hfold]
  exact relocated_bind (Progress.finish_relocate f outer) _

end Forms

end Reader

/-! ## Distances -/

/-- How far down a text stands in another one. -/
structure Distance where
  lines : Nat
  bytes : Nat

/-- The length of lines. -/
def Distance.of (text : String) : Distance :=
  ⟨text.toList.count '\n', text.utf8ByteSize⟩

/-- The place further down by so many lines and bytes, in the same column. -/
def Position.moved (distance : Distance) (position : Position) : Position where
  line := position.line + distance.lines
  column := position.column
  offset := position.offset + distance.bytes

namespace Position

variable (distance : Distance)

theorem advance_moved (position : Position) (c : Char) :
    (position.moved distance).advance c = (position.advance c).moved distance := by
  unfold advance
  split <;> simp [moved, Nat.add_right_comm]

theorem advanceBy_moved (position : Position) (text : List Char) :
    (position.moved distance).advanceBy text = (position.advanceBy text).moved distance := by
  induction text generalizing position with
  | nil => rfl
  | cons c text ih => rw [advanceBy_cons, advanceBy_cons, advance_moved, ih]

end Position

namespace Reader

theorem column_advanceBy {text : List Char} (h : WholeLines text) :
    (Position.start.advanceBy text).column = 1 := by
  rcases List.eq_nil_or_concat text with rfl | ⟨front, c, rfl⟩
  · rfl
  · have hc : c = '\n' := h c (by simp)
    rw [List.concat_eq_append, Position.advanceBy_append, hc]
    rfl

/-- Whole lines move what follows to the start of a line. -/
theorem advanceBy_start {text : String} (h : WholeLines text.toList) :
    Position.start.advanceBy text.toList = Position.start.moved (.of text) := by
  have hline := Position.line_advanceBy .start text.toList
  have hcolumn := column_advanceBy h
  have hoffset := Position.offset_advanceBy .start text.toList
  rw [String.ofList_toList] at hoffset
  rcases hplace : Position.start.advanceBy text.toList with ⟨line, column, offset⟩
  rw [hplace] at hline hcolumn hoffset
  simp only at hline hcolumn hoffset
  rw [hline, hcolumn, hoffset]
  rfl

/-- Tokens do not depend on where the text stands. -/
theorem tokensFrom_moved (distance : Distance) (position : Position) (text : List Char) :
    tokensFrom (position.moved distance) text =
      relocated (Position.moved distance) (List.map (Token.relocate (Position.moved distance)))
        (tokensFrom position text) := by
  fun_induction tokensFrom position text with
  | case1 position =>
      rw [tokensFrom]
      rfl
  | case2 position c rest hseparator ih =>
      rw [tokensFrom_separator hseparator, Position.advanceBy_moved]
      exact ih
  | case3 position rest hlength hseparator ih =>
      rw [tokensFrom_comment, Position.advanceBy_moved]
      exact ih
  | case4 position c rest hseparator hcomment hscan =>
      rw [tokensFrom_of_none hseparator hcomment hscan]
      rfl
  | case5 position c rest hseparator hcomment lexeme after hscan hlength ih =>
      rw [tokensFrom_of_some hseparator hcomment hscan, Position.advanceBy_moved, ih]
      cases tokensFrom (position.advanceBy lexeme.chars) after <;> rfl

/-! ## Between lines -/

/-- Where tokens make forms, nothing stays open. -/
theorem foldlM_of_formsOf {row : List Token} {forms : List Value} (h : formsOf row = .ok forms) :
    row.foldlM Progress.step .start = .ok ⟨[], forms.reverse⟩ := by
  rw [formsOf] at h
  rcases exists_of_bind_eq_ok h with ⟨⟨opened, read⟩, hfold, hfinish⟩
  rw [hfold]
  rcases opened with _ | ⟨⟨_ | _, _⟩, _⟩
  · cases hfinish
    rw [List.reverse_reverse]
  · cases hfinish
  · cases hfinish

/-- Whole lines that are read leave nothing open: what follows is read by itself, behind the forms
that are there already. -/
theorem readAll_append_of_ok {a : String} {forms : List Value} (h : WholeLines a.toList)
    (hread : readAll a = .ok forms) (b : String) :
    readAll (a ++ b) =
      relocated (Position.moved (.of a))
        (fun later => forms ++ later.map (Value.relocate (Position.moved (.of a)))) (readAll b) := by
  have htokens : tokens (a ++ b) = tokensFrom .start (a.toList ++ b.toList) := by
    rw [tokens, String.toList_append]
  rw [readAll, tokens] at hread
  cases settled_tokensFrom h .start with
  | error other now later =>
      rw [now] at hread
      cases hread
  | tokens row now later =>
      rw [now] at hread
      have hrow := foldlM_of_formsOf hread
      rw [readAll, htokens, later, advanceBy_start h, tokensFrom_moved, readAll, tokens]
      cases tokensFrom .start b.toList with
      | error error => rfl
      | ok more =>
          have hmore := formsOf_relocate (Position.moved (.of a)) forms.reverse more
          rw [List.reverse_reverse] at hmore
          calc
            formsOf (row ++ more.map (Token.relocate (Position.moved (.of a))))
                = (more.map (Token.relocate (Position.moved (.of a)))).foldlM Progress.step
                    ⟨[], forms.reverse⟩ >>= Progress.finish := by
              rw [formsOf, List.foldlM_append, hrow]
              rfl
            _ = _ := hmore
  | openText row body place now later =>
      -- An open string is no form.
      rw [now] at hread
      have hrow := foldlM_of_formsOf hread
      rw [List.foldlM_append] at hrow
      rcases exists_of_bind_eq_ok hrow with ⟨_, _, hlast⟩
      cases hlast

/-- Reading takes texts apart between lines.  What follows whole lines that are read is read as if it
stood alone, with every place moved down by as many lines and back by as many bytes as there are in
front of it, in the same column. -/
theorem readAll_append (a b : String) (forms : List Value) (h : WholeLines a.toList)
    (hread : readAll a = .ok forms) :
    readAll (a ++ b) =
      match readAll b with
      | .ok later => .ok (forms ++ later.map (Value.relocate fun position =>
          ⟨position.line + a.toList.count '\n', position.column, position.offset + a.utf8ByteSize⟩))
      | .error error => .error
          ⟨error.flaw, error.position.line + a.toList.count '\n', error.position.column,
            error.position.offset + a.utf8ByteSize⟩ := by
  rw [readAll_append_of_ok h hread b]
  cases readAll b with
  | ok later => rfl
  | error error => rfl

/-- Two lines of a string, a comment with a bracket in it, and a call on the third line. -/
theorem readAll_append_text :
    WholeLines "\"é\n\" ; (\n".toList ∧ readAll "\"é\n\" ; (\n" = .ok [.text "é\n"] ∧
      readAll ("\"é\n\" ; (\n" ++ "(f)") =
        .ok [.text "é\n", .list [.symbol ⟨"f", some ⟨3, 2, 11⟩⟩]] := by
  have hlines : WholeLines "\"é\n\" ; (\n".toList := wholeLines_of_getLast? (by decide)
  have hread : readAll "\"é\n\" ; (\n" = .ok [.text "é\n"] := by cbv
  have hlater : readAll "(f)" = .ok [.list [.symbol ⟨"f", some ⟨1, 2, 1⟩⟩]] := by cbv
  have hall := readAll_append _ "(f)" _ hlines hread
  rw [hlater] at hall
  exact ⟨hlines, hread, hall⟩

end Reader
end LazyLisp
