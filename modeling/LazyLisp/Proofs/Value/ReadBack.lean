import LazyLisp.Proofs.Decimal.Text
import LazyLisp.Proofs.Reader.First
import LazyLisp.Proofs.Reader.Seams
import LazyLisp.Proofs.Text.Quoted
import LazyLisp.Proofs.Value.Equality

/-!
# Read back — the texts of values are source text

Both texts of a value are written so that the reader can take them in.  The plain text loses the
quotes of strings, so it reads back as long as there are none; the detailed text loses what is
nested too deeply, and the places of symbols get into its words, so it reads back where neither
comes up.  What is read is equal to what was written, though not the same: numbers may come back as
another pair of coefficient and scale, and symbols with the place they were read at.  This file
defines:

* `Value.BuiltFrom`, the values that are lists, vectors and maps of given atoms;
* `Value.IsDatum` and `Value.IsCode`, the atoms of data and of code;
* `Value.ShownAt`, the values whose detailed text leaves nothing out;
* `Derives`, the rows of tokens that are read as a given value.

Main results: `readOne_inspect` for data and `readOne_display` for code.
-/

namespace LazyLisp

open Reader

/-! ## Values that read back -/

/-- The text of the key is one token. -/
def Key.IsToken (key : Key) : Prop :=
  tokens key.render = .ok [⟨.key key.name.toList, .start⟩]

/-- The name of the symbol is one token, and no number. -/
def Symbol.IsToken (symbol : Symbol) : Prop :=
  tokens symbol.name = .ok [⟨.symbol symbol.name.toList, .start⟩]

mutual

/-- Atoms, and lists, vectors and maps of such values.  The keys of maps are tokens. -/
def Value.BuiltFrom (atom : Value → Prop) : Value → Prop
  | .list items => Value.AllBuiltFrom atom items
  | .vector items => Value.AllBuiltFrom atom items
  | .map entries => Entries.Ordered entries ∧ Entries.BuiltFrom atom entries
  | value => atom value

def Value.AllBuiltFrom (atom : Value → Prop) : List Value → Prop
  | [] => True
  | value :: rest => value.BuiltFrom atom ∧ Value.AllBuiltFrom atom rest

def Entries.BuiltFrom (atom : Value → Prop) : List (Key × Value) → Prop
  | [] => True
  | (key, value) :: rest => key.IsToken ∧ value.BuiltFrom atom ∧ Entries.BuiltFrom atom rest

end

/-- The atoms of data.  The scale of a number is in the range of 64-bit integers. -/
def Value.IsDatum : Value → Prop
  | .number n => n.scale < 2 ^ 63
  | .text _ => True
  | .key k => k.IsToken
  | _ => False

/-- The atoms of code. -/
def Value.IsCode : Value → Prop
  | .number n => n.scale < 2 ^ 63
  | .symbol s => s.IsToken
  | .key k => k.IsToken
  | _ => False

mutual

/-- Nested in `depth` collections, the value has no collection in it that shrinks to an ellipsis. -/
def Value.ShownAt (depth : Nat) : Value → Prop
  | .list items => (Value.inspectDepth ≤ depth → items = []) ∧ Value.AllShownAt (depth + 1) items
  | .vector items => (Value.inspectDepth ≤ depth → items = []) ∧ Value.AllShownAt (depth + 1) items
  | .map entries =>
      (Value.inspectDepth ≤ depth → entries = []) ∧ Entries.ShownAt (depth + 1) entries
  | _ => True

def Value.AllShownAt (depth : Nat) : List Value → Prop
  | [] => True
  | value :: rest => value.ShownAt depth ∧ Value.AllShownAt depth rest

def Entries.ShownAt (depth : Nat) : List (Key × Value) → Prop
  | [] => True
  | (_, value) :: rest => value.ShownAt depth ∧ Entries.ShownAt depth rest

end

/-! ## Rows of tokens that are read as a value -/

/-- The row is read as a value equal to `value`. -/
def Derives (value : Value) (row : List Token) : Prop :=
  ∃ tree : Tree, row = tree.tokens ∧ value.equal tree.value = true

/-- The row is read as values equal to `values`. -/
def DerivesAll (values : List Value) (row : List Token) : Prop :=
  ∃ trees, row = Tree.allTokens trees ∧ Value.equalAll values (Tree.allValues trees) = true

/-- The row is read as the entries of a map, with values equal to those of `entries`. -/
def DerivesEntries (entries : List (Key × Value)) (row : List Token) : Prop :=
  ∃ pairs, row = Tree.pairTokens pairs ∧ Entries.equal entries (Tree.pairValues pairs) = true

theorem derivesAll_nil : DerivesAll [] [] := ⟨[], rfl, rfl⟩

theorem derivesAll_cons (value : Value) (values : List Value) (row later : List Token)
    (h : Derives value row) (hlater : DerivesAll values later) :
    DerivesAll (value :: values) (row ++ later) := by
  obtain ⟨tree, rfl, hequal⟩ := h
  obtain ⟨trees, rfl, hothers⟩ := hlater
  exact ⟨tree :: trees, rfl, by simp [Tree.allValues, Value.equalAll, hequal, hothers]⟩

theorem derivesEntries_nil : DerivesEntries [] [] := ⟨[], rfl, rfl⟩

/-- One entry: a key and a value. -/
def DerivesEntry (entry : Key × Value) (row : List Token) : Prop :=
  ∃ place later, row = ⟨.key entry.1.name.toList, place⟩ :: later ∧ Derives entry.2 later

theorem derivesEntries_cons (entry : Key × Value) (entries : List (Key × Value))
    (row later : List Token) (h : DerivesEntry entry row) (hlater : DerivesEntries entries later) :
    DerivesEntries (entry :: entries) (row ++ later) := by
  obtain ⟨key, value⟩ := entry
  obtain ⟨place, _, rfl, tree, rfl, hequal⟩ := h
  obtain ⟨pairs, rfl, hothers⟩ := hlater
  refine ⟨(.key key.name.toList place, tree) :: pairs, rfl, ?_⟩
  simp [Tree.pairValues, Entries.equal, MapKey.name, hequal, hothers]

/-! ## The brackets of a collection -/

theorem yields_list {items : List Value} {texts : List String}
    (h : Yields (" ".intercalate texts).toList (DerivesAll items)) :
    Yields (bracketed "(" ")" texts).toList (Derives (.list items)) := by
  refine h.bracketed .paren ?_
  rintro opened closed _ ⟨trees, rfl, hequal⟩
  exact ⟨.list opened trees closed, rfl, hequal⟩

theorem yields_vector {items : List Value} {texts : List String}
    (h : Yields (" ".intercalate texts).toList (DerivesAll items)) :
    Yields (bracketed "[" "]" texts).toList (Derives (.vector items)) := by
  refine h.bracketed .bracket ?_
  rintro opened closed _ ⟨trees, rfl, hequal⟩
  exact ⟨.vector opened trees closed, rfl, hequal⟩

theorem yields_map {entries : List (Key × Value)} {texts : List String}
    (hordered : Entries.Ordered entries)
    (h : Yields (" ".intercalate texts).toList (DerivesEntries entries)) :
    Yields (bracketed "\x7b" "\x7d" texts).toList (Derives (.map entries)) := by
  refine h.bracketed .brace ?_
  rintro opened closed _ ⟨pairs, rfl, hequal⟩
  refine ⟨.map opened pairs closed, rfl, ?_⟩
  have hread := (Entries.AllEqual.of_equal _ _ hequal).ordered hordered
  rw [Tree.value, Entries.ofList_of_ordered hread]
  exact hequal

/-! ## Atoms -/

theorem yields_number {n : Decimal} (h : n.scale < 2 ^ 63) :
    Yields n.render.toList (Derives (.number n)) := by
  obtain ⟨copy, hread, hequal⟩ := Decimal.ofString?_render h
  refine (yields_numeral (Decimal.isNumeral_render n)).imp ?_
  rintro _ ⟨position, rfl⟩
  rw [← String.ofList_toList (s := n.render)] at hread
  exact ⟨.number _ copy hread position, rfl, hequal⟩

theorem yields_symbol {symbol : Symbol} (h : symbol.IsToken) :
    Yields symbol.name.toList (Derives (.symbol symbol)) := by
  -- A text that begins with a quote is no symbol.
  have hquote : symbol.name.toList.head? ≠ some '\x22' := by
    intro hhead
    have hscan := scan?_of_tokens rfl h
    obtain ⟨rest, hrest⟩ := List.head?_eq_some_iff.mp hhead
    rw [Lexeme.chars, hrest, Lexeme.scan?_quote, scanText] at hscan
    split at hscan <;> cases hscan
  refine (yields_of_tokens rfl hquote h).imp ?_
  rintro _ ⟨position, rfl⟩
  exact ⟨.symbol symbol.name.toList position, rfl, by simp [Tree.value, Value.equal]⟩

theorem yields_keyToken {key : Key} (h : key.IsToken) :
    Yields key.render.toList fun row => ∃ position, row = [⟨.key key.name.toList, position⟩] := by
  have hrender : key.render.toList = ':' :: key.name.toList := by
    simp [Key.render]
  exact yields_of_tokens hrender.symm (by simp [hrender]) h

theorem yields_key {key : Key} (h : key.IsToken) : Yields key.render.toList (Derives (.key key)) := by
  refine (yields_keyToken h).imp ?_
  rintro _ ⟨position, rfl⟩
  exact ⟨.key key.name.toList position, rfl, by simp [Tree.value, Value.equal]⟩

theorem yields_encode (s : String) : Yields (Quoted.encode s).toList (Derives (.text s)) := by
  have hspelled := Quoted.spelled_encode s.toList
  rw [Quoted.encode, String.toList_ofList]
  refine (yields_text hspelled.mem_kstar).imp ?_
  rintro _ ⟨position, rfl⟩
  exact ⟨.text _ s.toList hspelled.decode position, rfl, by simp [Tree.value, Value.equal]⟩

/-! ## Entries -/

/-- One entry, as its key and its value with a space between them. -/
theorem yields_entry {key : Key} {value : Value} {text : String} (hkey : key.IsToken)
    (h : Yields text.toList (Derives value)) :
    Yields (key.render ++ " " ++ text).toList (DerivesEntry (key, value)) := by
  rw [String.toList_append, String.toList_append, List.append_assoc]
  refine (yields_keyToken hkey).append_space h ?_
  rintro _ later ⟨position, rfl⟩ hlater
  exact ⟨position, later, rfl, hlater⟩

/-! ## Code -/

mutual

theorem yields_display : (value : Value) → value.BuiltFrom Value.IsCode →
    Yields value.display.toList (Derives value)
  | .number _, h => yields_number h
  | .symbol _, h => yields_symbol h
  | .key _, h => yields_key h
  | .list items, h => yields_list (.intercalate derivesAll_nil derivesAll_cons (yields_displayAll items h))
  | .vector items, h =>
      yields_vector (.intercalate derivesAll_nil derivesAll_cons (yields_displayAll items h))
  | .map entries, h =>
      yields_map h.1 (.intercalate derivesEntries_nil derivesEntries_cons
        (yields_displayEntries entries h.2))

theorem yields_displayAll : (items : List Value) → Value.AllBuiltFrom Value.IsCode items →
    List.Forall₂ (fun text item => Yields text.toList (Derives item)) (Value.displayAll items) items
  | [], _ => .nil
  | value :: rest, h => .cons (yields_display value h.1) (yields_displayAll rest h.2)

theorem yields_displayEntries : (entries : List (Key × Value)) →
    Entries.BuiltFrom Value.IsCode entries →
    List.Forall₂ (fun text entry => Yields text.toList (DerivesEntry entry))
      (Entries.display entries) entries
  | [], _ => .nil
  | (_, value) :: rest, h =>
      .cons (yields_entry h.1 (yields_display value h.2.1)) (yields_displayEntries rest h.2.2)

end

/-! ## Data -/

/-- A collection that is not shrunk is shown between its brackets. -/
theorem inspected_of_shown {depth : Nat} {items : List String}
    (h : Value.inspectDepth ≤ depth → items = []) (opening closing : String) :
    inspected depth opening closing items = bracketed opening closing items := by
  rw [inspected, if_neg]
  rintro ⟨hdepth, hne⟩
  exact hne (h hdepth)

mutual

theorem yields_inspectAt (depth : Nat) : (value : Value) → value.BuiltFrom Value.IsDatum →
    value.ShownAt depth → Yields (value.inspectAt depth).toList (Derives value)
  | .number _, h, _ => yields_number h
  | .text s, _, _ => yields_encode s
  | .key _, h, _ => yields_key h
  | .list items, h, hshown => by
      have hall : Value.inspectDepth ≤ depth → Value.inspectAll depth items = [] := fun hdepth => by
        rw [hshown.1 hdepth, Value.inspectAll]
      rw [Value.inspectAt, inspected_of_shown hall]
      exact yields_list (.intercalate derivesAll_nil derivesAll_cons
        (yields_inspectAll depth items h hshown.2))
  | .vector items, h, hshown => by
      have hall : Value.inspectDepth ≤ depth → Value.inspectAll depth items = [] := fun hdepth => by
        rw [hshown.1 hdepth, Value.inspectAll]
      rw [Value.inspectAt, inspected_of_shown hall]
      exact yields_vector (.intercalate derivesAll_nil derivesAll_cons
        (yields_inspectAll depth items h hshown.2))
  | .map entries, h, hshown => by
      have hall : Value.inspectDepth ≤ depth → Entries.inspect depth entries = [] := fun hdepth => by
        rw [hshown.1 hdepth, Entries.inspect]
      rw [Value.inspectAt, inspected_of_shown hall]
      exact yields_map h.1 (.intercalate derivesEntries_nil derivesEntries_cons
        (yields_inspectEntries depth entries h.2 hshown.2))

theorem yields_inspectAll (depth : Nat) : (items : List Value) →
    Value.AllBuiltFrom Value.IsDatum items → Value.AllShownAt (depth + 1) items →
    List.Forall₂ (fun text item => Yields text.toList (Derives item))
      (Value.inspectAll depth items) items
  | [], _, _ => .nil
  | value :: rest, h, hshown =>
      .cons (yields_inspectAt (depth + 1) value h.1 hshown.1) (yields_inspectAll depth rest h.2 hshown.2)

theorem yields_inspectEntries (depth : Nat) : (entries : List (Key × Value)) →
    Entries.BuiltFrom Value.IsDatum entries → Entries.ShownAt (depth + 1) entries →
    List.Forall₂ (fun text entry => Yields text.toList (DerivesEntry entry))
      (Entries.inspect depth entries) entries
  | [], _, _ => .nil
  | (_, value) :: rest, h, hshown =>
      .cons (yields_entry h.1 (yields_inspectAt (depth + 1) value h.2.1 hshown.1))
        (yields_inspectEntries depth rest h.2.2 hshown.2)

end

/-! ## Source text -/

/-- A text that yields a row of tokens for a value is read as a copy of the value. -/
theorem exists_of_yields {source : String} {value : Value}
    (h : Yields source.toList (Derives value)) :
    ∃ copy, readOne source = .ok copy ∧ value.equal copy = true := by
  obtain ⟨row, ⟨tree, rfl, hequal⟩, htokens⟩ := h.tokens
  exact ⟨tree.value, readOne_of_tokens htokens, hequal⟩

/-- The detailed text of data is read as an equal value, whatever strings there are in it, as long as
nothing in it is nested too deeply to be shown.  The text of a string alone is one closed string
token, and its body is decoded to the string; which characters of it are escaped does not matter. -/
theorem readOne_inspect :
    (∀ value : Value, value.BuiltFrom Value.IsDatum → value.ShownAt 0 →
      ∃ copy, readOne value.inspect = .ok copy ∧ value.equal copy = true) ∧
    (∀ s : String, ∃ body, tokens (Value.text s).inspect = .ok [⟨.text body, .start⟩] ∧
      Quoted.decode body = .ok s.toList) ∧
    ∀ (s : String) (body : List Char), Quoted.Spelled s.toList body →
      tokens (String.ofList ('\x22' :: body ++ ['\x22'])) = .ok [⟨.text body, .start⟩] ∧
        Quoted.decode body = .ok s.toList := by
  refine ⟨?_, ?_, ?_⟩
  · intro value hbuilt hshown
    exact exists_of_yields (yields_inspectAt 0 value hbuilt hshown)
  · intro s
    have hspelled := Quoted.spelled_encode s.toList
    exact ⟨_, tokens_text hspelled.mem_kstar, hspelled.decode⟩
  · intro s body h
    exact ⟨tokens_text h.mem_kstar, h.decode⟩

/-- A map with a string in it that is all escapes, and one letter by its code point. -/
theorem readOne_inspect_escapes :
    (∃ copy, readOne "\x7b:a [\"\\\"\\n\\u\x7b1\x7d\" -1.5]\x7d" = .ok copy ∧
      (Value.map [(⟨"a"⟩, .vector [.text "\"\n\x01", .number ⟨-150, 2⟩])]).equal copy = true) ∧
    tokens "\"\\u\x7b0E9\x7d\"" =
      .ok [⟨.text ['\\', 'u', '\x7b', '0', 'E', '9', '\x7d'], .start⟩] ∧
    Quoted.decode ['\\', 'u', '\x7b', '0', 'E', '9', '\x7d'] = .ok "é".toList := by
  have hkey : Key.IsToken ⟨"a"⟩ := by
    unfold Key.IsToken
    cbv
  have hbuilt : (Value.map [(⟨"a"⟩, .vector [.text "\"\n\x01", .number ⟨-150, 2⟩])]).BuiltFrom
      Value.IsDatum := by
    simp [Value.BuiltFrom, Entries.BuiltFrom, Value.AllBuiltFrom, Value.IsDatum, hkey,
      Entries.Ordered]
  have hshown : (Value.map [(⟨"a"⟩, .vector [.text "\"\n\x01", .number ⟨-150, 2⟩])]).ShownAt 0 := by
    simp [Value.ShownAt, Entries.ShownAt, Value.AllShownAt, Value.inspectDepth]
  have hspelled : Quoted.Spelled "é".toList ['\\', 'u', '\x7b', '0', 'E', '9', '\x7d'] :=
    .cons (.codePoint ['0', 'E', '9'] (by decide) (by decide)) .nil
  have htext : (Value.map [(⟨"a"⟩, .vector [.text "\"\n\x01", .number ⟨-150, 2⟩])]).inspect =
      "\x7b:a [\"\\\"\\n\\u\x7b1\x7d\" -1.5]\x7d" := by
    have hnumber : (Decimal.mk (-150) 2).render = "-1.5" := rfl
    have hencode : Quoted.encode "\"\n\x01" = "\"\\\"\\n\\u\x7b1\x7d\"" := by decide +kernel
    simp [Value.inspect, Value.inspectAt, Value.inspectAll, Entries.inspect, inspected, bracketed,
      Value.inspectDepth, Key.render, hnumber, hencode]
  have hread := readOne_inspect.1 _ hbuilt hshown
  rw [htext] at hread
  exact ⟨hread, readOne_inspect.2.2 "é" _ hspelled⟩

/-- The plain text of code is read as an equal value, however deeply it is nested. -/
theorem readOne_display (value : Value) (h : value.BuiltFrom Value.IsCode) :
    ∃ copy, readOne value.display = .ok copy ∧ value.equal copy = true :=
  exists_of_yields (yields_display value h)

/-- A call with a quoted number and an empty vector in it. -/
theorem readOne_display_call :
    ∃ copy, readOne "(f (quote -1.5) \x7b:k []\x7d)" = .ok copy ∧
      (Value.list [.symbol ⟨"f", none⟩, (Value.number ⟨-150, 2⟩).quoted,
        .map [(⟨"k"⟩, .vector [])]]).equal copy = true := by
  have hkey : Key.IsToken ⟨"k"⟩ := by
    unfold Key.IsToken
    cbv
  have hf : Symbol.IsToken ⟨"f", none⟩ := by
    unfold Symbol.IsToken
    cbv
  have hquote : Symbol.IsToken (.unplaced "quote") := by
    unfold Symbol.IsToken
    cbv
  have hbuilt : (Value.list [.symbol ⟨"f", none⟩, (Value.number ⟨-150, 2⟩).quoted,
      .map [(⟨"k"⟩, .vector [])]]).BuiltFrom Value.IsCode := by
    simp [Value.BuiltFrom, Entries.BuiltFrom, Value.AllBuiltFrom, Value.IsCode, Value.quoted, hkey,
      hf, hquote, Entries.Ordered]
  have htext : (Value.list [.symbol ⟨"f", none⟩, (Value.number ⟨-150, 2⟩).quoted,
      .map [(⟨"k"⟩, .vector [])]]).display = "(f (quote -1.5) \x7b:k []\x7d)" := by
    have hnumber : (Decimal.mk (-150) 2).render = "-1.5" := rfl
    simp [Value.display, Value.displayAll, Entries.display, bracketed, Value.quoted,
      Symbol.unplaced, Key.render, hnumber]
  have hread := readOne_display _ hbuilt
  rwa [htext] at hread

end LazyLisp
