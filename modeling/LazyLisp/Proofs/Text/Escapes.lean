import LazyLisp.Proofs.Reader.Agreement
import LazyLisp.Proofs.Reader.Places
import LazyLisp.Proofs.Text.Quoted
import Mathlib.Data.Nat.Digits.Defs
import Mathlib.Tactic.IntervalCases

/-!
# Escapes — what may stand between quotes

The text between two quotes is a row of items: plain characters, letters behind a backslash, and code
points in hexadecimal.  The reader looks for the closing brace of a code point first and leaves the
digits in front of it to a reader of numbers, which takes a plus sign as well.  This file defines:

* `Quoted.Item`, the items, with the signs that may stand in front of a code point as a parameter;
* `Quoted.Denotes`, the texts that a row of items denotes, and `Quoted.Signed`, where a sign is used.

Main results:

* `Quoted.decode_eq_ok_iff` and `Quoted.Items.unique`: what is read is what the items denote, and there
  is one way to take a text apart into items;
* `Quoted.denotes_documented_iff`: the sign is the only difference to the documented items;
* `Reader.readAll_escapes`: string tokens are read accordingly, and all other ones, and nothing else,
  are bad escapes.
-/

namespace LazyLisp
namespace Quoted

/-! ## Items -/

/-- The letters that may follow a backslash, and what they denote there. -/
def escapeLetters : List (Char × Char) :=
  [('n', '\n'), ('t', '\t'), ('r', '\r'), ('0', '\x00'), ('\\', '\\'), ('\x22', '\x22'),
    ('\x27', '\x27')]

def lowerDigits : List Char :=
  ['0', '1', '2', '3', '4', '5', '6', '7', '8', '9', 'a', 'b', 'c', 'd', 'e', 'f']

def upperDigits : List Char :=
  ['0', '1', '2', '3', '4', '5', '6', '7', '8', '9', 'A', 'B', 'C', 'D', 'E', 'F']

/-- `c` is the hexadecimal digit of this value, in either case. -/
def IsHexDigit (c : Char) (value : Nat) : Prop :=
  lowerDigits[value]? = some c ∨ upperDigits[value]? = some c

/-- The ways to write a character between quotes.  `signs` are the texts that may stand in front of the
digits of a code point. -/
inductive Item (signs : List (List Char)) : List Char → Char → Prop where
  | plain {c : Char} : c ≠ '\\' → Item signs [c] c
  | letter {letter c : Char} : (letter, c) ∈ escapeLetters → Item signs ['\\', letter] c
  | codePoint {c : Char} {sign digits : List Char} {values : List Nat} :
      sign ∈ signs → digits ≠ [] → List.Forall₂ IsHexDigit digits values →
        c.toNat = Nat.ofDigits 16 values.reverse →
          Item signs (['\\', 'u', '\x7b'] ++ (sign ++ digits) ++ ['\x7d']) c

/-- The signs that are documented in front of the digits of a code point: none. -/
def documented : List (List Char) := [[]]

/-- The signs that the reader takes there. -/
def accepted : List (List Char) := [[], ['+']]

/-- `items` are ways to write characters, one behind the other. -/
def Items (signs : List (List Char)) (items : List (List Char × Char)) : Prop :=
  ∀ item ∈ items, Item signs item.1 item.2

/-- The text between two quotes is a row of items, and they denote `text`. -/
def Denotes (signs : List (List Char)) (body text : List Char) : Prop :=
  ∃ items, Items signs items ∧ items.flatMap Prod.fst = body ∧ items.map Prod.snd = text

/-- One of the items in the text between two quotes is a code point behind a plus sign. -/
def Signed (body : List Char) : Prop :=
  ∃ items, Items accepted items ∧ items.flatMap Prod.fst = body ∧
    ∃ item ∈ items, ['\\', 'u', '\x7b', '+'] <+: item.1

/-! ## Hexadecimal digits -/

theorem toNat_add_of_le {low high c : Char} (hlow : low ≤ c) (hhigh : c ≤ high) :
    ∃ value ≤ high.toNat - low.toNat, c = Char.ofNat (low.toNat + value) ∧
      c.toNat - low.toNat = value := by
  have hlow : low.toNat ≤ c.toNat := hlow
  have hhigh : c.toNat ≤ high.toNat := hhigh
  refine ⟨c.toNat - low.toNat, by omega, ?_, rfl⟩
  rw [Nat.add_sub_cancel' hlow, Char.ofNat_toNat]

theorem hexDigit?_eq_some_iff {c : Char} {value : Nat} :
    hexDigit? c = some value ↔ IsHexDigit c value := by
  constructor
  · intro h
    unfold hexDigit? at h
    split at h
    · next hrange =>
        obtain ⟨digit, hdigit, rfl, hvalue⟩ := toNat_add_of_le hrange.1 hrange.2
        rw [hvalue] at h
        cases h
        change value ≤ 9 at hdigit
        interval_cases value <;> exact .inl rfl
    split at h
    · next hrange =>
        obtain ⟨digit, hdigit, rfl, hvalue⟩ := toNat_add_of_le hrange.1 hrange.2
        rw [hvalue] at h
        cases h
        change digit ≤ 5 at hdigit
        interval_cases digit <;> exact .inl rfl
    split at h
    · next hrange =>
        obtain ⟨digit, hdigit, rfl, hvalue⟩ := toNat_add_of_le hrange.1 hrange.2
        rw [hvalue] at h
        cases h
        change digit ≤ 5 at hdigit
        interval_cases digit <;> exact .inr rfl
    · cases h
  · rintro (h | h)
    · have hlt : value < 16 := (List.getElem?_eq_some_iff.mp h).1
      interval_cases value <;> cases h <;> rfl
    · have hlt : value < 16 := (List.getElem?_eq_some_iff.mp h).1
      interval_cases value <;> cases h <;> rfl

/-- The value of a run of digits, behind digits that came to `value`. -/
theorem hexValue?_eq_some_iff {value n : Nat} {digits : List Char} :
    hexValue? value digits = some n ↔
      ∃ values, List.Forall₂ IsHexDigit digits values ∧
        n = value * 16 ^ values.length + Nat.ofDigits 16 values.reverse := by
  induction digits generalizing value with
  | nil =>
      constructor
      · intro h
        cases h
        exact ⟨[], .nil, by simp⟩
      · rintro ⟨values, hvalues, rfl⟩
        cases hvalues
        simp [hexValue?]
  | cons c rest ih =>
      have hshift : ∀ digit (values : List Nat),
          (16 * value + digit) * 16 ^ values.length + Nat.ofDigits 16 values.reverse =
            value * 16 ^ (digit :: values).length + Nat.ofDigits 16 (digit :: values).reverse := by
        intro digit values
        simp only [List.reverse_cons, List.length_cons, Nat.ofDigits_append, List.length_reverse,
          Nat.ofDigits_singleton]
        ring
      rw [hexValue?, Option.bind_eq_some_iff]
      constructor
      · rintro ⟨digit, hdigit, hrest⟩
        obtain ⟨values, hvalues, rfl⟩ := ih.mp hrest
        exact ⟨digit :: values, .cons (hexDigit?_eq_some_iff.mp hdigit) hvalues,
          hshift digit values⟩
      · rintro ⟨values, hvalues, rfl⟩
        cases hvalues with
        | @cons _ digit _ others hdigit hothers =>
            exact ⟨digit, hexDigit?_eq_some_iff.mpr hdigit,
              ih.mpr ⟨others, hothers, (hshift digit others).symm⟩⟩

/-- A row of digits has no other characters in it. -/
theorem notMem_of_isHexDigit {digits : List Char} {values : List Nat}
    (h : List.Forall₂ IsHexDigit digits values) {c : Char} (hc : hexDigit? c = none) :
    c ∉ digits := by
  intro hmem
  obtain ⟨i, hi, rfl⟩ := List.getElem_of_mem hmem
  have hdigit : IsHexDigit digits[i] _ := h.get hi (h.length_eq ▸ hi)
  rw [hexDigit?_eq_some_iff.mpr hdigit] at hc
  cases hc

/-! ## Code points -/

/-- The character of a code point. -/
theorem ofNat_eq_iff {code : Nat} {c : Char} :
    code.isValidChar ∧ Char.ofNat code = c ↔ c.toNat = code := by
  constructor
  · rintro ⟨hvalid, rfl⟩
    rw [Char.ofNat, dif_pos hvalid]
    rfl
  · rintro rfl
    exact ⟨c.valid, c.ofNat_toNat⟩

theorem scalar?_unsigned {digits : List Char} (hplus : digits.head? ≠ some '+') {c : Char} :
    scalar? digits = some c ↔
      digits ≠ [] ∧ ∃ values, List.Forall₂ IsHexDigit digits values ∧
          c.toNat = Nat.ofDigits 16 values.reverse := by
  cases digits with
  | nil => simp [scalar?]
  | cons d rest =>
      have hd : d ≠ '+' := by simpa using hplus
      simp [scalar?, hd, Option.bind_eq_some_iff, ofNat_eq_iff, hexValue?_eq_some_iff]

theorem scalar?_plus {digits : List Char} {c : Char} :
    scalar? ('+' :: digits) = some c ↔
      digits ≠ [] ∧ ∃ values, List.Forall₂ IsHexDigit digits values ∧
          c.toNat = Nat.ofDigits 16 values.reverse := by
  cases digits with
  | nil => simp [scalar?]
  | cons d rest =>
      simp [scalar?, Option.bind_eq_some_iff, ofNat_eq_iff, hexValue?_eq_some_iff]

/-- What may stand between the braces of a code point escape. -/
theorem scalar?_eq_some_iff {inner : List Char} {c : Char} :
    scalar? inner = some c ↔
      ∃ sign ∈ accepted, ∃ digits values, inner = sign ++ digits ∧ digits ≠ [] ∧
        List.Forall₂ IsHexDigit digits values ∧ c.toNat = Nat.ofDigits 16 values.reverse := by
  constructor
  · intro h
    by_cases hplus : inner.head? = some '+'
    · obtain ⟨digits, rfl⟩ : ∃ digits, inner = '+' :: digits := by
        cases inner with
        | nil => cases hplus
        | cons d digits =>
            cases hplus
            exact ⟨digits, rfl⟩
      obtain ⟨hne, values, hvalues, hcode⟩ := scalar?_plus.mp h
      exact ⟨['+'], by simp [accepted], digits, values, rfl, hne, hvalues, hcode⟩
    · obtain ⟨hne, values, hvalues, hcode⟩ := (scalar?_unsigned hplus).mp h
      exact ⟨[], by simp [accepted], inner, values, rfl, hne, hvalues, hcode⟩
  · rintro ⟨sign, hsign, digits, values, rfl, hne, hvalues, hcode⟩
    rcases (by simpa [accepted] using hsign : sign = [] ∨ sign = ['+']) with rfl | rfl
    · have hplus : digits.head? ≠ some '+' := by
        intro hhead
        exact notMem_of_isHexDigit hvalues rfl (List.mem_of_mem_head? hhead)
      exact (scalar?_unsigned hplus).mpr ⟨hne, values, hvalues, hcode⟩
    · exact scalar?_plus.mpr ⟨hne, values, hvalues, hcode⟩

/-- The code point escapes of the grammar, as the reader takes them. -/
theorem codePoint_of_item {sign digits : List Char} {values : List Nat} {c : Char}
    (hsign : sign ∈ accepted) (hne : digits ≠ []) (hvalues : List.Forall₂ IsHexDigit digits values)
    (hcode : c.toNat = Nat.ofDigits 16 values.reverse) (rest : List Char) :
    Quoted.codePoint ('\x7b' :: (sign ++ digits ++ '\x7d' :: rest)) = .ok (c, rest) := by
  refine codePoint_eq_ok_iff.mpr ⟨_, rfl, ?_, ?_⟩
  · simp only [List.mem_append, not_or]
    refine ⟨?_, notMem_of_isHexDigit hvalues rfl⟩
    rcases (by simpa [accepted] using hsign : sign = [] ∨ sign = ['+']) with rfl | rfl <;>
      decide
  · exact scalar?_eq_some_iff.mpr ⟨sign, hsign, digits, values, rfl, hne, hvalues, hcode⟩

/-! ## What is read -/

theorem decode_cons {c : Char} {body text : List Char} :
    (c :: ·) <$> Quoted.decode body = .ok text ↔
      ∃ others, Quoted.decode body = .ok others ∧ text = c :: others := by
  cases Quoted.decode body with
  | error escape => simp
  | ok others => simp [eq_comm]

theorem namedEscape?_eq_some_iff {letter c : Char} :
    namedEscape? letter = some c ↔ (letter, c) ∈ escapeLetters := by
  constructor
  · intro h
    unfold namedEscape? at h
    split at h <;> cases h <;> decide
  · intro h
    simp only [escapeLetters, List.mem_cons, List.not_mem_nil, or_false, Prod.mk.injEq] at h
    rcases h with ⟨rfl, rfl⟩ | ⟨rfl, rfl⟩ | ⟨rfl, rfl⟩ | ⟨rfl, rfl⟩ | ⟨rfl, rfl⟩ | ⟨rfl, rfl⟩ |
      ⟨rfl, rfl⟩ <;> rfl

theorem Item.decode {word : List Char} {c : Char} (h : Item accepted word c) (rest : List Char) :
    Quoted.decode (word ++ rest) = (c :: ·) <$> Quoted.decode rest := by
  cases h with
  | plain hc => exact decode_raw hc rest
  | letter h => exact decode_named (namedEscape?_eq_some_iff.mpr h) rest
  | @codePoint _ sign digits values hsign hne hvalues hcode =>
      have hread := codePoint_of_item hsign hne hvalues hcode rest
      simpa using decode_codePoint hread

theorem Denotes.cons {signs : List (List Char)} {word body text : List Char} {c : Char}
    (hitem : Item signs word c) (h : Denotes signs body text) :
    Denotes signs (word ++ body) (c :: text) := by
  obtain ⟨items, hitems, rfl, rfl⟩ := h
  exact ⟨(word, c) :: items, List.forall_mem_cons.mpr ⟨hitem, hitems⟩, rfl, rfl⟩

theorem denotes_of_decode {body text : List Char} (h : Quoted.decode body = .ok text) :
    Denotes accepted body text := by
  -- One case for each way in which the reader takes something off, or gives up.
  fun_induction Quoted.decode body generalizing text with
  | case1 =>
      cases h
      exact ⟨[], by simp [Items], rfl, rfl⟩
  | case2 => cases h
  | case3 rest escape hcode => cases h
  | case4 rest c after hcode hlt ih =>
      obtain ⟨others, hothers, rfl⟩ := decode_cons.mp h
      obtain ⟨inner, rfl, -, hscalar⟩ := codePoint_eq_ok_iff.mp hcode
      obtain ⟨sign, hsign, digits, values, rfl, hne, hvalues, hvalue⟩ :=
        scalar?_eq_some_iff.mp hscalar
      have hword := Denotes.cons (.codePoint hsign hne hvalues hvalue) (ih hothers)
      simpa using hword
  | case5 d rest _ c hc ih =>
      obtain ⟨others, hothers, rfl⟩ := decode_cons.mp h
      exact Denotes.cons (.letter (namedEscape?_eq_some_iff.mp hc)) (ih hothers)
  | case6 d rest _ hc => cases h
  | case7 c rest hlone _ hescape ih =>
      obtain ⟨others, hothers, rfl⟩ := decode_cons.mp h
      refine Denotes.cons (.plain ?_) (ih hothers)
      rintro rfl
      cases rest with
      | nil => exact hlone rfl rfl
      | cons d behind => exact hescape d behind rfl rfl

/-- What is read is what the items denote. -/
theorem decode_eq_ok_iff {body text : List Char} :
    Quoted.decode body = .ok text ↔ Denotes accepted body text := by
  constructor
  · exact denotes_of_decode
  · rintro ⟨items, hitems, rfl, rfl⟩
    induction items with
    | nil => rw [List.flatMap_nil, Quoted.decode, List.map_nil]
    | cons item rest ih =>
        obtain ⟨hitem, hrest⟩ := List.forall_mem_cons.mp hitems
        rw [List.flatMap_cons, hitem.decode, ih hrest]
        rfl

/-! ## One way to take a text apart -/

/-- A text starts with one item at most. -/
theorem Item.unique {word other rest behind : List Char} {c d : Char}
    (h : Item accepted word c) (h' : Item accepted other d)
    (heq : word ++ rest = other ++ behind) : word = other ∧ c = d := by
  cases h with
  | plain hc =>
      cases h' with
      | plain => simpa using (List.cons.inj heq).1
      | letter => exact absurd (List.cons.inj heq).1 hc
      | codePoint => exact absurd (List.cons.inj heq).1 hc
  | letter hletter =>
      cases h' with
      | plain hd => exact absurd (List.cons.inj heq).1.symm hd
      | letter hother =>
          obtain ⟨rfl, -⟩ := List.cons.inj (List.cons.inj heq).2
          have hsome := namedEscape?_eq_some_iff.mpr hletter
          rw [namedEscape?_eq_some_iff.mpr hother] at hsome
          exact ⟨rfl, (Option.some.inj hsome).symm⟩
      | codePoint =>
          obtain ⟨rfl, -⟩ := List.cons.inj (List.cons.inj heq).2
          simp [escapeLetters] at hletter
  | codePoint hsign hne hvalues hcode =>
      cases h' with
      | plain hd => exact absurd (List.cons.inj heq).1.symm hd
      | letter hother =>
          obtain ⟨rfl, -⟩ := List.cons.inj (List.cons.inj heq).2
          simp [escapeLetters] at hother
      | codePoint hsign' hne' hvalues' hcode' =>
          -- The words end where the reader goes on, and it goes on at one place.
          have hread := codePoint_of_item hsign hne hvalues hcode rest
          have hother := codePoint_of_item hsign' hne' hvalues' hcode' behind
          have htext := heq
          simp only [List.append_assoc, List.cons_append, List.nil_append, List.cons.injEq,
            true_and] at htext hread hother
          rw [htext, hother] at hread
          cases hread
          exact ⟨List.append_cancel_right heq, rfl⟩

theorem Items.unique {items others : List (List Char × Char)} (h : Items accepted items)
    (hothers : Items accepted others) (heq : items.flatMap Prod.fst = others.flatMap Prod.fst) :
    items = others := by
  have hne : ∀ {word : List Char} {c : Char}, Item accepted word c → word ≠ [] := by
    intro word c hitem
    cases hitem <;> simp
  induction items generalizing others with
  | nil =>
      cases others with
      | nil => rfl
      | cons other others =>
          have hempty := (List.append_eq_nil_iff.mp heq.symm).1
          exact absurd hempty (hne (hothers other List.mem_cons_self))
  | cons item rest ih =>
      obtain ⟨hitem, hrest⟩ := List.forall_mem_cons.mp h
      cases others with
      | nil => exact absurd (List.append_eq_nil_iff.mp heq).1 (hne hitem)
      | cons other others =>
          obtain ⟨hother, hbehind⟩ := List.forall_mem_cons.mp hothers
          obtain ⟨hword, hc⟩ := hitem.unique hother heq
          have hsame : item = other := Prod.ext hword hc
          subst hsame
          rw [ih hrest hbehind (List.append_cancel_left heq)]

/-! ## The documented items -/

theorem Item.accepted_of_documented {word : List Char} {c : Char} (h : Item documented word c) :
    Item accepted word c := by
  cases h with
  | plain hc => exact .plain hc
  | letter h => exact .letter h
  | codePoint hsign hne hvalues hcode =>
      obtain rfl := List.mem_singleton.mp hsign
      exact .codePoint List.mem_cons_self hne hvalues hcode

/-- An item is documented exactly if it has no sign. -/
theorem Item.documented_iff {word : List Char} {c : Char} (h : Item accepted word c) :
    Item documented word c ↔ ¬['\\', 'u', '\x7b', '+'] <+: word := by
  constructor
  · rintro hitem ⟨rest, hword⟩
    cases hitem with
    | plain | letter => simp at hword
    | @codePoint _ _ digits values hsign hne hvalues _ =>
        obtain rfl := List.mem_singleton.mp hsign
        obtain ⟨d, more, rfl⟩ := List.exists_cons_of_ne_nil hne
        obtain ⟨rfl, -⟩ : '+' = d ∧ rest = more ++ ['\x7d'] := by simpa using hword
        exact notMem_of_isHexDigit hvalues rfl List.mem_cons_self
  · intro hsign
    cases h with
    | plain hc => exact .plain hc
    | letter hletter => exact .letter hletter
    | @codePoint _ sign digits values haccepted hne hvalues hcode =>
        rcases (by simpa [accepted] using haccepted : sign = [] ∨ sign = ['+']) with rfl | rfl
        · exact .codePoint List.mem_cons_self hne hvalues hcode
        · exact absurd ⟨digits ++ ['\x7d'], by simp⟩ hsign

theorem denotes_documented_iff {body text : List Char} :
    Denotes documented body text ↔ Denotes accepted body text ∧ ¬Signed body := by
  constructor
  · rintro ⟨items, hitems, rfl, rfl⟩
    have haccepted : Items accepted items := fun item hmem => (hitems item hmem).accepted_of_documented
    refine ⟨⟨items, haccepted, rfl, rfl⟩, ?_⟩
    -- A sign could still be seen in another row of items, but there is no other one.
    rintro ⟨others, hothers, hbody, item, hmem, hsign⟩
    obtain rfl := haccepted.unique hothers hbody.symm
    exact (haccepted item hmem).documented_iff.mp (hitems item hmem) hsign
  · rintro ⟨⟨items, hitems, rfl, rfl⟩, hsigned⟩
    refine ⟨items, ?_, rfl, rfl⟩
    intro item hmem
    refine (hitems item hmem).documented_iff.mpr ?_
    intro hsign
    exact hsigned ⟨items, hitems, rfl, item, hmem, hsign⟩

end Quoted

namespace Reader

/-! ## String tokens -/

theorem error_of_map {α β : Type} {f : α → β} {result : Except Flaw α} {flaw : Flaw}
    (h : f <$> result = .error flaw) : result = .error flaw := by
  cases result with
  | ok a => cases h
  | error other =>
      cases h
      rfl

theorem flaw_of_mapEntries {items : List Value} {flaw : Flaw} (h : mapEntries items = .error flaw) :
    flaw = .oddMapLiteral ∨ ∃ found, flaw = .badMapKey found := by
  fun_induction mapEntries items with
  | case1 => cases h
  | case2 =>
      cases h
      exact .inl rfl
  | case3 key value rest ih => exact ih (error_of_map h)
  | case4 name value rest ih => exact ih (error_of_map h)
  | case5 =>
      cases h
      exact .inr ⟨_, rfl⟩

/-- What is wrong with brackets is wrong with the entries of a map. -/
theorem flaw_of_closeForm {delimiter : Delimiter} {items : List Value} {flaw : Flaw}
    (h : closeForm delimiter items = .error flaw) :
    flaw = .oddMapLiteral ∨ ∃ found, flaw = .badMapKey found := by
  cases delimiter with
  | paren | bracket => cases h
  | brace =>
      simp only [closeForm] at h
      split at h
      · cases h
        exact .inl rfl
      · exact flaw_of_mapEntries (error_of_map h)

theorem text_of_badEscape {progress : Progress} {token : Token} {escape : String}
    {position : Position} (h : progress.step token = .error ⟨.badEscape escape, position⟩) :
    ∃ body, token = ⟨.text body, position⟩ ∧ Quoted.decode body = .error escape := by
  rcases token with ⟨lexeme, place⟩
  cases lexeme with
  | text body =>
      simp only [Progress.step, textForm] at h
      split at h
      · cases h
      · next flaw hform =>
          split at hform
          · cases hform
          · next hdecode =>
              cases hform
              cases h
              exact ⟨body, rfl, hdecode⟩
  | number digits =>
      simp only [Progress.step, numberForm] at h
      split at h
      · cases h
      · next flaw hform =>
          split at hform <;> cases hform
          cases h
  | closing delimiter =>
      simp only [Progress.step] at h
      split at h
      · split at h
        · split at h
          · cases h
          · next flaw hclose =>
              cases h
              rcases flaw_of_closeForm hclose with hflaw | ⟨found, hflaw⟩ <;> cases hflaw
        · cases h
      · cases h
  | opening | quoteMark | openText | key | symbol => cases h

/-- Where a row fails with a bad escape, all tokens in front of a string token are read, and the text
between its quotes is not. -/
theorem exists_text_of_fails {progress : Progress} {row : List Token} {n : Nat} {escape : String}
    {position : Position} (h : Fails progress row n ⟨.badEscape escape, position⟩) :
    ∃ (front : List Token) (body : List Char) (behind : List Token) (next : Progress),
      row = front ++ ⟨.text body, position⟩ :: behind ∧
      front.foldlM Progress.step progress = .ok next ∧ Quoted.decode body = .error escape := by
  generalize herror : Error.mk (.badEscape escape) position = error at h
  induction h with
  | @finish progress _ h =>
      subst herror
      rcases progress with ⟨_ | ⟨⟨_ | _, place⟩, rest⟩, forms⟩ <;> cases h
  | token rest h =>
      subst herror
      obtain ⟨body, rfl, hdecode⟩ := text_of_badEscape h
      exact ⟨[], body, rest, _, rfl, rfl, hdecode⟩
  | @later _ _ token _ _ _ hstep _ ih =>
      obtain ⟨front, body, behind, last, rfl, hfold, hdecode⟩ := ih herror
      refine ⟨token :: front, body, behind, last, rfl, ?_, hdecode⟩
      rw [List.foldlM_cons, hstep]
      exact hfold

theorem step_text {progress : Progress} {body text : List Char} (position : Position)
    (h : Quoted.decode body = .ok text) :
    progress.step ⟨.text body, position⟩ = .ok (progress.add (.text (String.ofList text))) := by
  simp only [Progress.step, textForm, h]

theorem step_badEscape (progress : Progress) {body : List Char} {escape : String}
    (position : Position) (h : Quoted.decode body = .error escape) :
    progress.step ⟨.text body, position⟩ = .error ⟨.badEscape escape, position⟩ := by
  simp only [Progress.step, textForm, h]

/-- String tokens are read as what the items between their quotes denote.

Where all tokens in front are read, a string token whose text is a row of items gives the text that they
denote; any other one is a bad escape at the place of the token.  A bad escape is reported for no other
reason, whether all forms are asked for or one.  A text is taken apart into items in one way only.  The
items are the documented ones and, besides, code points with a plus sign in front of the digits. -/
theorem readAll_escapes (source : String) :
    (∀ (front : List Token) (body : List Char) (position : Position) (behind : List Token)
        (progress : Progress),
      tokens source = .ok (front ++ ⟨.text body, position⟩ :: behind) →
      front.foldlM Progress.step .start = .ok progress →
        (∀ text, Quoted.Denotes Quoted.accepted body text →
          progress.step ⟨.text body, position⟩ =
            .ok (progress.add (.text (String.ofList text)))) ∧
        ((¬∃ text, Quoted.Denotes Quoted.accepted body text) →
          ∃ escape, readAll source = .error ⟨.badEscape escape, position⟩ ∧
            (progress.forms = [] → readOne source = .error ⟨.badEscape escape, position⟩))) ∧
    (∀ escape position,
      readAll source = .error ⟨.badEscape escape, position⟩ ∨
        readOne source = .error ⟨.badEscape escape, position⟩ →
      ∃ (front : List Token) (body : List Char) (behind : List Token) (progress : Progress),
        tokens source = .ok (front ++ ⟨.text body, position⟩ :: behind) ∧
          front.foldlM Progress.step .start = .ok progress ∧
            ¬∃ text, Quoted.Denotes Quoted.accepted body text) ∧
    (∀ items others, Quoted.Items Quoted.accepted items → Quoted.Items Quoted.accepted others →
      items.flatMap Prod.fst = others.flatMap Prod.fst → items = others) ∧
    ∀ body text, Quoted.Denotes Quoted.documented body text ↔
      Quoted.Denotes Quoted.accepted body text ∧ ¬Quoted.Signed body := by
  have hundenoted : ∀ body, (¬∃ text, Quoted.Denotes Quoted.accepted body text) ↔
      ∃ escape, Quoted.decode body = .error escape := by
    intro body
    simp only [← Quoted.decode_eq_ok_iff]
    cases Quoted.decode body <;> simp
  refine ⟨?_, ?_, ?_, ?_⟩
  · intro front body position behind progress hrow hfront
    constructor
    · intro text htext
      exact step_text position (Quoted.decode_eq_ok_iff.mpr htext)
    · intro hnone
      obtain ⟨escape, hescape⟩ := (hundenoted body).mp hnone
      have hstep := step_badEscape progress position hescape
      have hfails := Fails.append hfront (.token behind hstep)
      refine ⟨escape, ?_, ?_⟩
      · rw [readAll_of_tokens_ok hrow]
        exact exists_fails_iff.mpr ⟨_, hfails⟩
      · intro hfirst
        rw [hfirst] at hfails
        exact readOne_of_fails hrow hfails
  · intro escape position hread
    cases htokens : tokens source with
    | error stuck =>
        -- A text that is not cut into tokens is not cut at some character, which is no escape.
        obtain ⟨-, _, c, _, -, -, hflaw, -⟩ := stuck_of_tokens htokens
        have herror : stuck = ⟨.badEscape escape, position⟩ := by
          rw [readAll, readOne, htokens] at hread
          exact hread.elim Except.error.inj Except.error.inj
        rw [herror] at hflaw
        cases hflaw
    | ok row =>
        obtain ⟨n, hfails⟩ : ∃ n, Fails .start row n ⟨.badEscape escape, position⟩ := by
          rcases hread with hall | hone
          · rw [readAll_of_tokens_ok htokens] at hall
            exact exists_fails_iff.mp hall
          · rcases fails_of_readOne htokens hone with hflaw | hfails
            · cases hflaw
            · exact ⟨0, hfails⟩
        obtain ⟨front, body, behind, progress, rfl, hfront, hescape⟩ := exists_text_of_fails hfails
        exact ⟨front, body, behind, progress, rfl, hfront, (hundenoted body).mpr ⟨_, hescape⟩⟩
  · intro items others hitems hothers hbody
    exact hitems.unique hothers hbody
  · intro body text
    exact Quoted.denotes_documented_iff

/-- A brace behind an escape, and the code point of a surrogate. -/
theorem readAll_escapes_surrogate :
    (Progress.mk [(.delimiter .paren [], ⟨1, 1, 0⟩)] []).step
        ⟨.text ['\\', 'u', '\x7b', 'e', '9', '\x7d', '\x7d'], ⟨1, 2, 1⟩⟩ =
      .ok (.add ⟨[(.delimiter .paren [], ⟨1, 1, 0⟩)], []⟩ (.text "é\x7d")) ∧
    ∃ escape,
      readAll "(\x22\\u\x7be9\x7d\x7d\x22 \x22\\u\x7bd800\x7d\x22" =
          .error ⟨.badEscape escape, ⟨1, 12, 11⟩⟩ ∧
        ∃ (front : List Token) (body : List Char) (behind : List Token) (progress : Progress),
          tokens "(\x22\\u\x7be9\x7d\x7d\x22 \x22\\u\x7bd800\x7d\x22" =
              .ok (front ++ ⟨.text body, ⟨1, 12, 11⟩⟩ :: behind) ∧
            front.foldlM Progress.step .start = .ok progress ∧
              ¬∃ text, Quoted.Denotes Quoted.accepted body text := by
  have htokens : tokens "(\x22\\u\x7be9\x7d\x7d\x22 \x22\\u\x7bd800\x7d\x22" =
      .ok [⟨.opening .paren, ⟨1, 1, 0⟩⟩,
        ⟨.text ['\\', 'u', '\x7b', 'e', '9', '\x7d', '\x7d'], ⟨1, 2, 1⟩⟩,
        ⟨.text ['\\', 'u', '\x7b', 'd', '8', '0', '0', '\x7d'], ⟨1, 12, 11⟩⟩] := by
    cbv
  have hvalues : List.Forall₂ Quoted.IsHexDigit ['e', '9'] [14, 9] :=
    .cons (.inl rfl) (.cons (.inl rfl) .nil)
  have hitem : Quoted.Item Quoted.accepted (['\\', 'u', '\x7b'] ++ ([] ++ ['e', '9']) ++ ['\x7d'])
      'é' := .codePoint (by decide) (by decide) hvalues (by decide)
  have hdenotes : Quoted.Denotes Quoted.accepted ['\\', 'u', '\x7b', 'e', '9', '\x7d', '\x7d']
      ['é', '\x7d'] :=
    .cons hitem (.cons (.plain (by decide)) ⟨[], by simp [Quoted.Items], rfl, rfl⟩)
  have hnone : ¬∃ text, Quoted.Denotes Quoted.accepted
      ['\\', 'u', '\x7b', 'd', '8', '0', '0', '\x7d'] text := by
    rintro ⟨text, htext⟩
    have hdecode := Quoted.decode_eq_ok_iff.mpr htext
    rw [Quoted.decode] at hdecode
    split at hdecode
    · cases hdecode
    · next hcode => cases hcode
  have hescapes := readAll_escapes "(\x22\\u\x7be9\x7d\x7d\x22 \x22\\u\x7bd800\x7d\x22"
  have hstep := (hescapes.1 [⟨.opening .paren, ⟨1, 1, 0⟩⟩] _ _ _ _ htokens rfl).1 _ hdenotes
  have hfront : [⟨.opening .paren, ⟨1, 1, 0⟩⟩,
      ⟨.text ['\\', 'u', '\x7b', 'e', '9', '\x7d', '\x7d'], ⟨1, 2, 1⟩⟩].foldlM Progress.step .start =
        .ok ⟨[(.delimiter .paren [.text "é\x7d"], ⟨1, 1, 0⟩)], []⟩ := by
    exact congrArg (· >>= pure) hstep
  obtain ⟨escape, hread, -⟩ := (hescapes.1 _ _ _ [] _ htokens hfront).2 hnone
  exact ⟨hstep, escape, hread, hescapes.2.1 escape _ (.inl hread)⟩

/-- The plus sign of a code point is not documented, but it is read. -/
theorem reads_signed_codePoint :
    tokens "\x22\\u\x7b+41\x7d\x22" =
        .ok [⟨.text ['\\', 'u', '\x7b', '+', '4', '1', '\x7d'], .start⟩] ∧
      readAll "\x22\\u\x7b+41\x7d\x22" = .ok [.text "A"] ∧
      ¬∃ text, Quoted.Denotes Quoted.documented ['\\', 'u', '\x7b', '+', '4', '1', '\x7d'] text := by
  have hvalues : List.Forall₂ Quoted.IsHexDigit ['4', '1'] [4, 1] :=
    .cons (.inl rfl) (.cons (.inl rfl) .nil)
  have hitem : Quoted.Item Quoted.accepted (['\\', 'u', '\x7b'] ++ (['+'] ++ ['4', '1']) ++ ['\x7d'])
      'A' := .codePoint (by decide) (by decide) hvalues (by decide)
  have hitems : Quoted.Items Quoted.accepted
      [(['\\', 'u', '\x7b'] ++ (['+'] ++ ['4', '1']) ++ ['\x7d'], 'A')] := by
    simpa [Quoted.Items] using hitem
  have htokens : tokens "\x22\\u\x7b+41\x7d\x22" =
      .ok [⟨.text ['\\', 'u', '\x7b', '+', '4', '1', '\x7d'], .start⟩] := by
    cbv
  have hstep := ((readAll_escapes _).1 [] _ _ [] _ htokens rfl).1 _ ⟨_, hitems, rfl, rfl⟩
  refine ⟨htokens, ?_, ?_⟩
  · rw [readAll, htokens]
    exact congrArg (fun progress => (progress >>= pure) >>= Progress.finish) hstep
  · rintro ⟨text, htext⟩
    exact (Quoted.denotes_documented_iff.mp htext).2 ⟨_, hitems, rfl, _, List.mem_cons_self,
      ⟨['4', '1', '\x7d'], rfl⟩⟩

end Reader
end LazyLisp
