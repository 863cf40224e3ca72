import LazyLisp.Decimal.Text
import LazyLisp.Reader.Tokens
import Mathlib.Algebra.Group.Nat.Defs
import Mathlib.Data.List.TakeDrop
import Mathlib.Data.List.TakeWhile
import Mathlib.Tactic

/-!
# Numeral — number tokens denote numbers

A number token is digits, with at most one point among them and at most a minus sign in front.  Such
a text denotes a number, unless it has so many digits behind the point that their count is out of
range.

Main results:

* `Reader.ofString?_isSome`: a numeral shorter than `2 ^ 63` characters denotes a number;
* `Reader.isSome_of_number_mem`: so do all number tokens of a source text shorter than that.
-/

namespace LazyLisp

/-! ## Integers -/

namespace Decimal

theorem digitsValue?_isSome {digits : List Char} (h : ∀ c ∈ digits, c.isDigit = true)
    (value : Nat) : (digitsValue? value digits).isSome := by
  induction digits generalizing value with
  | nil => rfl
  | cons c rest ih =>
      have hc := h c List.mem_cons_self
      have hrest := ih fun c hc => h c (List.mem_cons_of_mem _ hc)
      by_cases hscore : c = '_' <;> simp [digitsValue?, hscore, hc, hrest]

theorem natural?_isSome {digits : List Char} (hne : digits ≠ [])
    (h : ∀ c ∈ digits, c.isDigit = true) : (natural? digits).isSome := by
  cases digits with
  | nil => exact absurd rfl hne
  | cons c rest =>
      have hvalue := digitsValue?_isSome h 0
      simp [natural?, h c List.mem_cons_self, hvalue]

/-- Digits with at most a minus sign in front denote an integer. -/
theorem integer?_isSome {sign digits : List Char} (hsign : sign = [] ∨ sign = ['-'])
    (hne : digits ≠ []) (h : ∀ c ∈ digits, c.isDigit = true) :
    (integer? (sign ++ digits)).isSome := by
  rcases Option.isSome_iff_exists.mp (natural?_isSome hne h) with ⟨n, hn⟩
  rcases hsign with rfl | rfl
  · -- A digit is not a sign, so the last branch is taken.
    unfold integer?
    split
    · next heq =>
        have hminus := h '-' (by simp_all)
        simp at hminus
    · next heq =>
        have hplus := h '+' (by simp_all)
        simp at hplus
    · simp [hn]
  · simp [integer?, hn]

/-! ## Mantissas -/

theorem all_ne {c : Char} {text : List Char} (h : c ∉ text) :
    ∀ other ∈ text, decide (other ≠ c) = true := by
  intro other hother
  simpa using fun heq : other = c => h (heq ▸ hother)

theorem splitPoint_of_not_mem {mantissa : List Char} (h : '.' ∉ mantissa) :
    splitPoint mantissa = (mantissa, 0) := by
  have hspan : mantissa.span (· ≠ '.') = (mantissa, []) := by
    rw [List.span_eq_takeWhile_dropWhile, List.takeWhile_eq_self_iff.mpr (all_ne h),
      List.dropWhile_eq_nil_iff.mpr (all_ne h)]
  rw [splitPoint, hspan]

theorem splitPoint_append {whole : List Char} (h : '.' ∉ whole) (fraction : List Char) :
    splitPoint (whole ++ '.' :: fraction) = (whole ++ fraction, fraction.countP (· ≠ '_')) := by
  have hspan : (whole ++ '.' :: fraction).span (· ≠ '.') = (whole, '.' :: fraction) := by
    rw [List.span_eq_takeWhile_dropWhile, List.takeWhile_append_of_pos (all_ne h),
      List.dropWhile_append_of_pos (all_ne h)]
    simp
  rw [splitPoint, hspan]

/-- A mantissa denotes the number that its digits denote, moved behind the point, as long as there
are not too many places. -/
theorem ofString?_of_splitPoint {mantissa digits : List Char} {places : Nat} {coefficient : Int}
    (hexponent : 'e' ∉ mantissa ∧ 'E' ∉ mantissa)
    (hsplit : splitPoint mantissa = (digits, places)) (hdigits : integer? digits = some coefficient)
    (hplaces : places < 2 ^ 63) :
    ofString? (String.ofList mantissa) = some ⟨coefficient, places⟩ := by
  have hall : ∀ c ∈ mantissa, (decide (c ≠ 'e') && decide (c ≠ 'E')) = true := by
    intro c hc
    rw [all_ne hexponent.1 c hc, all_ne hexponent.2 c hc]
    rfl
  have hspan : mantissa.span (fun c => c ≠ 'e' && c ≠ 'E') = (mantissa, []) := by
    rw [List.span_eq_takeWhile_dropWhile, List.takeWhile_eq_self_iff.mpr hall,
      List.dropWhile_eq_nil_iff.mpr hall]
  have hfits : fits64 places = true := by
    simp only [fits64, Bool.and_eq_true, decide_eq_true_eq]
    omega
  rw [ofString?, String.toList_ofList, hspan]
  simp [hsplit, hdigits, hfits]

/-- A mantissa denotes a number if its digits do, as long as there are not too many behind the
point. -/
theorem ofString?_isSome {mantissa digits : List Char} {places : Nat}
    (hexponent : 'e' ∉ mantissa ∧ 'E' ∉ mantissa)
    (hsplit : splitPoint mantissa = (digits, places)) (hdigits : (integer? digits).isSome)
    (hplaces : places < 2 ^ 63) : (ofString? (String.ofList mantissa)).isSome := by
  rcases Option.isSome_iff_exists.mp hdigits with ⟨coefficient, hcoefficient⟩
  rw [ofString?_of_splitPoint hexponent hsplit hcoefficient hplaces, Option.isSome_some]

end Decimal

namespace Reader

/-! ## Numerals -/

theorem exists_of_isUnsignedNumeral {text : List Char} (h : isUnsignedNumeral text = true) :
    ∃ whole fraction, whole ≠ [] ∧ (∀ c ∈ whole ++ fraction, c.isDigit = true) ∧
      (text = whole ∧ fraction = [] ∨ text = whole ++ '.' :: fraction) := by
  have hsplit := List.takeWhile_append_dropWhile (p := Char.isDigit) (l := text)
  have hwhole : ∀ c ∈ text.takeWhile Char.isDigit, c.isDigit = true :=
    fun c hc => List.mem_takeWhile_imp hc
  simp only [isUnsignedNumeral, Bool.and_eq_true, Bool.not_eq_true', List.isEmpty_eq_false_iff] at h
  rcases h with ⟨hne, hrest⟩
  split at hrest
  · next hnil =>
      rw [hnil, List.append_nil] at hsplit
      exact ⟨_, [], hne, by simpa using hwhole, .inl ⟨hsplit.symm, rfl⟩⟩
  · next fraction hpoint =>
      rw [hpoint] at hsplit
      simp only [Bool.and_eq_true, List.all_eq_true] at hrest
      refine ⟨_, fraction, hne, ?_, .inr hsplit.symm⟩
      intro c hc
      rcases List.mem_append.mp hc with hc | hc
      · exact hwhole c hc
      · exact hrest.2 c hc
  · cases hrest

theorem exists_of_isNumeral {word : List Char} (h : isNumeral word = true) :
    ∃ sign text, (sign = [] ∨ sign = ['-']) ∧ word = sign ++ text ∧
      isUnsignedNumeral text = true := by
  unfold isNumeral at h
  split at h
  · exact ⟨['-'], _, .inr rfl, rfl, h⟩
  · exact ⟨[], word, .inl rfl, rfl, h⟩

/-- A numeral denotes a number, unless it has too many digits behind the point. -/
theorem ofString?_isSome {word : List Char} (h : isNumeral word = true)
    (hlength : word.length < 2 ^ 63) : (Decimal.ofString? (String.ofList word)).isSome := by
  rcases exists_of_isNumeral h with ⟨sign, text, hsign, rfl, htext⟩
  rcases exists_of_isUnsignedNumeral htext with ⟨whole, fraction, hne, hdigit, hparts⟩
  have hinteger : (Decimal.integer? (sign ++ (whole ++ fraction))).isSome :=
    Decimal.integer?_isSome hsign (by simp [hne]) hdigit
  -- Neither the point nor a letter of an exponent is a sign or a digit.
  have hmem : ∀ c ∈ sign ++ (whole ++ fraction), c = '-' ∨ c.isDigit = true := by
    intro c hc
    rcases List.mem_append.mp hc with hc | hc
    · rcases hsign with rfl | rfl
      · cases hc
      · exact .inl (List.mem_singleton.mp hc)
    · exact .inr (hdigit c hc)
  have hpoint : '.' ∉ sign ++ (whole ++ fraction) := fun hc => by simpa using hmem _ hc
  have hlower : 'e' ∉ sign ++ (whole ++ fraction) := fun hc => by simpa using hmem _ hc
  have hupper : 'E' ∉ sign ++ (whole ++ fraction) := fun hc => by simpa using hmem _ hc
  rcases hparts with ⟨rfl, rfl⟩ | rfl
  · rw [List.append_nil] at *
    exact Decimal.ofString?_isSome ⟨hlower, hupper⟩ (Decimal.splitPoint_of_not_mem hpoint) hinteger
      (by omega)
  · have hwhole : '.' ∉ sign ++ whole := by simp_all
    have hsplit := Decimal.splitPoint_append hwhole fraction
    have hcount : fraction.countP (· ≠ '_') ≤ fraction.length := List.countP_le_length
    rw [List.append_assoc, List.append_assoc] at hsplit
    refine Decimal.ofString?_isSome ⟨?_, ?_⟩ hsplit hinteger ?_
    · simpa using hlower
    · simpa using hupper
    · simp at hlength
      omega

/-! ## Number tokens -/

theorem isNumeral_of_ofWord {word digits : List Char} (h : Lexeme.ofWord word = .number digits) :
    isNumeral digits = true := by
  unfold Lexeme.ofWord at h
  split at h
  · next hword =>
      cases h
      exact hword
  · cases h

theorem isNumeral_of_scan? {text rest digits : List Char}
    (h : Lexeme.scan? text = some (.number digits, rest)) : isNumeral digits = true := by
  unfold Lexeme.scan? at h
  split at h
  case h_9 body =>
      simp only [Option.some.injEq, scanText] at h
      split at h <;> cases h
  case h_10 =>
      split at h <;> cases h
  case h_11 =>
      split at h
      · exact isNumeral_of_ofWord (congrArg Prod.fst (Option.some.inj h))
      · cases h
  all_goals cases h

/-- Every token was scanned at the head of some end of the text. -/
theorem exists_scan?_of_mem {position : Position} {text : List Char} {row : List Token}
    (h : tokensFrom position text = .ok row) {token : Token} (hmem : token ∈ row) :
    ∃ ending rest, ending <:+ text ∧ Lexeme.scan? ending = some (token.lexeme, rest) := by
  fun_induction tokensFrom position text generalizing row with
  | case1 =>
      cases h
      cases hmem
  | case2 position c rest hseparator ih =>
      rcases ih h hmem with ⟨ending, after, hsuffix, hscan⟩
      exact ⟨ending, after, hsuffix.trans (List.suffix_cons c rest), hscan⟩
  | case3 position rest hlength hseparator ih =>
      rcases ih h hmem with ⟨ending, after, hsuffix, hscan⟩
      have hskip : skipComment rest <:+ ';' :: rest :=
        (List.dropWhile_suffix _).trans (List.suffix_cons ';' rest)
      exact ⟨ending, after, hsuffix.trans hskip, hscan⟩
  | case4 => cases h
  | case5 position c rest hseparator hcomment lexeme after hscan hlength ih =>
      cases hafter : tokensFrom (position.advanceBy lexeme.chars) after with
      | error error => simp [hafter] at h
      | ok others =>
          simp only [hafter, Except.map_ok, Except.ok.injEq] at h
          subst h
          rcases List.mem_cons.mp hmem with rfl | hmem
          · exact ⟨_, after, List.suffix_rfl, hscan⟩
          · rcases ih hafter hmem with ⟨ending, rest', hsuffix, hscan'⟩
            have hsplit : after <:+ c :: rest := ⟨_, Lexeme.scan?_chars hscan⟩
            exact ⟨ending, rest', hsuffix.trans hsplit, hscan'⟩

/-- The number tokens of a source text denote numbers. -/
theorem isSome_of_number_mem {source : String} {row : List Token}
    (hlength : source.length < 2 ^ 63) (h : tokens source = .ok row) {digits : List Char}
    {position : Position} (hmem : ⟨.number digits, position⟩ ∈ row) :
    (Decimal.ofString? (String.ofList digits)).isSome := by
  rcases exists_scan?_of_mem h hmem with ⟨ending, rest, hsuffix, hscan⟩
  have hending : ending.length ≤ source.length := by
    simpa [String.length_toList] using hsuffix.length_le
  have hdigits : digits.length ≤ ending.length := by
    simp [← Lexeme.scan?_chars hscan, Lexeme.chars]
  exact ofString?_isSome (isNumeral_of_scan? hscan) (by omega)

end Reader
end LazyLisp
