import LazyLisp.Proofs.Decimal.Rational
import LazyLisp.Proofs.Reader.Pattern
import Mathlib.Data.Nat.Log

/-!
# Decimal text — what is written reads back

Plain positional notation leaves out what says nothing: zeros in front of a number, zeros behind the
point, and the point of a whole number.  The text of a decimal is therefore a numeral, and it reads
as the same number, though often as another pair of coefficient and scale.  This file defines
`positional`, the notation by its two halves.

Main results:

* `Decimal.digitsValue?_numeral`: the digits of a natural number are read as that number;
* `Decimal.isNumeral_render`: the text of a decimal is one number token;
* `Decimal.ofString?_render`: it reads as the same number.
-/

namespace LazyLisp
namespace Decimal

/-! ## Equal numbers -/

/-- Decimals that agree after their coefficients are extended by zeros stand for one number. -/
theorem equal_of_scaled {a b : Decimal} {j k : Nat}
    (hcoefficient : a.coefficient * tenTo j = b.coefficient * tenTo k)
    (hscale : a.scale + j = b.scale + k) : a.equal b = true := by
  have hextend : ∀ (c : Decimal) (n : Nat),
      c.toRat = (c.coefficient * tenTo n : ℤ) * 10 ^ (-(c.scale + n)) := by
    intro c n
    have hplaces : -c.scale = n + -(c.scale + n) := by ring
    rw [toRat, hplaces, ten_zpow_add, Int.cast_mul, cast_tenTo, mul_assoc]
  rw [equal_iff, hextend a j, hextend b k, hcoefficient, hscale]

/-! ## Digits -/

theorem digitsValue?_append (value : Nat) (digits more : List Char) :
    digitsValue? value (digits ++ more) =
      (digitsValue? value digits).bind fun value => digitsValue? value more := by
  induction digits generalizing value with
  | nil => rfl
  | cons c rest ih =>
      simp only [List.cons_append, digitsValue?, ih]
      split
      · rfl
      · split <;> rfl

theorem digitsValue?_digitChar {d : Nat} (h : d < 10) (value : Nat) :
    digitsValue? value [Nat.digitChar d] = some (10 * value + d) := by
  have hdigit : Nat.digitChar d ≠ '_' ∧ (Nat.digitChar d).isDigit = true ∧
      (Nat.digitChar d).toNat - '0'.toNat = d := by
    revert d
    decide
  rw [digitsValue?, if_neg hdigit.1, if_pos hdigit.2.1, hdigit.2.2, digitsValue?]

/-- Zeros make a number ten times as large, each of them. -/
theorem digitsValue?_zeros (value count : Nat) :
    digitsValue? value (List.replicate count '0') = some (value * tenTo count) := by
  induction count generalizing value with
  | zero => simp [digitsValue?, tenTo]
  | succ count ih =>
      have hzero : digitsValue? value [Nat.digitChar 0] = some (10 * value + 0) :=
        digitsValue?_digitChar (by decide) value
      have hsplit : List.replicate (count + 1) '0' = [Nat.digitChar 0] ++ List.replicate count '0' :=
        rfl
      rw [hsplit, digitsValue?_append, hzero, Option.bind_some, ih]
      simp only [tenTo, Nat.pow_eq, Nat.pow_succ, Option.some.injEq]
      ring

theorem digitsValue?_dropWhile (digits : List Char) :
    digitsValue? 0 (digits.dropWhile (· = '0')) = digitsValue? 0 digits := by
  induction digits with
  | nil => rfl
  | cons c rest ih =>
      by_cases hc : c = '0'
      · subst hc
        simpa [digitsValue?] using ih
      · simp [hc]

theorem paddedDigits_zero (n : Nat) : paddedDigits 0 n = [Nat.digitChar (n % 10)] := rfl

theorem paddedDigits_succ (level n : Nat) :
    paddedDigits (level + 1) n =
      paddedDigits level (n / tenTo (2 ^ level)) ++ paddedDigits level (n % tenTo (2 ^ level)) := rfl

theorem digitsValue?_paddedDigits (level n value : Nat) :
    digitsValue? value (paddedDigits level n) =
      some (value * tenTo (2 ^ level) + n % tenTo (2 ^ level)) := by
  induction level generalizing n value with
  | zero =>
      rw [paddedDigits_zero, digitsValue?_digitChar (Nat.mod_lt n (by decide))]
      simp only [tenTo, Nat.pow_eq, Nat.pow_zero, Nat.pow_one]
      rw [Nat.mul_comm]
  | succ level ih =>
      have hblock : tenTo (2 ^ (level + 1)) = tenTo (2 ^ level) * tenTo (2 ^ level) := by
        simp only [tenTo, Nat.pow_eq]
        rw [← Nat.pow_add, Nat.pow_succ, Nat.mul_two]
      rw [paddedDigits_succ, digitsValue?_append, ih, Option.bind_some, ih, Nat.mod_mod, hblock,
        Nat.mod_mul]
      simp only [Option.some.injEq]
      ring

theorem isDigit_of_mem_paddedDigits {level n : Nat} {c : Char} (h : c ∈ paddedDigits level n) :
    c.isDigit = true := by
  induction level generalizing n with
  | zero =>
      rw [paddedDigits_zero, List.mem_singleton] at h
      have hdigit : ∀ d < 10, (Nat.digitChar d).isDigit = true := by decide
      exact h ▸ hdigit _ (Nat.mod_lt n (by decide))
  | succ level ih =>
      rcases List.mem_append.mp h with h | h
      · exact ih h
      · exact ih h

/-- As many digits as are written are enough. -/
theorem lt_tenTo_digitLevel (n : Nat) : n < tenTo (2 ^ digitLevel n) := by
  have hbits : n.log2 < 2 ^ digitLevel n := Nat.lt_log2_self
  calc
    n < 2 ^ (n.log2 + 1) := Nat.lt_log2_self
    _ ≤ 2 ^ 2 ^ digitLevel n := Nat.pow_le_pow_right (by decide) hbits
    _ ≤ 10 ^ 2 ^ digitLevel n := Nat.pow_le_pow_left (by decide) _

theorem isDigit_of_mem_numeral {n : Nat} {c : Char} (h : c ∈ numeral n) : c.isDigit = true := by
  unfold numeral at h
  split at h
  · rw [List.mem_singleton] at h
    exact h ▸ rfl
  · exact isDigit_of_mem_paddedDigits ((List.dropWhile_sublist _).mem h)

theorem isDigit_of_mem_zeros {count : Nat} {c : Char} (h : c ∈ List.replicate count '0') :
    c.isDigit = true := by
  rw [List.eq_of_mem_replicate h]
  rfl

/-- The digits of a natural number are read as that number. -/
theorem digitsValue?_numeral (n : Nat) : digitsValue? 0 (numeral n) = some n := by
  have hpadded : digitsValue? 0 (paddedDigits (digitLevel n) n) = some n := by
    rw [digitsValue?_paddedDigits, Nat.mod_eq_of_lt (lt_tenTo_digitLevel n), Nat.zero_mul,
      Nat.zero_add]
  have hstripped := (digitsValue?_dropWhile _).trans hpadded
  unfold numeral
  split
  · next hnil =>
      rw [hnil] at hstripped
      cases Option.some.inj hstripped
      rfl
  · exact hstripped

theorem numeral_ne_nil (n : Nat) : numeral n ≠ [] := by
  unfold numeral
  split
  · exact List.cons_ne_nil _ _
  · next hne => exact hne

/-! ## Positional notation -/

/-- A number by the digits in front of the point and behind it; the point goes with the latter. -/
def positional (whole fraction : List Char) : List Char :=
  match fraction with
  | [] => whole
  | fraction => whole ++ '.' :: fraction

theorem trimZeros_append (digits : List Char) :
    ∃ count, digits = trimZeros digits ++ List.replicate count '0' := by
  have hsplit := List.takeWhile_append_dropWhile (p := fun c => decide (c = '0'))
    (l := digits.reverse)
  have hzeros : digits.reverse.takeWhile (fun c => decide (c = '0')) =
      List.replicate (digits.reverse.takeWhile (fun c => decide (c = '0'))).length '0' := by
    refine List.eq_replicate_of_mem ?_
    intro c hc
    simpa using List.mem_takeWhile_imp hc
  refine ⟨(digits.reverse.takeWhile (fun c => decide (c = '0'))).length, ?_⟩
  rw [trimZeros, ← List.reverse_replicate, ← hzeros, ← List.reverse_append, hsplit,
    List.reverse_reverse]

/-- Digits with a point in them: zeros were put in front, and others taken off behind. -/
theorem exists_of_pointed (digits : List Char) (places : Nat) :
    ∃ whole fraction front behind, pointed digits places = positional whole fraction ∧
      whole ≠ [] ∧ fraction.length + behind = places ∧
      List.replicate front '0' ++ digits =
        whole ++ fraction ++ List.replicate behind '0' := by
  unfold pointed
  generalize hpadded : List.replicate (places + 1 - digits.length) '0' ++ digits = padded
  have hlength : places + 1 ≤ padded.length := by
    rw [← hpadded, List.length_append, List.length_replicate]
    omega
  obtain ⟨behind, hbehind⟩ := trimZeros_append (padded.drop (padded.length - places))
  refine ⟨padded.take (padded.length - places), trimZeros (padded.drop (padded.length - places)),
    places + 1 - digits.length, behind, rfl, ?_, ?_, ?_⟩
  · rw [Ne, List.take_eq_nil_iff, not_or]
    refine ⟨by omega, ?_⟩
    intro hnil
    simp [hnil] at hlength
  · have hdrop : (padded.drop (padded.length - places)).length = places := by
      rw [List.length_drop, Nat.sub_sub_self (by omega)]
    rw [hbehind, List.length_append, List.length_replicate] at hdrop
    exact hdrop
  · rw [List.append_assoc, ← hbehind, List.take_append_drop, hpadded]

/-- A decimal's magnitude in positional notation. -/
theorem exists_of_magnitude (a : Decimal) :
    ∃ whole fraction n, a.magnitude = positional whole fraction ∧ whole ≠ [] ∧
      (∀ c ∈ whole ++ fraction, c.isDigit = true) ∧
      digitsValue? 0 (whole ++ fraction) = some n ∧
      ∃ j k, (a.coefficient.natAbs : Int) * tenTo j = n * tenTo k ∧
        a.scale + j = fraction.length + k ∧ (fraction.length : Int) ≤ max 0 a.scale := by
  have hvalue := digitsValue?_numeral a.coefficient.natAbs
  unfold magnitude
  split
  · next hscale =>
      obtain ⟨whole, fraction, front, behind, htext, hne, hplaces, hdigits⟩ :=
        exists_of_pointed (numeral a.coefficient.natAbs) a.scale.toNat
      have hall : ∀ c ∈ whole ++ fraction, c.isDigit = true := by
        intro c hc
        have hmem : c ∈ List.replicate front '0' ++ numeral a.coefficient.natAbs := by
          rw [hdigits]
          exact List.mem_append_left _ hc
        rcases List.mem_append.mp hmem with hzero | hdigit
        · exact isDigit_of_mem_zeros hzero
        · exact isDigit_of_mem_numeral hdigit
      obtain ⟨n, hn⟩ := Option.isSome_iff_exists.mp (digitsValue?_isSome hall 0)
      -- Zeros in front count for nothing, and those behind make the number so much larger.
      have hread : a.coefficient.natAbs = n * tenTo behind := by
        have hboth := congrArg (digitsValue? 0) hdigits
        rw [digitsValue?_append, digitsValue?_zeros, Option.bind_some, Nat.zero_mul, hvalue,
          digitsValue?_append, hn, Option.bind_some, digitsValue?_zeros] at hboth
        exact Option.some.inj hboth
      refine ⟨whole, fraction, n, htext, hne, hall, hn, 0, behind, ?_, by omega, by omega⟩
      rw [hread]
      simp [tenTo]
  · next hscale =>
      have hall : ∀ c ∈ numeral a.coefficient.natAbs ++ List.replicate (-a.scale).toNat '0',
          c.isDigit = true := by
        intro c hc
        rcases List.mem_append.mp hc with hdigit | hzero
        · exact isDigit_of_mem_numeral hdigit
        · exact isDigit_of_mem_zeros hzero
      refine ⟨_, [], a.coefficient.natAbs * tenTo (-a.scale).toNat, rfl, ?_, by simpa using hall,
        ?_, (-a.scale).toNat, 0, ?_, ?_, by simp⟩
      · simp [numeral_ne_nil]
      · rw [List.append_nil, digitsValue?_append, hvalue, Option.bind_some, digitsValue?_zeros]
      · simp [tenTo]
      · simp only [List.length_nil]
        omega

/-! ## Text -/

theorem digitsValue?_eq_natural? {digits : List Char} (hne : digits ≠ [])
    (h : ∀ c ∈ digits, c.isDigit = true) : natural? digits = digitsValue? 0 digits := by
  obtain ⟨c, rest, rfl⟩ := List.exists_cons_of_ne_nil hne
  rw [natural?, if_pos (h c List.mem_cons_self)]

/-- Digits with at most a minus sign in front. -/
theorem integer?_eq {digits : List Char} {n : Nat} (hne : digits ≠ [])
    (h : ∀ c ∈ digits, c.isDigit = true) (hvalue : digitsValue? 0 digits = some n) :
    integer? digits = some (n : Int) ∧ integer? ('-' :: digits) = some (-n : Int) := by
  have hnatural := (digitsValue?_eq_natural? hne h).trans hvalue
  constructor
  · -- A digit is not a sign, so the last branch is taken.
    unfold integer?
    split
    · next rest =>
        have hminus := h '-' List.mem_cons_self
        simp at hminus
    · next rest =>
        have hplus := h '+' List.mem_cons_self
        simp at hplus
    · simp [hnatural]
  · simp [integer?, hnatural]

theorem not_mem_of_not_isDigit {sign digits : List Char} (hsign : sign = [] ∨ sign = ['-'])
    (h : ∀ c ∈ digits, c.isDigit = true) {c : Char} (hminus : c ≠ '-') (hdigit : c.isDigit = false) :
    c ∉ sign ++ digits := by
  intro hc
  rcases List.mem_append.mp hc with hc | hc
  · rcases hsign with rfl | rfl
    · cases hc
    · exact hminus (List.mem_singleton.mp hc)
  · exact absurd (h c hc) (by simp [hdigit])

/-- The point of positional notation stands in front of the fraction. -/
theorem splitPoint_positional {sign whole fraction : List Char} (hsign : sign = [] ∨ sign = ['-'])
    (h : ∀ c ∈ whole ++ fraction, c.isDigit = true) :
    splitPoint (sign ++ positional whole fraction) =
      (sign ++ (whole ++ fraction), fraction.length) := by
  have hpoint : '.' ∉ sign ++ (whole ++ fraction) :=
    not_mem_of_not_isDigit hsign h (by decide) rfl
  cases fraction with
  | nil =>
      rw [List.append_nil] at *
      exact splitPoint_of_not_mem hpoint
  | cons c rest =>
      have hwhole : '.' ∉ sign ++ whole := by
        intro hc
        rw [← List.append_assoc] at hpoint
        exact hpoint (List.mem_append_left _ hc)
      have hsplit := splitPoint_append hwhole (c :: rest)
      have hcount : (c :: rest).countP (· ≠ '_') = (c :: rest).length := by
        refine List.countP_eq_length.mpr ?_
        intro d hd
        have hdigit := h d (List.mem_append_right _ hd)
        simp only [ne_eq, decide_eq_true_eq]
        rintro rfl
        cases hdigit
      rwa [hcount, List.append_assoc, List.append_assoc] at hsplit

/-- Positional notation reads as its digits, and its scale is the number of them behind the
point. -/
theorem ofString?_positional {sign whole fraction : List Char} {coefficient : Int}
    (hsign : sign = [] ∨ sign = ['-']) (h : ∀ c ∈ whole ++ fraction, c.isDigit = true)
    (hinteger : integer? (sign ++ (whole ++ fraction)) = some coefficient)
    (hscale : fraction.length < 2 ^ 63) :
    ofString? (String.ofList (sign ++ positional whole fraction)) =
      some ⟨coefficient, fraction.length⟩ := by
  -- No letter of an exponent is a sign, a digit or the point.
  have hletter : ∀ c, c ≠ '-' → c ≠ '.' → c.isDigit = false →
      c ∉ sign ++ positional whole fraction := by
    intro c hminus hpoint hdigit
    have hother := not_mem_of_not_isDigit hsign h hminus hdigit
    cases fraction with
    | nil => simpa [positional] using hother
    | cons => simpa [positional, hpoint] using hother
  exact ofString?_of_splitPoint
    ⟨hletter 'e' (by decide) (by decide) rfl, hletter 'E' (by decide) (by decide) rfl⟩
    (splitPoint_positional hsign h) hinteger hscale

/-- The text of a decimal is a sign and a magnitude. -/
theorem exists_of_render (a : Decimal) :
    ∃ sign whole fraction coefficient, a.render = String.ofList (sign ++ positional whole fraction) ∧
      (sign = [] ∨ sign = ['-']) ∧ whole ≠ [] ∧ (∀ c ∈ whole ++ fraction, c.isDigit = true) ∧
      integer? (sign ++ (whole ++ fraction)) = some coefficient ∧
      (fraction.length : Int) ≤ max 0 a.scale ∧
      a.equal ⟨coefficient, fraction.length⟩ = true := by
  by_cases hzero : a.isZero = true
  · refine ⟨[], ['0'], [], 0, ?_, .inl rfl, List.cons_ne_nil _ _, by simp, rfl, by simp, ?_⟩
    · simp [render, hzero, positional]
    · simp only [isZero, beq_iff_eq] at hzero
      simp [equal, isZero, hzero]
  · obtain ⟨whole, fraction, n, htext, hne, hall, hvalue, j, k, hcoefficient, hscale, hle⟩ :=
      exists_of_magnitude a
    have hinteger := integer?_eq (by simp [hne]) hall hvalue
    by_cases hnegative : a.isNegative = true
    · refine ⟨['-'], whole, fraction, -n, ?_, .inr rfl, hne, hall, hinteger.2, hle, ?_⟩
      · simp [render, hzero, hnegative, htext]
      · refine equal_of_scaled (j := j) (k := k) ?_ hscale
        have habs : (a.coefficient.natAbs : Int) = -a.coefficient := by
          simp only [isNegative, decide_eq_true_eq] at hnegative
          omega
        rw [habs, neg_mul, neg_eq_iff_eq_neg, ← neg_mul] at hcoefficient
        exact hcoefficient
    · refine ⟨[], whole, fraction, n, ?_, .inl rfl, hne, hall, hinteger.1, hle, ?_⟩
      · simp [render, hzero, hnegative, htext]
      · refine equal_of_scaled (j := j) (k := k) ?_ hscale
        have habs : (a.coefficient.natAbs : Int) = a.coefficient := by
          simp only [isNegative, decide_eq_true_eq] at hnegative
          omega
        rwa [habs] at hcoefficient

/-- The text of a decimal reads as the same number. -/
theorem ofString?_render {a : Decimal} (h : a.scale < 2 ^ 63) :
    ∃ b, ofString? a.render = some b ∧ a.equal b = true := by
  obtain ⟨sign, whole, fraction, coefficient, htext, hsign, -, hall, hinteger, hle, hequal⟩ :=
    exists_of_render a
  refine ⟨⟨coefficient, fraction.length⟩, ?_, hequal⟩
  rw [htext]
  exact ofString?_positional hsign hall hinteger (by omega)

/-- The text of a decimal is one number token. -/
theorem isNumeral_render (a : Decimal) : Reader.isNumeral a.render.toList = true := by
  obtain ⟨sign, whole, fraction, coefficient, htext, hsign, hne, hall, -⟩ := exists_of_render a
  rw [htext, String.toList_ofList]
  have hwhole : whole ∈ Reader.someOf Char.isDigit :=
    Reader.mem_someOf_iff.mpr ⟨hne, fun c hc => hall c (List.mem_append_left _ hc)⟩
  refine Reader.mem_number_iff.mp (Language.append_mem_mul ?_ ?_)
  · simpa [Reader.mem_maybe_iff, Reader.mem_exactly_iff] using hsign
  · cases fraction with
    | nil =>
        rw [positional, ← List.append_nil whole]
        exact Language.append_mem_mul hwhole (Reader.mem_fraction_iff.mpr (.inl rfl))
    | cons c rest =>
        refine Language.append_mem_mul hwhole (Reader.mem_fraction_iff.mpr (.inr ⟨c :: rest, ?_, rfl⟩))
        exact ⟨List.cons_ne_nil c rest, fun d hd => hall d (List.mem_append_right _ hd)⟩

end Decimal
end LazyLisp
