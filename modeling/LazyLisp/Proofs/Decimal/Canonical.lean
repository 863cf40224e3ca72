import LazyLisp.Proofs.Decimal.Rational
import LazyLisp.Proofs.Decimal.Text

/-!
# Canonical — one text for each number

A decimal is written without zeros in front or behind that say nothing, and without the sign of a
zero.  What is left is the same for all pairs of coefficient and scale that stand for one number: a
further zero at the end of the coefficient, with the scale one larger, changes nothing of the text.
And the text alone tells the number.  This file defines `Decimal.canonical`, the language of such
texts.

Main results:

* `Decimal.eq_of_digitsValue?`: digits without a zero in front are known from their value;
* `Decimal.render_of_scaled`: zeros behind do not show;
* `Decimal.render_eq_iff`: two decimals have one text exactly if they stand for one number;
* `Decimal.render_canonical`: the shape of the text, and its agreement with equality and order.
-/

namespace LazyLisp
namespace Decimal

open Reader (oneOf exactly maybe mem_oneOf_mul_iff mem_exactly_mul_iff mem_maybe_iff
  mem_oneOf_kstar_iff mem_exactly_iff)
open scoped Computability

/-! ## Digits -/

theorem isDigit_iff {c : Char} : c.isDigit = true ↔ 48 ≤ c.toNat ∧ c.toNat ≤ 57 := by
  simp only [Char.isDigit, Bool.and_eq_true, decide_eq_true_eq]
  exact Iff.rfl

theorem digitsValue?_cons {c : Char} (h : c.isDigit = true) (value : Nat) (rest : List Char) :
    digitsValue? value (c :: rest) = digitsValue? (10 * value + (c.toNat - 48)) rest := by
  have hscore : c ≠ '_' := by
    rintro rfl
    cases h
  rw [digitsValue?, if_neg hscore, if_pos h]
  rfl

theorem tenTo_succ (n : Nat) : tenTo (n + 1) = 10 * tenTo n := by
  simp only [tenTo, Nat.pow_eq, pow_succ, mul_comm]

/-- Equally many digits with one value are the same. -/
theorem eq_of_length_eq {digits others : List Char} (h : ∀ c ∈ digits, c.isDigit = true)
    (h' : ∀ c ∈ others, c.isDigit = true) (hlength : digits.length = others.length)
    {value value' : Nat} (hvalue : digitsValue? value digits = digitsValue? value' others) :
    value = value' ∧ digits = others := by
  induction digits generalizing others value value' with
  | nil =>
      cases others with
      | nil => exact ⟨Option.some.inj hvalue, rfl⟩
      | cons => cases hlength
  | cons c rest ih =>
      cases others with
      | nil => cases hlength
      | cons d later =>
          have hc := h c List.mem_cons_self
          have hd := h' d List.mem_cons_self
          rw [digitsValue?_cons hc, digitsValue?_cons hd] at hvalue
          obtain ⟨hsum, hrest⟩ := ih (fun e he => h e (List.mem_cons_of_mem _ he))
            (fun e he => h' e (List.mem_cons_of_mem _ he)) (by simpa using hlength) hvalue
          have hrange := isDigit_iff.mp hc
          have hrange' := isDigit_iff.mp hd
          -- The values so far differ by tens, and the digits by less.
          have hsame : c = d := Char.toNat_inj.mp (by omega)
          exact ⟨by omega, by rw [hsame, hrest]⟩

/-- Digits that continue a value bring it within the range that their count allows. -/
theorem digitsValue?_range {digits : List Char} (h : ∀ c ∈ digits, c.isDigit = true)
    {value n : Nat} (hvalue : digitsValue? value digits = some n) :
    value * tenTo digits.length ≤ n ∧ n < (value + 1) * tenTo digits.length := by
  induction digits generalizing value with
  | nil =>
      cases Option.some.inj hvalue
      simp [tenTo]
  | cons c rest ih =>
      have hc := h c List.mem_cons_self
      rw [digitsValue?_cons hc] at hvalue
      obtain ⟨hle, hlt⟩ := ih (fun e he => h e (List.mem_cons_of_mem _ he)) hvalue
      have hrange := isDigit_iff.mp hc
      rw [List.length_cons, tenTo_succ]
      constructor
      · calc
          value * (10 * tenTo rest.length) = 10 * value * tenTo rest.length := by ring
          _ ≤ (10 * value + (c.toNat - 48)) * tenTo rest.length :=
            Nat.mul_le_mul_right _ (by omega)
          _ ≤ n := hle
      · calc
          n < (10 * value + (c.toNat - 48) + 1) * tenTo rest.length := hlt
          _ ≤ (10 * value + 10) * tenTo rest.length := Nat.mul_le_mul_right _ (by omega)
          _ = (value + 1) * (10 * tenTo rest.length) := by ring

/-- Digits without a zero in front are as few as their value allows. -/
theorem length_le_of_digitsValue? {digits others : List Char}
    (h : ∀ c ∈ digits, c.isDigit = true) (h' : ∀ c ∈ others, c.isDigit = true)
    (hfirst : digits.head? ≠ some '0')
    (hvalue : digitsValue? 0 digits = digitsValue? 0 others) : digits.length ≤ others.length := by
  cases digits with
  | nil => exact Nat.zero_le _
  | cons c rest =>
      have hc := isDigit_iff.mp (h c List.mem_cons_self)
      have hne : c.toNat ≠ 48 := by
        intro heq
        apply hfirst
        rw [Char.toNat_inj.mp (show c.toNat = '0'.toNat from heq)]
        rfl
      obtain ⟨n, hn⟩ := Option.isSome_iff_exists.mp (digitsValue?_isSome h' 0)
      rw [hn, digitsValue?_cons (h c List.mem_cons_self)] at hvalue
      have hleast := (digitsValue?_range (fun e he => h e (List.mem_cons_of_mem _ he)) hvalue).1
      have hmost := (digitsValue?_range h' hn).2
      have hpower : tenTo rest.length < tenTo others.length := by
        calc
          tenTo rest.length ≤ (10 * 0 + (c.toNat - 48)) * tenTo rest.length :=
            Nat.le_mul_of_pos_left _ (by omega)
          _ ≤ n := hleast
          _ < tenTo others.length := by simpa using hmost
      exact (Nat.pow_lt_pow_iff_right (by decide)).mp hpower

/-- Digits without a zero in front are known from their value. -/
theorem eq_of_digitsValue? {digits others : List Char} (h : ∀ c ∈ digits, c.isDigit = true)
    (h' : ∀ c ∈ others, c.isDigit = true) (hfirst : digits.head? ≠ some '0')
    (hfirst' : others.head? ≠ some '0')
    (hvalue : digitsValue? 0 digits = digitsValue? 0 others) : digits = others :=
  (eq_of_length_eq h h'
    (le_antisymm (length_le_of_digitsValue? h h' hfirst hvalue)
      (length_le_of_digitsValue? h' h hfirst' hvalue.symm)) hvalue).2

/-- A number other than zero has no zero in front. -/
theorem head?_numeral {n : Nat} (hn : n ≠ 0) : (numeral n).head? ≠ some '0' := by
  have hread := digitsValue?_numeral n
  unfold numeral at hread ⊢
  split at hread
  · cases Option.some.inj hread
    exact absurd rfl hn
  · next hne =>
      intro hhead
      have hnot := List.head?_dropWhile_not (fun c => decide (c = '0'))
        (paddedDigits (digitLevel n) n)
      rw [hhead] at hnot
      simp at hnot

theorem numeral_mul_ten {n : Nat} (hn : n ≠ 0) : numeral (n * 10) = numeral n ++ ['0'] := by
  refine eq_of_digitsValue? (fun c hc => isDigit_of_mem_numeral hc) ?_
    (head?_numeral (Nat.mul_ne_zero hn (by decide))) ?_ ?_
  · intro c hc
    rcases List.mem_append.mp hc with hc | hc
    · exact isDigit_of_mem_numeral hc
    · rw [List.mem_singleton.mp hc]
      rfl
  · rw [List.head?_append_of_ne_nil _ (numeral_ne_nil n)]
    exact head?_numeral hn
  · have hzero := digitsValue?_zeros n 1
    rw [digitsValue?_numeral, digitsValue?_append, digitsValue?_numeral, Option.bind_some]
    simpa [tenTo] using hzero.symm

/-! ## Zeros behind -/

theorem trimZeros_snoc (digits : List Char) : trimZeros (digits ++ ['0']) = trimZeros digits := by
  simp [trimZeros]

theorem pointed_snoc (digits : List Char) (places : Nat) :
    pointed (digits ++ ['0']) (places + 1) = pointed digits places := by
  have hzeros : places + 1 + 1 - (digits ++ ['0']).length = places + 1 - digits.length := by
    rw [List.length_append, List.length_singleton]
    omega
  have hlength : places ≤ (List.replicate (places + 1 - digits.length) '0' ++ digits).length := by
    rw [List.length_append, List.length_replicate]
    omega
  unfold pointed
  rw [hzeros, ← List.append_assoc]
  generalize List.replicate (places + 1 - digits.length) '0' ++ digits = padded at hlength
  have hwhole : (padded ++ ['0']).length - (places + 1) = padded.length - places := by
    rw [List.length_append, List.length_singleton]
    omega
  simp only [hwhole]
  rw [List.take_append_of_le_length (Nat.sub_le _ _),
    List.drop_append_of_le_length (Nat.sub_le _ _), trimZeros_snoc]

theorem pointed_zero {digits : List Char} (h : digits ≠ []) : pointed digits 0 = digits := by
  have hlength : 0 + 1 - digits.length = 0 := by
    have := List.length_pos_of_ne_nil h
    omega
  simp [pointed, hlength, trimZeros]

/-- A zero is written as one digit, whatever its scale. -/
theorem render_of_isZero {a : Decimal} (h : a.isZero = true) : a.render = "0" := by
  rw [render, if_pos h]

theorem magnitude_mul_ten {a : Decimal} (h : a.coefficient ≠ 0) :
    magnitude ⟨a.coefficient * 10, a.scale + 1⟩ = a.magnitude := by
  have hdigits : numeral (a.coefficient * 10).natAbs = numeral a.coefficient.natAbs ++ ['0'] := by
    rw [Int.natAbs_mul]
    exact numeral_mul_ten (Int.natAbs_ne_zero.mpr h)
  simp only [magnitude, hdigits]
  -- A negative scale asks for zeros itself, so there are three cases: it asks for one fewer than
  -- before, it stops asking for any, or the point moves on with the digits.
  rcases lt_trichotomy a.scale (-1) with hscale | hscale | hscale
  · have hzeros : (-a.scale).toNat = (-(a.scale + 1)).toNat + 1 := by omega
    rw [if_neg (by omega), if_neg (by omega), hzeros, List.replicate_succ, List.append_assoc]
    rfl
  · have hplaces : (a.scale + 1).toNat = 0 := by omega
    have hzeros : (-a.scale).toNat = 1 := by omega
    rw [if_pos (by omega), if_neg (by omega), hplaces, hzeros, pointed_zero (by simp)]
    rfl
  · have hplaces : (a.scale + 1).toNat = a.scale.toNat + 1 := by omega
    rw [if_pos (by omega), if_pos (by omega), hplaces, pointed_snoc]

/-- One more zero at the end of the coefficient does not show. -/
theorem render_mul_ten (a : Decimal) : render ⟨a.coefficient * 10, a.scale + 1⟩ = a.render := by
  by_cases hzero : a.coefficient = 0
  · rw [render_of_isZero (by simp [isZero, hzero]), render_of_isZero (by simp [isZero, hzero])]
  · have hsign : isNegative ⟨a.coefficient * 10, a.scale + 1⟩ = a.isNegative := by
      simp [isNegative, mul_neg_iff]
    have hnonzero : isZero ⟨a.coefficient * 10, a.scale + 1⟩ = a.isZero := by
      simp [isZero]
    rw [render, magnitude_mul_ten hzero, hsign, hnonzero, render]

/-- Zeros at the end of the coefficient do not show. -/
theorem render_of_scaled (a : Decimal) (count : Nat) :
    render ⟨a.coefficient * tenTo count, a.scale + count⟩ = a.render := by
  induction count with
  | zero => simp [tenTo]
  | succ count ih =>
      have hzero := render_mul_ten ⟨a.coefficient * tenTo count, a.scale + count⟩
      have hcoefficient :
          a.coefficient * tenTo (count + 1) = a.coefficient * tenTo count * 10 := by
        rw [tenTo_succ, Nat.cast_mul, mul_left_comm, mul_comm]
        rfl
      rw [hcoefficient, Nat.cast_succ, ← add_assoc, hzero, ih]

/-- The text does not depend on the scale at which the coefficient is taken. -/
theorem render_unscaled {a : Decimal} {scale : Int} (h : a.scale ≤ scale) :
    render ⟨a.unscaled scale, scale⟩ = a.render := by
  by_cases hzero : a.isZero = true
  · rw [unscaled, if_pos hzero, render_of_isZero hzero, render_of_isZero rfl]
  · have hscale : scale = a.scale + (scale - a.scale).toNat := by omega
    have hscaled := render_of_scaled a (scale - a.scale).toNat
    rw [← hscale] at hscaled
    rw [unscaled, if_neg hzero, hscaled]

/-! ## One text for each number -/

/-- Decimals that stand for one number have one text. -/
theorem render_eq_of_toRat_eq {a b : Decimal} (h : a.toRat = b.toRat) : a.render = b.render := by
  have ha := toRat_eq_unscaled (le_max_left a.scale b.scale)
  have hb := toRat_eq_unscaled (le_max_right a.scale b.scale)
  have hsame : a.unscaled (max a.scale b.scale) = b.unscaled (max a.scale b.scale) := by
    have hboth := ha.symm.trans (h.trans hb)
    rw [mul_left_inj' (ten_zpow_pos _).ne'] at hboth
    exact_mod_cast hboth
  rw [← render_unscaled (le_max_left a.scale b.scale), hsame,
    render_unscaled (le_max_right a.scale b.scale)]

/-- The number is read off the text without the point, and off the place where the point was. -/
theorem exists_of_splitPoint_render (a : Decimal) :
    ∃ coefficient, integer? (splitPoint a.render.toList).1 = some coefficient ∧
      a.toRat = toRat ⟨coefficient, (splitPoint a.render.toList).2⟩ := by
  obtain ⟨sign, whole, fraction, coefficient, htext, hsign, -, hall, hinteger, -, hequal⟩ :=
    exists_of_render a
  rw [htext, String.toList_ofList, splitPoint_positional hsign hall]
  exact ⟨coefficient, hinteger, (equal_iff _ _).mp hequal⟩

/-- Two decimals have one text exactly if they stand for one number. -/
theorem render_eq_iff {a b : Decimal} : a.render = b.render ↔ a.toRat = b.toRat := by
  constructor
  · intro h
    obtain ⟨m, hm, ha⟩ := exists_of_splitPoint_render a
    obtain ⟨n, hn, hb⟩ := exists_of_splitPoint_render b
    rw [h] at hm ha
    cases Option.some.inj (hm.symm.trans hn)
    rw [ha, hb]
  · exact render_eq_of_toRat_eq

/-! ## The shape of the text -/

def isNonzeroDigit (c : Char) : Bool := c.isDigit && c != '0'

/-- Digits in front of the point: a zero alone, or none in front. -/
def canonicalWhole : Language Char :=
  exactly '0' + oneOf isNonzeroDigit * (oneOf Char.isDigit)∗

/-- The point and the digits behind it, of which the last is no zero. -/
def canonicalFraction : Language Char :=
  exactly '.' * ((oneOf Char.isDigit)∗ * oneOf isNonzeroDigit)

/-- The texts of decimals. -/
def canonical : Language Char :=
  maybe (exactly '-') * (canonicalWhole * maybe canonicalFraction)

theorem isNonzeroDigit_iff {c : Char} : isNonzeroDigit c = true ↔ c.isDigit = true ∧ c ≠ '0' := by
  simp [isNonzeroDigit]

theorem mem_canonicalWhole {whole : List Char} (hne : whole ≠ [])
    (h : ∀ c ∈ whole, c.isDigit = true) (hfirst : whole = ['0'] ∨ whole.head? ≠ some '0') :
    whole ∈ canonicalWhole := by
  rcases hfirst with rfl | hfirst
  · exact .inl (mem_exactly_iff.mpr rfl)
  · obtain ⟨c, rest, rfl⟩ := List.exists_cons_of_ne_nil hne
    have hc : c ≠ '0' := fun hc => hfirst (congrArg some hc)
    exact .inr (mem_oneOf_mul_iff.mpr
      ⟨c, rest, isNonzeroDigit_iff.mpr ⟨h c List.mem_cons_self, hc⟩,
        mem_oneOf_kstar_iff.mpr fun d hd => h d (List.mem_cons_of_mem _ hd), rfl⟩)

theorem mem_canonicalFraction {digits : List Char} {c : Char}
    (h : ∀ d ∈ digits ++ [c], d.isDigit = true) (hlast : c ≠ '0') :
    '.' :: (digits ++ [c]) ∈ canonicalFraction := by
  refine mem_exactly_mul_iff.mpr ⟨_, Language.append_mem_mul ?_ ?_, rfl⟩
  · exact mem_oneOf_kstar_iff.mpr fun d hd => h d (List.mem_append_left _ hd)
  · exact ⟨c, isNonzeroDigit_iff.mpr ⟨h c (by simp), hlast⟩, rfl⟩

theorem positional_mem {whole fraction : List Char} (hwhole : whole ∈ canonicalWhole)
    (h : ∀ c ∈ fraction, c.isDigit = true) (hlast : fraction.getLast? ≠ some '0') :
    positional whole fraction ∈ canonicalWhole * maybe canonicalFraction := by
  rcases List.eq_nil_or_concat' fraction with rfl | ⟨digits, c, rfl⟩
  · rw [positional, ← List.append_nil whole]
    exact Language.append_mem_mul hwhole (mem_maybe_iff.mpr (.inl rfl))
  · have hc : c ≠ '0' := by simpa using hlast
    have htext : positional whole (digits ++ [c]) = whole ++ '.' :: (digits ++ [c]) := by
      cases digits <;> rfl
    rw [htext]
    exact Language.append_mem_mul hwhole
      (mem_maybe_iff.mpr (.inr (mem_canonicalFraction h hc)))

/-- What remains without the zeros at the end does not end in one. -/
theorem getLast?_trimZeros (digits : List Char) : (trimZeros digits).getLast? ≠ some '0' := by
  have hnot := List.head?_dropWhile_not (fun c => decide (c = '0')) digits.reverse
  rw [trimZeros, List.getLast?_reverse]
  intro hlast
  rw [hlast] at hnot
  simp at hnot

theorem mem_of_mem_trimZeros {digits : List Char} {c : Char} (h : c ∈ trimZeros digits) :
    c ∈ digits :=
  List.mem_reverse.mp ((List.dropWhile_sublist _).mem (List.mem_reverse.mp h))

/-- Digits without a zero in front keep to the shape wherever the point goes. -/
theorem pointed_mem {digits : List Char} (h : ∀ c ∈ digits, c.isDigit = true)
    (hfirst : digits.head? ≠ some '0') (places : Nat) :
    pointed digits places ∈ canonicalWhole * maybe canonicalFraction := by
  generalize hpadded : List.replicate (places + 1 - digits.length) '0' ++ digits = padded
  have hall : ∀ c ∈ padded, c.isDigit = true := by
    intro c hc
    rw [← hpadded] at hc
    rcases List.mem_append.mp hc with hzero | hdigit
    · exact isDigit_of_mem_zeros hzero
    · exact h c hdigit
  have hlength : places + 1 ≤ padded.length := by
    rw [← hpadded, List.length_append, List.length_replicate]
    omega
  have htext : pointed digits places =
      positional (padded.take (padded.length - places))
        (trimZeros (padded.drop (padded.length - places))) := by
    rw [← hpadded]
    rfl
  rw [htext]
  refine positional_mem (mem_canonicalWhole ?_ ?_ ?_) ?_ (getLast?_trimZeros _)
  · rw [Ne, List.take_eq_nil_iff, not_or]
    refine ⟨by omega, ?_⟩
    rintro rfl
    simp at hlength
  · exact fun c hc => hall c (List.mem_of_mem_take hc)
  · -- Either the digits reach in front of the point, or one zero was put there for them.
    rcases Nat.lt_or_ge places digits.length with hlt | hge
    · have hnone : places + 1 - digits.length = 0 := by omega
      rw [hnone, List.replicate_zero, List.nil_append] at hpadded
      subst hpadded
      right
      rwa [List.head?_take, if_neg (by omega)]
    · left
      have hone : padded.length - places = 1 := by
        rw [← hpadded, List.length_append, List.length_replicate]
        omega
      have hzeros : places + 1 - digits.length = places - digits.length + 1 := by omega
      rw [hone, ← hpadded, hzeros, List.replicate_succ]
      rfl
  · exact fun c hc => hall c (List.mem_of_mem_drop (mem_of_mem_trimZeros hc))

theorem magnitude_mem {a : Decimal} (h : a.isZero = false) :
    a.magnitude ∈ canonicalWhole * maybe canonicalFraction := by
  have hdigits : ∀ c ∈ numeral a.coefficient.natAbs, c.isDigit = true :=
    fun c hc => isDigit_of_mem_numeral hc
  have hfirst : (numeral a.coefficient.natAbs).head? ≠ some '0' :=
    head?_numeral (by simpa [isZero] using h)
  unfold magnitude
  split
  · exact pointed_mem hdigits hfirst _
  · rw [← List.append_nil (_ ++ List.replicate _ _)]
    refine Language.append_mem_mul (mem_canonicalWhole ?_ ?_ (.inr ?_)) (mem_maybe_iff.mpr (.inl rfl))
    · simp [numeral_ne_nil]
    · intro c hc
      rcases List.mem_append.mp hc with hdigit | hzero
      · exact hdigits c hdigit
      · exact isDigit_of_mem_zeros hzero
    · rwa [List.head?_append_of_ne_nil _ (numeral_ne_nil _)]

theorem render_mem (a : Decimal) : a.render.toList ∈ canonical := by
  rw [render, String.toList_ofList]
  by_cases hzero : a.isZero = true
  · rw [if_pos hzero]
    have hwhole : ['0'] ∈ canonicalWhole := .inl (mem_exactly_iff.mpr rfl)
    have hnone : [] ∈ maybe canonicalFraction := mem_maybe_iff.mpr (.inl rfl)
    exact Language.append_mem_mul (mem_maybe_iff.mpr (.inl rfl))
      (Language.append_mem_mul hwhole hnone)
  · have hmagnitude := magnitude_mem (Bool.eq_false_of_not_eq_true hzero)
    rw [if_neg hzero]
    split
    · exact Language.append_mem_mul (mem_maybe_iff.mpr (.inr (mem_exactly_iff.mpr rfl))) hmagnitude
    · exact Language.append_mem_mul (mem_maybe_iff.mpr (.inl rfl)) hmagnitude

/-- No text has the sign of a zero, since reading it gives a zero, which is written without one. -/
theorem render_ne_minus_zero (a : Decimal) : a.render ≠ "-0" := by
  intro h
  obtain ⟨n, hn, ha⟩ := exists_of_splitPoint_render a
  rw [h] at hn ha
  cases Option.some.inj hn
  have hzero : a.isZero = true := by
    rw [← toRat_eq_zero_iff, ha, toRat_eq_zero_iff]
    rfl
  rw [render_of_isZero hzero] at h
  exact absurd h (by decide)

/-! ## Text, equality and order -/

/-- The text of a decimal has one shape, and it reads as the same number.  Being equal, comparing as
equal and having one text are the same, and the order is that of the numbers. -/
theorem render_canonical (a b : Decimal) :
    (a.render.toList ∈ canonical ∧ a.render ≠ "-0") ∧
    (a.scale < 2 ^ 63 → ∃ copy, ofString? a.render = some copy ∧ copy.equal a = true) ∧
    (a.equal b = true ↔ a.compare b = .eq) ∧
    (a.compare b = .eq ↔ a.render = b.render) ∧
    (a.compare b = .lt ↔ a.toRat < b.toRat) ∧
    (a.compare b = .eq ↔ a.toRat = b.toRat) ∧
    (a.compare b = .gt ↔ b.toRat < a.toRat) := by
  refine ⟨⟨render_mem a, render_ne_minus_zero a⟩, ?_, ?_, ?_, compare_eq_lt_iff a b,
    compare_eq_eq_iff a b, compare_eq_gt_iff a b⟩
  · intro hscale
    obtain ⟨copy, hread, hequal⟩ := ofString?_render hscale
    exact ⟨copy, hread, (equal_iff _ _).mpr ((equal_iff _ _).mp hequal).symm⟩
  · rw [equal_iff, compare_eq_eq_iff]
  · rw [compare_eq_eq_iff, render_eq_iff]

/-- Two spellings of minus one and a half. -/
theorem render_canonical_negative :
    (⟨-150, 2⟩ : Decimal).scale < 2 ^ 63 ∧
    (∃ copy, ofString? (render ⟨-150, 2⟩) = some copy ∧ copy.equal ⟨-150, 2⟩ = true) ∧
    render ⟨-150, 2⟩ = render ⟨-15, 1⟩ := by
  obtain ⟨-, hread, -, htext, -⟩ := render_canonical ⟨-150, 2⟩ ⟨-15, 1⟩
  exact ⟨by decide, hread (by decide), htext.mp (by decide)⟩

end Decimal
end LazyLisp
