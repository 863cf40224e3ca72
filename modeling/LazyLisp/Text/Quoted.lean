import LazyLisp.Text.Printable

/-!
# Quoted — string literals, written and read

A string literal stands between double quotes, with a backslash for what cannot stand there as
itself.  This file defines both directions:

* `Quoted.encode` writes any text as one literal; a character is shown as it is when
  `Text.isPrintable` says so, and otherwise by a named escape or by its code point in hexadecimal;
* `Quoted.decode` reads the text between the quotes, or names the escape that has no meaning.

Reading is more liberal than writing: it accepts `\'`, raw control characters, and code points with
leading zeros or one plus sign.
-/

namespace LazyLisp
namespace Quoted

/-! ## Writing -/

/-- `\u` and the code point of `c`, in lower-case hexadecimal between braces. -/
def codePointEscape (c : Char) : List Char :=
  ['\\', 'u', '\x7b'] ++ Nat.toDigits 16 c.toNat ++ ['\x7d']

/-- One character as it stands between the quotes. -/
def encodeChar (c : Char) : List Char :=
  if c = '\x00' then ['\\', '0']
  else if c = '\t' then ['\\', 't']
  else if c = '\r' then ['\\', 'r']
  else if c = '\n' then ['\\', 'n']
  else if c = '\\' then ['\\', '\\']
  else if c = '\x22' then ['\\', '\x22']
  else if Text.isPrintable c then [c]
  else codePointEscape c

/-- `text` as a string literal, quotes included. -/
def encode (text : String) : String :=
  String.ofList ('\x22' :: text.toList.flatMap encodeChar ++ ['\x22'])

/-! ## Reading -/

/-- What the character after a backslash stands for, code point escapes aside. -/
def namedEscape? : Char → Option Char
  | 'n' => some '\n'
  | 't' => some '\t'
  | 'r' => some '\r'
  | '0' => some '\x00'
  | '\\' => some '\\'
  | '\x22' => some '\x22'
  | '\x27' => some '\x27'
  | _ => none

/-- The value of one hexadecimal digit. -/
def hexDigit? (c : Char) : Option Nat :=
  if '0' ≤ c ∧ c ≤ '9' then some (c.toNat - '0'.toNat)
  else if 'a' ≤ c ∧ c ≤ 'f' then some (c.toNat - 'a'.toNat + 10)
  else if 'A' ≤ c ∧ c ≤ 'F' then some (c.toNat - 'A'.toNat + 10)
  else none

/-- The value of a run of hexadecimal digits, continuing from `value`. -/
def hexValue? (value : Nat) : List Char → Option Nat
  | [] => some value
  | c :: rest => (hexDigit? c).bind fun digit => hexValue? (16 * value + digit) rest

/-- The character that the text between the braces of a code point escape denotes.  One plus sign
may stand in front of the digits, and at least one digit has to follow. -/
def scalar? (digits : List Char) : Option Char :=
  let digits := match digits with
    | '+' :: rest => rest
    | digits => digits
  if digits.isEmpty then none
  else (hexValue? 0 digits).bind fun code =>
    if code.isValidChar then some (Char.ofNat code) else none

/-- The part of a bad code point escape that an error shows: at most eight characters after the
`u`, and none from a quote on. -/
def badCodePoint (rest : List Char) : String :=
  String.ofList ('\\' :: 'u' :: (rest.takeWhile (· ≠ '\x22')).take 8)

/-- Read what follows `\u`: the character denoted, and the text behind the closing brace. -/
def codePoint (rest : List Char) : Except String (Char × List Char) :=
  match rest with
  | '\x7b' :: inner =>
      match scalar? (inner.takeWhile (· ≠ '\x7d')), inner.dropWhile (· ≠ '\x7d') with
      | some c, _ :: after => .ok (c, after)
      | _, _ => .error (badCodePoint rest)
  | _ => .error (badCodePoint rest)

/-- A code point escape leaves less text than it was given. -/
theorem length_of_codePoint {rest after : List Char} {c : Char}
    (h : codePoint rest = .ok (c, after)) : after.length < rest.length := by
  unfold codePoint at h
  split at h
  · next inner =>
      split at h
      · next d _ tail _ hdrop =>
          cases h
          have hle := (List.dropWhile_sublist (p := fun x => decide (x ≠ '\x7d'))
            (l := inner)).length_le
          rw [hdrop] at hle
          simp only [List.length_cons] at hle ⊢
          omega
      · cases h
  · cases h

/-- Resolve the escapes of a literal's body; the error carries the escape that has no meaning. -/
def decode (body : List Char) : Except String (List Char) :=
  match body with
  | [] => .ok []
  | '\\' :: [] => .error "\\"
  | '\\' :: 'u' :: rest =>
      match h : codePoint rest with
      | .error escape => .error escape
      | .ok (c, after) =>
          have : after.length < rest.length := length_of_codePoint h
          (c :: ·) <$> decode after
  | '\\' :: d :: rest =>
      match namedEscape? d with
      | some c => (c :: ·) <$> decode rest
      | none => .error (String.ofList ['\\', d])
  | c :: rest => (c :: ·) <$> decode rest
termination_by body.length

end Quoted
end LazyLisp
