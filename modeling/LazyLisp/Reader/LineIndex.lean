import LazyLisp.Reader.Tokens

/-!
# LineIndex — places looked up in a table of line starts

A position can be computed from its byte offset alone.  The offsets at which lines start are put into
a table; the last of them that is not behind the offset is found by halving; and the characters
between the two are counted.  This file defines:

* `slice?`, the text between two byte offsets, if both are boundaries of characters;
* `partitionPoint`, the search;
* `LineIndex`, the table, and `LineIndex.position`, the position of an offset;
* `lex`, cutting a text into tokens with the positions that the index gives.

`tokens` cuts a text into the same tokens without a table.
-/

namespace LazyLisp
namespace Reader

/-- The text from one byte offset to another one, if both are boundaries of characters. -/
def slice? (text : String) (start stop : Nat) : Option String :=
  if h : String.Pos.Raw.IsValid text ⟨start⟩ ∧ String.Pos.Raw.IsValid text ⟨stop⟩ ∧ start ≤ stop then
    some (text.extract (text.pos ⟨start⟩ h.1) (text.pos ⟨stop⟩ h.2.1))
  else none

/-- How many numbers at the front of a table pass a test, when those in front of `low` do and those
from `high` on do not.  The interval in between is halved until nothing is left of it. -/
def partitionPoint (table : Array Nat) (test : Nat → Bool) (low high : Nat) : Nat :=
  if low < high then
    let middle := (low + high) / 2
    if table[middle]?.any test then partitionPoint table test (middle + 1) high
    else partitionPoint table test low middle
  else low
termination_by high - low

/-! ## The index -/

/-- The offsets behind the line breaks of a text that starts at `offset`. -/
def startsBehind (offset : Nat) : List Char → List Nat
  | [] => []
  | c :: rest =>
      if c = '\n' then (offset + 1) :: startsBehind (offset + 1) rest
      else startsBehind (offset + c.utf8Size) rest

/-- A source text with the offsets at which its lines start. -/
structure LineIndex where
  source : String
  starts : Array Nat

namespace LineIndex

def ofSource (source : String) : LineIndex :=
  ⟨source, (0 :: startsBehind 0 source.toList).toArray⟩

/-- The position of a byte offset: the last line that starts no later, and the characters from its
start on. -/
def position (lines : LineIndex) (offset : Nat) : Position :=
  let line := partitionPoint lines.starts (· ≤ offset) 0 lines.starts.size
  let start := lines.starts[line - 1]?.getD 0
  let column := ((slice? lines.source start offset).map String.length).getD 0
  ⟨line, column + 1, offset⟩

end LineIndex

/-! ## Tokens -/

/-- The tokens of a text that starts at `offset`, with the positions that the index gives. -/
def lexFrom (lines : LineIndex) (offset : Nat) (text : List Char) : Except Error (List Token) :=
  match text with
  | [] => .ok []
  | c :: rest =>
      if isSeparator c then lexFrom lines (offset + c.utf8Size) rest
      else if c = ';' then
        have : (skipComment rest).length ≤ rest.length := (List.dropWhile_sublist _).length_le
        let comment := String.ofList (c :: rest.takeWhile (· ≠ '\n'))
        lexFrom lines (offset + comment.utf8ByteSize) (skipComment rest)
      else
        match hscan : Lexeme.scan? (c :: rest) with
        | none => .error ⟨.unexpectedChar c, lines.position offset⟩
        | some (lexeme, after) =>
            have : after.length < (c :: rest).length := Lexeme.length_of_scan? hscan
            let length := (String.ofList lexeme.chars).utf8ByteSize
            (⟨lexeme, lines.position offset⟩ :: ·) <$> lexFrom lines (offset + length) after
termination_by text.length
decreasing_by
  · simp
  · simp only [List.length_cons]
    omega
  · exact this

/-- The tokens of a source text, with the positions that its index gives. -/
def lex (source : String) : Except Error (List Token) :=
  lexFrom (.ofSource source) 0 source.toList

end Reader
end LazyLisp
