import LazyLisp.Position
import LazyLisp.Text.Blank

/-!
# Token — the words of source text

Source text is a row of tokens with separators and comments between them.  Delimiters and quote
marks are tokens of one character; a string reaches to its closing quote; anything else is a *word*,
the longest run of characters that are neither white space nor one of the characters with a meaning
of their own.  This file defines:

* `Delimiter`, the three kinds of brackets;
* `Lexeme`, what a token is, with `Lexeme.chars`, the source text that it was read from;
* `Token`, a lexeme with the position it starts at;
* `Lexeme.scan?`, the longest token at the head of a text;
* `scan?_chars`: a scan splits the text that it is given, so no character is lost.
-/

namespace LazyLisp
namespace Reader

/-! ## Lexemes -/

/-- Brackets. -/
inductive Delimiter where
  | paren
  | bracket
  | brace
deriving DecidableEq, Repr

namespace Delimiter

def opening : Delimiter → Char
  | .paren => '('
  | .bracket => '['
  | .brace => '\x7b'

def closing : Delimiter → Char
  | .paren => ')'
  | .bracket => ']'
  | .brace => '\x7d'

end Delimiter

/-- What a token is. -/
inductive Lexeme where
  | opening (delimiter : Delimiter)
  | closing (delimiter : Delimiter)
  | quoteMark
  | number (digits : List Char)
  /-- A closed string, by the text between its quotes. -/
  | text (body : List Char)
  /-- A string without its closing quote, by the text behind the opening one. -/
  | openText (body : List Char)
  /-- A key, without the colon. -/
  | key (name : List Char)
  | symbol (name : List Char)
deriving DecidableEq, Repr

/-- The source text of a lexeme. -/
def Lexeme.chars : Lexeme → List Char
  | .opening delimiter => [delimiter.opening]
  | .closing delimiter => [delimiter.closing]
  | .quoteMark => ['\x27']
  | .number digits => digits
  | .text body => '\x22' :: body ++ ['\x22']
  | .openText body => '\x22' :: body
  | .key name => ':' :: name
  | .symbol name => name

/-- A lexeme in a source text. -/
structure Token where
  lexeme : Lexeme
  position : Position
deriving DecidableEq, Repr

/-! ## Character classes -/

/-- Characters that separate tokens and mean nothing else. -/
def isSeparator (c : Char) : Bool :=
  c == ' ' || c == '\t' || c == '\r' || c == '\n' || c == ','

/-- Characters that cannot stand in a word because they have a meaning of their own. -/
def isSpecial (c : Char) : Bool :=
  c == ',' || c == ';' || c == '(' || c == ')' || c == '[' || c == ']' || c == '\x7b' ||
    c == '\x7d' || c == '\x27' || c == '\x22'

/-- Characters of words. -/
def isWordChar (c : Char) : Bool :=
  !Text.isBlank c && !isSpecial c

/-- Whether a text is digits, or digits, a point and digits. -/
def isUnsignedNumeral (text : List Char) : Bool :=
  let fraction := text.dropWhile Char.isDigit
  !(text.takeWhile Char.isDigit).isEmpty &&
    match fraction with
    | [] => true
    | '.' :: digits => !digits.isEmpty && digits.all Char.isDigit
    | _ => false

/-- Whether a word is a number: a numeral with at most a minus sign in front. -/
def isNumeral : List Char → Bool
  | '-' :: text => isUnsignedNumeral text
  | text => isUnsignedNumeral text

/-! ## Scanning -/

/-- The text of a string up to its closing quote, and the rest from there on.  A backslash takes
the next character with it, unless that is a line break; then, and at the end of the text, the
string stops without a closing quote. -/
def splitText : List Char → List Char × List Char
  | [] => ([], [])
  | '\x22' :: rest => ([], '\x22' :: rest)
  | ['\\'] => ([], ['\\'])
  | '\\' :: c :: rest =>
      if c = '\n' then ([], '\\' :: c :: rest)
      else
        let (body, rest) := splitText rest
        ('\\' :: c :: body, rest)
  | c :: rest =>
      let (body, rest) := splitText rest
      (c :: body, rest)

/-- A string token, from the text behind its opening quote. -/
def scanText (text : List Char) : Lexeme × List Char :=
  match splitText text with
  | (body, '\x22' :: rest) => (.text body, rest)
  | (body, '\\' :: rest) => (.openText (body ++ ['\\']), rest)
  | (body, rest) => (.openText body, rest)

/-- A word, which is a number if it can be one. -/
def Lexeme.ofWord (word : List Char) : Lexeme :=
  if isNumeral word then .number word else .symbol word

/-- The longest token at the head of a text, and the rest of the text. -/
def Lexeme.scan? : List Char → Option (Lexeme × List Char)
  | [] => none
  | '(' :: rest => some (.opening .paren, rest)
  | ')' :: rest => some (.closing .paren, rest)
  | '[' :: rest => some (.opening .bracket, rest)
  | ']' :: rest => some (.closing .bracket, rest)
  | '\x7b' :: rest => some (.opening .brace, rest)
  | '\x7d' :: rest => some (.closing .brace, rest)
  | '\x27' :: rest => some (.quoteMark, rest)
  | '\x22' :: rest => some (scanText rest)
  | ':' :: rest =>
      match rest.takeWhile isWordChar with
      | [] => none
      | name => some (.key name, rest.dropWhile isWordChar)
  | c :: rest =>
      if isWordChar c then
        some (.ofWord (c :: rest.takeWhile isWordChar), rest.dropWhile isWordChar)
      else none

/-! ## A scan splits its text -/

theorem splitText_append (text : List Char) :
    (splitText text).1 ++ (splitText text).2 = text := by
  fun_induction splitText text <;> simp_all

theorem scanText_chars (text : List Char) :
    (scanText text).1.chars ++ (scanText text).2 = '\x22' :: text := by
  have happend := splitText_append text
  unfold scanText
  split <;> next h => simp [h, Lexeme.chars] at happend ⊢; exact happend

@[simp] theorem Lexeme.chars_ofWord (word : List Char) : (Lexeme.ofWord word).chars = word := by
  unfold Lexeme.ofWord
  split <;> rfl

theorem Lexeme.scan?_chars {text rest : List Char} {lexeme : Lexeme}
    (h : Lexeme.scan? text = some (lexeme, rest)) : lexeme.chars ++ rest = text := by
  unfold Lexeme.scan? at h
  split at h
  case h_1 => cases h
  case h_9 body =>
      have hchars := scanText_chars body
      simp only [Option.some.injEq] at h
      rw [h] at hchars
      exact hchars
  case h_10 tail =>
      split at h
      · cases h
      · cases h
        simp [Lexeme.chars, List.takeWhile_append_dropWhile]
  case h_11 c tail _ _ _ _ _ _ _ _ _ =>
      split at h
      · cases h
        simp [List.takeWhile_append_dropWhile]
      · cases h
  all_goals
      cases h
      rfl

theorem Lexeme.chars_ne_nil_of_scan? {text rest : List Char} {lexeme : Lexeme}
    (h : Lexeme.scan? text = some (lexeme, rest)) : lexeme.chars ≠ [] := by
  unfold Lexeme.scan? at h
  split at h
  case h_1 => cases h
  case h_9 body =>
      simp only [Option.some.injEq, scanText] at h
      split at h <;> cases h <;> simp [Lexeme.chars]
  case h_10 tail =>
      split at h
      · cases h
      · cases h
        simp [Lexeme.chars]
  case h_11 c tail _ _ _ _ _ _ _ _ _ =>
      split at h
      · cases h
        simp
      · cases h
  all_goals
      cases h
      simp [Lexeme.chars]

/-- A scan takes at least one character. -/
theorem Lexeme.length_of_scan? {text rest : List Char} {lexeme : Lexeme}
    (h : Lexeme.scan? text = some (lexeme, rest)) : rest.length < text.length := by
  have hne := List.length_pos_iff.2 (Lexeme.chars_ne_nil_of_scan? h)
  rw [← Lexeme.scan?_chars h, List.length_append]
  omega

end Reader
end LazyLisp
