import LazyLisp.Reader.Tokens
import LazyLisp.Text.Quoted
import LazyLisp.Value.Render

/-!
# Forms — reading tokens as values

The reader takes tokens one at a time and keeps what is still open: a stack of brackets, each with
the forms read inside it so far, and of quote marks that wait for their form.  A form that is
complete goes to whatever is open around it.  This file defines:

* `Progress`, the state between two tokens, and `Progress.step`, the effect of one token;
* `Progress.finish`, what the end of the tokens makes of it;
* `Reader.readAll`, every form of a source text;
* `Reader.readOne`, the only form of a source text, or nil if it has none.
-/

namespace LazyLisp
namespace Reader

/-! ## Progress -/

/-- What is open around the next form. -/
inductive Opening where
  /-- A bracket, and the forms inside it so far, the latest first. -/
  | delimiter (delimiter : Delimiter) (items : List Value)
  /-- A quote mark, which takes one form. -/
  | quoteMark

/-- The state of reading between two tokens. -/
structure Progress where
  /-- What is open and where it was opened, innermost first. -/
  opened : List (Opening × Position)
  /-- The complete forms that stand outside all brackets, the latest first. -/
  forms : List Value

namespace Progress

def start : Progress := ⟨[], []⟩

/-- Hand a complete form to what is open around it. -/
def deliver (form : Value) (forms : List Value) : List (Opening × Position) → Progress
  | [] => ⟨[], form :: forms⟩
  | (.delimiter delimiter items, position) :: rest =>
      ⟨(.delimiter delimiter (form :: items), position) :: rest, forms⟩
  | (.quoteMark, _) :: rest => deliver form.quoted forms rest

/-- A complete form was read. -/
def add (progress : Progress) (form : Value) : Progress :=
  deliver form progress.forms progress.opened

/-- Something was opened. -/
def push (progress : Progress) (opening : Opening) (position : Position) : Progress :=
  { progress with opened := (opening, position) :: progress.opened }

end Progress

/-! ## Complete forms -/

/-- Pair up the forms of a map literal: keys, or strings in their place, with values. -/
def mapEntries : List Value → Except Flaw (List (Key × Value))
  | [] => .ok []
  | [_] => .error .oddMapLiteral
  | .key key :: value :: rest => ((key, value) :: ·) <$> mapEntries rest
  | .text name :: value :: rest => ((⟨name⟩, value) :: ·) <$> mapEntries rest
  | other :: _ :: _ => .error (.badMapKey other.display)

/-- The form that a closed bracket makes of the forms inside it. -/
def closeForm (delimiter : Delimiter) (items : List Value) : Except Flaw Value :=
  match delimiter with
  | .paren => .ok (.list items)
  | .bracket => .ok (.vector items)
  | .brace =>
      if items.length % 2 = 1 then .error .oddMapLiteral
      else (fun pairs => .map (Entries.ofList pairs)) <$> mapEntries items

/-- A number, by its digits. -/
def numberForm (digits : List Char) : Except Flaw Value :=
  match Decimal.ofString? (String.ofList digits) with
  | some n => .ok (.number n)
  | none => .error (.badNumber (String.ofList digits))

/-- A string, by the text between its quotes. -/
def textForm (body : List Char) : Except Flaw Value :=
  match Quoted.decode body with
  | .ok text => .ok (.text (String.ofList text))
  | .error escape => .error (.badEscape escape)

/-! ## One token at a time -/

/-- The effect of one token. -/
def Progress.step (progress : Progress) (token : Token) : Except Error Progress :=
  let position := token.position
  let complete (form : Except Flaw Value) : Except Error Progress :=
    match form with
    | .ok form => .ok (progress.add form)
    | .error flaw => .error ⟨flaw, position⟩
  match token.lexeme with
  | .opening delimiter => .ok (progress.push (.delimiter delimiter []) position)
  | .quoteMark => .ok (progress.push .quoteMark position)
  | .number digits => complete (numberForm digits)
  | .text body => complete (textForm body)
  | .openText _ => .error ⟨.unterminatedString, position⟩
  | .key name => complete (.ok (.key ⟨String.ofList name⟩))
  | .symbol name => complete (.ok (.symbol ⟨String.ofList name, some position⟩))
  | .closing delimiter =>
      match progress.opened with
      | (.delimiter opened items, openedAt) :: rest =>
          if opened = delimiter then
            match closeForm delimiter items.reverse with
            | .ok form => .ok (Progress.add { progress with opened := rest } form)
            | .error flaw => .error ⟨flaw, openedAt⟩
          else .error ⟨.unexpectedToken (String.ofList token.lexeme.chars), position⟩
      | _ => .error ⟨.unexpectedToken (String.ofList token.lexeme.chars), position⟩

/-- What the end of the tokens makes of the progress: all forms, or an error for what is still
open. -/
def Progress.finish (progress : Progress) : Except Error (List Value) :=
  match progress.opened with
  | [] => .ok progress.forms.reverse
  | (.delimiter delimiter _, position) :: _ =>
      .error ⟨.unclosedDelimiter delimiter.opening, position⟩
  | (.quoteMark, position) :: _ => .error ⟨.danglingQuote, position⟩

/-! ## Reading source text -/

/-- Every form of a row of tokens. -/
def formsOf (tokens : List Token) : Except Error (List Value) :=
  tokens.foldlM Progress.step Progress.start >>= Progress.finish

/-- Every form of a source text, in order. -/
def readAll (source : String) : Except Error (List Value) :=
  tokens source >>= formsOf

/-- The first form of a row of tokens, and the tokens behind it. -/
def firstForm (progress : Progress) : List Token → Except Error (Option Value × List Token)
  | [] => (fun forms => (forms.head?, [])) <$> progress.finish
  | token :: rest =>
      match progress.step token with
      | .error error => .error error
      | .ok ⟨[], form :: _⟩ => .ok (some form, rest)
      | .ok progress => firstForm progress rest

/-- The only form of a source text; a text without any reads as nil. -/
def readOne (source : String) : Except Error Value := do
  match ← firstForm .start (← tokens source) with
  | (form, []) => .ok (form.getD .nil)
  | (_, token :: _) => .error ⟨.trailingInput, token.position⟩

end Reader
end LazyLisp
