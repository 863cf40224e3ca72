import LazyLisp.Position

/-!
# Reader errors — why source text cannot be read

Each error has a cause and a position: that of the offending character or token, or of the opening
delimiter, quote mark or string that is left unfinished.  An error is *incomplete* when more text
could finish what is open; all others are final.
-/

namespace LazyLisp
namespace Reader

/-- The ways in which source text is malformed. -/
inductive Flaw where
  /-- A character that no token begins with. -/
  | unexpectedChar (c : Char)
  /-- A closing delimiter with no matching opener. -/
  | unexpectedToken (token : String)
  | unclosedDelimiter (delimiter : Char)
  | unterminatedString
  /-- A quote mark with nothing behind it. -/
  | danglingQuote
  | oddMapLiteral
  | badMapKey (found : String)
  | badEscape (escape : String)
  | badNumber (text : String)
  /-- More forms than the one that was asked for. -/
  | trailingInput
deriving DecidableEq, Repr

/-- A flaw, and where it is. -/
structure Error where
  flaw : Flaw
  position : Position
deriving DecidableEq, Repr

namespace Error

/-- Whether more text could complete the source. -/
def isIncomplete (error : Error) : Bool :=
  match error.flaw with
  | .unclosedDelimiter _ => true
  | .unterminatedString => true
  | .danglingQuote => true
  | _ => false

def message (error : Error) : String :=
  let place := error.position.render
  match error.flaw with
  | .unexpectedChar c => "unexpected character `" ++ c.toString ++ "` at " ++ place
  | .unexpectedToken token => "unexpected `" ++ token ++ "` at " ++ place
  | .unclosedDelimiter delimiter => "unclosed `" ++ delimiter.toString ++ "` opened at " ++ place
  | .unterminatedString => "unterminated string starting at " ++ place
  | .danglingQuote => "nothing to quote after `'` at " ++ place
  | .oddMapLiteral => "map literal at " ++ place ++ " needs an even number of forms"
  | .badMapKey found =>
      "map key must be a :key or a string, found `" ++ found ++ "` in map at " ++ place
  | .badEscape escape => "invalid escape `" ++ escape ++ "` in string at " ++ place
  | .badNumber text => "invalid number `" ++ text ++ "` at " ++ place
  | .trailingInput => "unexpected trailing input at " ++ place

end Error
end Reader
end LazyLisp
