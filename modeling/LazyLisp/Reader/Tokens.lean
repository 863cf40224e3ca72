import LazyLisp.Reader.Error
import LazyLisp.Reader.Token

/-!
# Tokens — source text as a row of tokens

`Reader.tokens` cuts a source text into tokens.  Separators are dropped one by one, a comment up to
the line break that ends it, and everything else has to begin a token, which is then taken as long
as possible.  The whole text is cut before anything is done with the tokens, so a character that no
token begins with is an error wherever it stands.
-/

namespace LazyLisp
namespace Reader

/-- The text behind a comment, from the line break on. -/
def skipComment (text : List Char) : List Char :=
  text.dropWhile (· ≠ '\n')

/-- The tokens of a text that starts at `position`. -/
def tokensFrom (position : Position) (text : List Char) : Except Error (List Token) :=
  match text with
  | [] => .ok []
  | c :: rest =>
      if isSeparator c then tokensFrom (position.advance c) rest
      else if c = ';' then
        have : (skipComment rest).length ≤ rest.length := (List.dropWhile_sublist _).length_le
        tokensFrom (position.advanceBy (c :: rest.takeWhile (· ≠ '\n'))) (skipComment rest)
      else
        match hscan : Lexeme.scan? (c :: rest) with
        | none => .error ⟨.unexpectedChar c, position⟩
        | some (lexeme, after) =>
            have : after.length < (c :: rest).length := Lexeme.length_of_scan? hscan
            (⟨lexeme, position⟩ :: ·) <$> tokensFrom (position.advanceBy lexeme.chars) after
termination_by text.length
decreasing_by
  · simp
  · simp only [List.length_cons]
    omega
  · exact this

/-- The tokens of a source text. -/
def tokens (source : String) : Except Error (List Token) :=
  tokensFrom .start source.toList

end Reader
end LazyLisp
