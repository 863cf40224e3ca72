/-!
# Position — places in source text

A position names a place in a source text three times over: by line and column, for people, and by
byte offset.  Lines and columns count from one and a column is a number of characters; offsets count
from zero in bytes of UTF-8.  This file defines `Position.advance`, which moves a position past one
character, and with it every position that reading produces.

* `line_advanceBy` says that lines count line breaks;
* `offset_advanceBy` says that offsets count bytes.
-/

namespace LazyLisp

/-- A place in a source text. -/
structure Position where
  /-- Line, counted from one. -/
  line : Nat
  /-- Characters since the start of the line, counted from one. -/
  column : Nat
  /-- Bytes since the start of the text. -/
  offset : Nat
deriving DecidableEq, Repr, Inhabited

namespace Position

/-- Where every source text begins. -/
def start : Position := ⟨1, 1, 0⟩

/-- The position behind `c`, if `c` stands at `position`. -/
def advance (position : Position) (c : Char) : Position :=
  if c = '\n' then ⟨position.line + 1, 1, position.offset + c.utf8Size⟩
  else ⟨position.line, position.column + 1, position.offset + c.utf8Size⟩

/-- The position behind a stretch of text. -/
def advanceBy (position : Position) (text : List Char) : Position :=
  text.foldl advance position

/-- `line:column`. -/
def render (position : Position) : String :=
  toString position.line ++ ":" ++ toString position.column

@[simp] theorem advanceBy_nil (position : Position) : position.advanceBy [] = position := rfl

@[simp] theorem advanceBy_cons (position : Position) (c : Char) (text : List Char) :
    position.advanceBy (c :: text) = (position.advance c).advanceBy text := rfl

theorem advanceBy_append (position : Position) (text rest : List Char) :
    position.advanceBy (text ++ rest) = (position.advanceBy text).advanceBy rest := by
  simp [advanceBy]

/-- Offsets count the bytes of the text in between. -/
theorem offset_advanceBy (position : Position) (text : List Char) :
    (position.advanceBy text).offset = position.offset + (String.ofList text).utf8ByteSize := by
  induction text generalizing position with
  | nil => simp
  | cons c text ih =>
      have hc : (position.advance c).offset = position.offset + c.utf8Size := by
        unfold advance
        split <;> rfl
      have htext : String.ofList (c :: text) = String.singleton c ++ String.ofList text := by
        rw [String.singleton_eq_ofList, ← String.ofList_append]
        rfl
      simp only [advanceBy_cons, ih, hc, htext, String.utf8ByteSize_append,
        String.utf8ByteSize_singleton]
      omega

/-- Lines count the line breaks of the text in between. -/
theorem line_advanceBy (position : Position) (text : List Char) :
    (position.advanceBy text).line = position.line + text.count '\n' := by
  induction text generalizing position with
  | nil => simp
  | cons c text ih =>
      by_cases hc : c = '\n'
      · subst hc
        simp [ih, advance]
        omega
      · simp [ih, advance, hc]

end Position
end LazyLisp
