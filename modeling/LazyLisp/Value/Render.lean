import LazyLisp.Decimal.Text
import LazyLisp.Text.Quoted
import LazyLisp.Value.Basic

/-!
# Render — values as text

A value has two texts.  `Value.display` is for people and for messages: strings stand as they are,
symbols show their name.  `Value.inspect` is for the interactive session: strings are quoted,
symbols carry the place they were read at, functions list their parameters, and collections nested
deeper than `Value.inspectDepth` shrink to an ellipsis unless they are empty.
-/

namespace LazyLisp

/-- Items between brackets, one space apart. -/
def bracketed (opening closing : String) (items : List String) : String :=
  opening ++ " ".intercalate items ++ closing

/-- A symbol with its place: `name<line,column;offset>`. -/
def Symbol.inspect (symbol : Symbol) : String :=
  match symbol.position with
  | some ⟨line, column, offset⟩ =>
      symbol.name ++ "<" ++ toString line ++ "," ++ toString column ++ ";" ++ toString offset ++ ">"
  | none => symbol.name ++ "<?>"

def Func.display (func : Func) : String := "&" ++ func.name

/-- A function with its parameters, if it was made by a program. -/
def Func.inspect : Func → String
  | .native name _ => "&" ++ name
  | .closure name params _ _ => "&" ++ name ++ bracketed "(" ")" (params.map Symbol.name)

/-- Suspended work shows its call site, but only on its own: inside a value it is just
`<thunk>`. -/
def Suspension.inspect (work : Suspension) : String :=
  match work.callSite? with
  | some site => "<thunk " ++ site.name ++ ">"
  | none => "<thunk>"

/-! ## The plain text -/

mutual

/-- The text of a value for people. -/
def Value.display : Value → String
  | .nil => "nil"
  | .bool true => "true"
  | .bool false => "false"
  | .number n => n.render
  | .text s => s
  | .symbol symbol => symbol.name
  | .key key => key.render
  | .list items => bracketed "(" ")" (Value.displayAll items)
  | .vector items => bracketed "[" "]" (Value.displayAll items)
  | .map entries => bracketed "\x7b" "\x7d" (Entries.display entries)
  | .func func => func.display
  | .suspended _ => "<thunk>"

def Value.displayAll : List Value → List String
  | [] => []
  | value :: rest => value.display :: Value.displayAll rest

/-- One text for each entry, key and value. -/
def Entries.display : List (Key × Value) → List String
  | [] => []
  | (key, value) :: rest => (key.render ++ " " ++ value.display) :: Entries.display rest

end

/-! ## The detailed text -/

/-- The nesting depth from which on collections are not shown. -/
def Value.inspectDepth : Nat := 6

/-- A collection at `depth`: its items between brackets, or an ellipsis in place of any. -/
def inspected (depth : Nat) (opening closing : String) (items : List String) : String :=
  if Value.inspectDepth ≤ depth ∧ items ≠ [] then opening ++ "…" ++ closing
  else bracketed opening closing items

mutual

/-- The detailed text of a value that is nested in `depth` collections. -/
def Value.inspectAt (depth : Nat) : Value → String
  | .text s => Quoted.encode s
  | .symbol symbol => symbol.inspect
  | .func func => func.inspect
  | .list items => inspected depth "(" ")" (Value.inspectAll depth items)
  | .vector items => inspected depth "[" "]" (Value.inspectAll depth items)
  | .map entries => inspected depth "\x7b" "\x7d" (Entries.inspect depth entries)
  | .nil => "nil"
  | .bool true => "true"
  | .bool false => "false"
  | .number n => n.render
  | .key key => key.render
  | .suspended _ => "<thunk>"

/-- The detailed texts of the elements of a collection that is itself nested in `depth` others. -/
def Value.inspectAll (depth : Nat) : List Value → List String
  | [] => []
  | value :: rest => value.inspectAt (depth + 1) :: Value.inspectAll depth rest

/-- The detailed texts of the entries of a map that is itself nested in `depth` collections. -/
def Entries.inspect (depth : Nat) : List (Key × Value) → List String
  | [] => []
  | (key, value) :: rest =>
      (key.render ++ " " ++ value.inspectAt (depth + 1)) :: Entries.inspect depth rest

end

/-- The detailed text of a value. -/
def Value.inspect (value : Value) : String := value.inspectAt 0

end LazyLisp
