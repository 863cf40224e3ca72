import LazyLisp.Builtin.Operation
import LazyLisp.Decimal.Basic
import LazyLisp.Failure

/-!
# Value — data, code, functions and suspended work

Programs and the data they work on are values of one type.  Three things in a value refer to the
store of the evaluation: a function remembers the scope it was made in, a suspended form the scope
it is to be evaluated in, and a suspended binding the cell that holds its outcome.  All three are
plain names, so values can be compared, renamed and rendered without a store.  This file defines:

* `Scope`, a chain of frames, and the names of frames and cells;
* `Symbol` and `Key`;
* `Value`, `Func` and `Suspension`;
* `Value.kind` and truthiness;
* `Entries`, the operations on the entries of a map, which are kept in the order of their keys, and
  `Entries.get?_insert`, what storing an entry means to those who read it.
-/

namespace LazyLisp

/-! ## Names in the store -/

/-- The name of a frame of bindings. -/
abbrev FrameId := Nat

/-- The name of a cell that holds a lazy binding. -/
abbrev CellId := Nat

/-- A chain of frames.  New bindings go to the first one; looking a name up tries them in turn. -/
structure Scope where
  frame : FrameId
  outer : List FrameId
deriving DecidableEq, Repr, Inhabited

/-- The frames of a scope, innermost first. -/
def Scope.frames (scope : Scope) : List FrameId :=
  scope.frame :: scope.outer

/-! ## Symbols and keys -/

/-- A name in a program, and the place it was read at.  The place is there for messages only. -/
structure Symbol where
  name : String
  position : Option Position
deriving DecidableEq, Repr, Inhabited

/-- A symbol that no source text holds. -/
def Symbol.unplaced (name : String) : Symbol := ⟨name, none⟩

/-- The name of a map entry. -/
structure Key where
  name : String
deriving DecidableEq, Repr, Inhabited

/-- A key as source text shows it. -/
def Key.render (key : Key) : String := ":" ++ key.name

/-! ## Values -/

mutual

/-- Data and code. -/
inductive Value where
  | nil
  | bool (b : Bool)
  | number (n : Decimal)
  | text (s : String)
  | symbol (symbol : Symbol)
  | key (key : Key)
  /-- A call, when it is evaluated as code. -/
  | list (items : List Value)
  /-- Evaluated element by element, never a call. -/
  | vector (items : List Value)
  /-- Entries in the order of their keys, with no key twice. -/
  | map (entries : List (Key × Value))
  | func (func : Func)
  /-- Suspended work, which is never the final value of anything. -/
  | suspended (work : Suspension)

/-- A function. -/
inductive Func where
  /-- An operation, under the name it was installed by. -/
  | native (name : String) (operation : Operation)
  /-- Made by a program: its body is evaluated in a new frame inside `scope`. -/
  | closure (name : String) (params : List Symbol) (body : Value) (scope : Scope)

/-- Work that has not been done yet.  Resuming it yields a value, which may be suspended again. -/
inductive Suspension where
  /-- A form to evaluate. -/
  | form (form : Value) (scope : Scope)
  /-- A call of `func` by the form with this head and these operands. -/
  | call (func : Func) (head : Value) (operands : List Value) (scope : Scope)
  /-- A lazy binding to resolve. -/
  | binding (cell : CellId)
  /-- A step with a known result, traced if it has a call site. -/
  | given (site : Option CallSite) (result : Except Failure Value)

end

instance : Inhabited Value := ⟨.nil⟩

/-- What a step of evaluation comes to. -/
abbrev Result := Except Failure Value

/-! ## Inspection -/

namespace Value

def int (n : Int) : Value := .number (.ofInt n)

/-- `(quote value)`. -/
def quoted (value : Value) : Value := .list [.symbol (.unplaced "quote"), value]

def kind : Value → Kind
  | .nil => .nil
  | .bool _ => .bool
  | .number _ => .number
  | .text _ => .text
  | .symbol _ => .symbol
  | .key _ => .key
  | .list _ => .list
  | .vector _ => .vector
  | .map _ => .map
  | .func _ => .func
  | .suspended _ => .suspension

/-- The name of the value's kind. -/
def kindName (value : Value) : String := value.kind.name

/-- Everything counts as true, except nil and false. -/
def isTruthy : Value → Bool
  | .nil => false
  | .bool b => b
  | _ => true

/-- The elements of a list or vector. -/
def elements? : Value → Option (List Value)
  | .list items => some items
  | .vector items => some items
  | _ => none

end Value

def Predicate.accepts : Predicate → Value → Bool
  | .isNil, value => value.kind == .nil
  | .isTrue, value => match value with
    | .bool b => b
    | _ => false
  | .isFalse, value => match value with
    | .bool b => !b
    | _ => false
  | .isTruthy, value => value.isTruthy
  | .isFalsy, value => !value.isTruthy
  | .hasKind kind, value => value.kind == kind

/-! ## Functions and calls -/

namespace Func

def name : Func → String
  | .native name _ => name
  | .closure name _ _ _ => name

/-- How a call of the function by a form with this head shows in a trace.  Only functions made by
programs show: by the symbol they were called through, or else by their own name. -/
def callSite? (func : Func) (head : Value) : Option CallSite :=
  match func, head with
  | .native _ _, _ => none
  | .closure _ _ _ _, .symbol symbol => some ⟨symbol.name, symbol.position⟩
  | .closure name _ _ _, _ => some ⟨name, none⟩

end Func

/-- The call site of suspended work that shows in a trace. -/
def Suspension.callSite? : Suspension → Option CallSite
  | .form _ _ => none
  | .call func head _ _ => func.callSite? head
  | .binding _ => none
  | .given site _ => site

/-! ## Entries of a map -/

namespace Entries

/-- The value stored under `key`. -/
def get? (key : Key) : List (Key × Value) → Option Value
  | [] => none
  | (k, value) :: rest => if k = key then some value else get? key rest

/-- Store `value` under `key`, in place of what was stored there before. -/
def insert (key : Key) (value : Value) : List (Key × Value) → List (Key × Value)
  | [] => [(key, value)]
  | (k, v) :: rest =>
      if key.name < k.name then (key, value) :: (k, v) :: rest
      else if key = k then (key, value) :: rest
      else (k, v) :: insert key value rest

/-- The entries of a map literal: where a key occurs twice, the last occurrence counts. -/
def ofList (pairs : List (Key × Value)) : List (Key × Value) :=
  pairs.foldl (fun entries pair => insert pair.1 pair.2 entries) []

/-- Storing a value changes what its key leads to, and nothing else. -/
theorem get?_insert (key other : Key) (value : Value) (entries : List (Key × Value)) :
    get? other (insert key value entries) =
      if key = other then some value else get? other entries := by
  induction entries with
  | nil => simp [insert, get?]
  | cons entry rest ih =>
      obtain ⟨k, v⟩ := entry
      unfold insert
      split
      · simp [get?]
      · split
        · next hkey =>
            subst hkey
            by_cases hother : key = other <;> simp [get?, hother]
        · next hkey =>
            by_cases hk : k = other
            · subst hk
              simp [get?, hkey]
            · simp [get?, hk, ih]

end Entries
end LazyLisp
