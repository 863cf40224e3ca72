/-!
# Operation — what native functions do

Every function that is not written in the language itself performs one operation.  Functions are
values that programs pass around, so an operation is a plain datum here, and what each one does is
defined where it is performed.  A name is bound to an operation by a table, and one operation may go
by several names.

* `Kind` lists the kinds of values, under the names by which programs see them;
* `Predicate` and `Comparison` list the tests on one value and on two numbers;
* `Operation` lists everything that a native function can do.
-/

namespace LazyLisp

/-- The kinds of values. -/
inductive Kind where
  | nil
  | bool
  | number
  | text
  | symbol
  | key
  | list
  | vector
  | map
  | func
  | suspension
deriving DecidableEq, Repr

/-- The name of a kind, as programs and messages show it. -/
def Kind.name : Kind → String
  | .nil => "Nil"
  | .bool => "Bool"
  | .number => "Number"
  | .text => "String"
  | .symbol => "Symbol"
  | .key => "Key"
  | .list => "List"
  | .vector => "Vector"
  | .map => "Map"
  | .func => "Func"
  | .suspension => "Thunk"

/-- Tests on one value. -/
inductive Predicate where
  | isNil
  | isTrue
  | isFalse
  | isTruthy
  | isFalsy
  | hasKind (kind : Kind)
deriving DecidableEq, Repr

/-- Tests on two numbers. -/
inductive Comparison where
  | less
  | atMost
  | greater
  | atLeast
deriving DecidableEq, Repr

/-- Whether two numbers in the given order pass the test. -/
def Comparison.accepts (comparison : Comparison) (order : Ordering) : Bool :=
  match comparison with
  | .less => order.isLT
  | .atMost => order.isLE
  | .greater => order.isGT
  | .atLeast => order.isGE

/-- What a native function does. -/
inductive Operation where
  /-- Evaluate one of two forms, as a test says. -/
  | choose
  /-- Evaluate forms one after the other. -/
  | inOrder
  /-- Evaluate a body under local bindings. -/
  | bindLocals
  /-- The first falsy operand, else the last. -/
  | conjoin
  /-- The first truthy operand, else the last. -/
  | disjoin
  /-- Fail with a value's text. -/
  | raise
  /-- Evaluate a form, and call a handler if it fails. -/
  | recover
  /-- Bind a name lazily in the current frame. -/
  | define
  /-- Remove a binding. -/
  | undefine
  /-- Bind a name to a new function. -/
  | defineFunction
  /-- Make a function. -/
  | lambda
  | add
  | subtract
  | multiply
  /-- Quotient truncated at a decimal place. -/
  | quotient
  /-- What the truncated quotient leaves. -/
  | remainder
  /-- Long division. -/
  | divide
  | compare (comparison : Comparison)
  | test (predicate : Predicate)
  /-- The name of a value's kind. -/
  | kindOf
  | equal
  | count
  | isEmpty
  | get
  | list
  | map
  | apply
  /-- The operand itself, unevaluated. -/
  | quote
  /-- Evaluate an operand, and then its value. -/
  | evaluate
  /-- Read source text. -/
  | read
  /-- Start resolving lazy bindings in the background. -/
  | async
  /-- Wait for a number of seconds. -/
  | wait
  | print
  /-- A function of the host program, known to it by this name. -/
  | host (name : String)
deriving DecidableEq, Repr

end LazyLisp
