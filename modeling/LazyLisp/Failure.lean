import LazyLisp.Position

/-!
# Failure — why an evaluation fails

A failure has a cause, which fixes its message, and a trace of the function calls it passed on its
way out.  This file defines:

* `Arity`, the operand counts that a function accepts;
* `CallSite`, a function call as a trace shows it;
* `Cause`, one constructor for each way to fail, and `Cause.message`, the only place with wording;
* `Failure`, a cause with its trace, innermost call first.
-/

namespace LazyLisp

/-! ## Operand counts -/

/-- The operand counts that a function accepts. -/
inductive Arity where
  | exactly (count : Nat)
  | between (least most : Nat)
  | atLeast (least : Nat)
deriving DecidableEq, Repr

namespace Arity

/-- Whether a call with `count` operands is well formed. -/
def accepts (arity : Arity) (count : Nat) : Bool :=
  match arity with
  | .exactly n => count == n
  | .between least most => least ≤ count && count ≤ most
  | .atLeast least => least ≤ count

def render : Arity → String
  | .exactly 1 => "1 arg"
  | .exactly n => toString n ++ " args"
  | .between least most => toString least ++ "-" ++ toString most ++ " args"
  | .atLeast least => "at least " ++ toString least ++ " args"

end Arity

/-! ## Traces -/

/-- A call of a user-defined function: the name it went by, and where that name was read. -/
structure CallSite where
  name : String
  position : Option Position
deriving DecidableEq, Repr, Inhabited

def CallSite.render (site : CallSite) : String :=
  match site.position with
  | some position => "at " ++ site.name ++ " (" ++ position.render ++ ")"
  | none => "at " ++ site.name

/-- The calls that a failure passed, innermost first. -/
abbrev Trace := Array CallSite

/-- One indented line for each call. -/
def Trace.render (trace : Trace) : String :=
  "\n".intercalate (trace.toList.map fun site => "  " ++ site.render)

/-! ## Causes -/

/-- The ways in which an evaluation fails. -/
inductive Cause where
  /-- No frame in scope binds the name. -/
  | unresolvedSymbol (name : String)
  | arityMismatch (name : String) (expected : Arity) (got : Nat)
  | typeMismatch (name expected got : String)
  /-- Raised by the program itself, with the text of the value it threw. -/
  | thrown (message : String)
  | parseFailure (message : String)
  | divisionByZero
  | invalidArgument (name reason : String)
  /-- A background evaluation could not be started, or its result not delivered. -/
  | asyncFailure (reason : String)
  /-- Raised by a function of the host program. -/
  | custom (message : String)
deriving DecidableEq, Repr, Inhabited

/-- The text of a cause, which is also what a handler gets to see. -/
def Cause.message : Cause → String
  | .unresolvedSymbol name => "unresolved symbol: " ++ name
  | .arityMismatch name expected got =>
      name ++ ": wanted " ++ expected.render ++ ", got " ++ toString got
  | .typeMismatch name expected got => name ++ ": expected " ++ expected ++ ", got " ++ got
  | .thrown message => message
  | .parseFailure message => "parse error: " ++ message
  | .divisionByZero => "division by zero"
  | .invalidArgument name reason => name ++ ": " ++ reason
  | .asyncFailure reason => "async evaluation failed: " ++ reason
  | .custom message => message

/-! ## Failures -/

/-- A cause, and the calls that it passed on its way out. -/
structure Failure where
  cause : Cause
  trace : Trace := #[]
deriving DecidableEq, Repr, Inhabited

namespace Failure

def message (failure : Failure) : String := failure.cause.message

/-- The failure after it has passed one more call. -/
def through (failure : Failure) (site : CallSite) : Failure :=
  { failure with trace := failure.trace.push site }

/-- The failure after it has passed a call, if there was one to pass. -/
def throughAny (failure : Failure) : Option CallSite → Failure
  | some site => failure.through site
  | none => failure

/-- The message, and below it the trace unless it is empty. -/
def render (failure : Failure) : String :=
  if failure.trace.isEmpty then failure.message
  else failure.message ++ "\n" ++ failure.trace.render

end Failure
end LazyLisp
