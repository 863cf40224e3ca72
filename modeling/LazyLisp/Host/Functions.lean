import LazyLisp.Builtin.Table

/-!
# Host functions — the clock, the environment, and probes

A host program may add functions of its own.  This file holds two groups of them:

* `now` and `getenv` look at the world around the program;
* the *probes* `tick`, `raw` and `oops` make evaluation itself visible: how often something is
  evaluated, what a call looks like to the function called, and where a failure passes.

`Host.standard` knows both groups; a name has to be installed before programs can use it.
-/

namespace LazyLisp
namespace HostFunction

/-- `(now)`: seconds since 1970, to the millisecond. -/
def now (call : Call) : Script Value :=
  match call.operands with
  | [] => do
      let milliseconds ← Script.clock
      pure (.number ⟨milliseconds, 3⟩)
  | _ => call.arityMismatch (.exactly 0)

/-- `(getenv name)`: an environment variable, or nil if it is not set. -/
def getenv (call : Call) : Script Value := do
  match ← call.single with
  | .text name =>
      match ← Script.environmentVariable name with
      | some text => pure (.text text)
      | none => pure .nil
  | other => call.typeMismatch "String" other

/-- `(tick form...)`: how often it has been called, this call included. -/
def tick (_ : Call) : Script Value := do
  let count ← Script.tally
  pure (.int count)

/-- `(raw form...)`: the call itself, unevaluated. -/
def raw (call : Call) : Script Value :=
  pure (.list (call.head :: call.operands))

/-- `(oops form?)`: fail, with the text of the form's value if there is one. -/
def oops (call : Call) : Script Value :=
  match call.operands with
  | [] => Script.fail (.custom "oops")
  | form :: _ => do
      let value ← call.value form
      Script.fail (.custom value.display)

/-- The functions that look at the world. -/
def worldly : List (String × (Call → Script Value)) :=
  [("now", now), ("getenv", getenv)]

/-- The functions that make evaluation visible. -/
def probes : List (String × (Call → Script Value)) :=
  [("tick", tick), ("raw", raw), ("oops", oops)]

end HostFunction

/-- A host program with the given functions. -/
def Host.ofTable (table : List (String × (Call → Script Value))) : Host where
  perform name :=
    match table.lookup name with
    | some function => function
    | none => Host.empty.perform name

/-- A host program with all functions of this file. -/
def Host.standard : Host :=
  Host.ofTable (HostFunction.worldly ++ HostFunction.probes)

end LazyLisp
