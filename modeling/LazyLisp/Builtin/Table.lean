import LazyLisp.Builtin.Binding
import LazyLisp.Builtin.Code
import LazyLisp.Builtin.Control
import LazyLisp.Builtin.Data
import LazyLisp.Builtin.Function
import LazyLisp.Builtin.Number

/-!
# Table — the builtin functions under their names

This file ties names, operations and scripts together:

* `Host`, the functions that a host program adds of its own;
* `Operation.perform`, the script that an operation carries out for a call;
* `Func.enter`, the script of a call of any function;
* `Builtin.table`, the name and operation of every builtin, and `Builtin.names`;
* `Store.base`, a store with one frame that binds them all.
-/

namespace LazyLisp

/-! ## Performing operations -/

/-- The functions of a host program, by the names under which it knows them. -/
structure Host where
  perform : String → Call → Script Value

/-- A host program without functions of its own. -/
def Host.empty : Host where
  perform name _ := Script.fail (.custom ("no host function " ++ name))

/-- The script that an operation carries out for a call. -/
def Operation.perform (host : Host) : Operation → Call → Script Value
  | .choose => Builtin.choose
  | .inOrder => Builtin.inOrder
  | .bindLocals => Builtin.bindLocals
  | .conjoin => Builtin.conjoin
  | .disjoin => Builtin.disjoin
  | .raise => Builtin.raise
  | .recover => Builtin.recover
  | .define => Builtin.define
  | .undefine => Builtin.undefine
  | .defineFunction => Builtin.defineFunction
  | .lambda => Builtin.lambda
  | .add => Builtin.add
  | .subtract => Builtin.subtract
  | .multiply => Builtin.multiply
  | .quotient => Builtin.quotient
  | .remainder => Builtin.remainder
  | .divide => Builtin.divide
  | .compare comparison => Builtin.compare comparison
  | .test predicate => Builtin.test predicate
  | .kindOf => Builtin.kindOf
  | .equal => Builtin.equal
  | .count => Builtin.count
  | .isEmpty => Builtin.isEmpty
  | .get => Builtin.get
  | .list => Builtin.list
  | .map => Builtin.map
  | .apply => Builtin.apply
  | .quote => Builtin.quote
  | .evaluate => Builtin.evaluate
  | .read => Builtin.read
  | .async => Builtin.async
  | .wait => Builtin.wait
  | .print => Builtin.print
  | .host name => host.perform name

/-- The script of a call of `func`. -/
def Func.enter (host : Host) (func : Func) (head : Value) (operands : List Value) (scope : Scope) :
    Script Value :=
  match func with
  | .native name operation => operation.perform host ⟨name, head, operands, scope⟩
  | .closure name params body inner =>
      Builtin.enterClosure name params body inner operands scope

/-! ## Names -/

namespace Builtin

/-- Every builtin, by name. -/
def table : List (String × Operation) :=
  [ -- control
    ("if", .choose), ("do", .inOrder), ("let", .bindLocals), ("and", .conjoin), ("or", .disjoin),
    ("throw", .raise), ("try", .recover),
    -- definitions
    ("def!", .define), ("free!", .undefine), ("defn!", .defineFunction), ("fn*", .lambda),
    ("func", .lambda), ("catch", .lambda),
    -- numbers
    ("add", .add), ("sub", .subtract), ("mul", .multiply), ("quot", .quotient),
    ("div", .quotient), ("rem", .remainder), ("quot*", .divide), ("div*", .divide),
    ("lt?", .compare .less), ("lteq?", .compare .atMost), ("gt?", .compare .greater),
    ("gteq?", .compare .atLeast),
    -- tests
    ("nil?", .test .isNil), ("null?", .test .isNil), ("true?", .test .isTrue),
    ("false?", .test .isFalse), ("bool", .test .isTruthy), ("not", .test .isFalsy),
    ("type", .kindOf), ("list?", .test (.hasKind .list)), ("expr?", .test (.hasKind .list)),
    ("vector?", .test (.hasKind .vector)), ("map?", .test (.hasKind .map)),
    ("hash?", .test (.hasKind .map)), ("symbol?", .test (.hasKind .symbol)),
    ("string?", .test (.hasKind .text)), ("number?", .test (.hasKind .number)),
    ("bool?", .test (.hasKind .bool)), ("key?", .test (.hasKind .key)),
    ("func?", .test (.hasKind .func)), ("equal?", .equal),
    -- collections
    ("count", .count), ("empty?", .isEmpty), ("get", .get), ("list", .list), ("map", .map),
    ("apply", .apply),
    -- code
    ("quote", .quote), ("eval", .evaluate), ("parse", .read),
    -- background
    ("async", .async), ("wait", .wait),
    -- printing
    ("prn", .print) ]

/-- The names of all builtins. -/
def names : List String := table.map Prod.fst

/-- The constants of the language. -/
def constants : List (String × Value) :=
  [("nil", .nil), ("true", .bool true), ("false", .bool false)]

/-- The bindings of the outermost frame. -/
def frame : Frame :=
  constants.map (fun entry => (entry.1, .value entry.2)) ++
    table.map fun entry => (entry.1, .value (.func (.native entry.1 entry.2)))

end Builtin

/-- The scope of the outermost frame. -/
def Scope.base : Scope := ⟨0, []⟩

/-- A store with one frame, which binds the constants and the builtins. -/
def Store.base : Store := { frames := #[Builtin.frame] }

/-- Bind functions of the host program in the innermost frame of `scope`. -/
def Store.install (store : Store) (scope : Scope) (names : List String) : Store :=
  names.foldl (fun store name => store.set scope name (.func (.native name (.host name)))) store

end LazyLisp
