import LazyLisp.Store.Basic

/-!
# Script — what native functions ask of the evaluator

A native function decides for itself which of its operands to evaluate, in which order and in which
scope, but it does not evaluate them: it says what it wants done and carries on with the answer.
Such a dialogue is a script.  It ends with a result, or it asks for an operation of the store, or
it asks for a form to be evaluated and goes on whether that fails or not.  This file defines:

* `Request` and its answers, the operations of the store that scripts use, and `Store.answer`;
* `Script` and its monad, in which a failure ends the script;
* one script for each request.
-/

namespace LazyLisp

/-! ## Requests -/

/-- An operation of the store. -/
inductive Request where
  | lookup (scope : Scope) (name : String)
  | openScope (outer : Scope)
  | bind (scope : Scope) (name : String) (value : Value)
  | bindLazy (scope : Scope) (name : String) (work : Suspension)
  | unbind (scope : Scope) (name : String)
  | start (scope : Scope) (name : String)
  | print (line : String)
  /-- Let some milliseconds pass. -/
  | pause (milliseconds : Nat)
  | environmentVariable (name : String)
  | clock
  /-- Count one more call. -/
  | tally

/-- What is answered to a request. -/
abbrev Request.Answer : Request → Type
  | .lookup _ _ => Result
  | .openScope _ => Scope
  | .bind _ _ _ => Unit
  | .bindLazy _ _ _ => CellId
  | .unbind _ _ => Except Failure Unit
  | .start _ _ => Except Failure Unit
  | .print _ => Unit
  | .pause _ => Unit
  | .environmentVariable _ => Option String
  | .clock => Nat
  | .tally => Nat

/-- Answer a request, and change the store accordingly. -/
def Store.answer (store : Store) : (request : Request) → request.Answer × Store
  | .lookup scope name => (store.get scope name, store)
  | .openScope outer => store.child outer
  | .bind scope name value => ((), store.set scope name value)
  | .bindLazy scope name work => store.setLazy scope name work
  | .unbind scope name => store.delete scope name
  | .start scope name => store.startAsync scope name
  | .print line => ((), store.print line)
  | .pause milliseconds =>
      ((), { store with world := { store.world with clock := store.world.clock + milliseconds } })
  | .environmentVariable name => (store.world.environment.lookup name, store)
  | .clock => (store.world.clock, store)
  | .tally =>
      let tally := store.world.tally + 1
      (tally, { store with world := { store.world with tally := tally } })

/-! ## Scripts -/

/-- A dialogue with the evaluator that ends with an `α` or a failure. -/
inductive Script (α : Type) : Type where
  | done (result : Except Failure α)
  | ask (request : Request) (next : request.Answer → Script α)
  /-- Evaluate a form to a value that is not suspended. -/
  | eval (form : Value) (scope : Scope) (next : Result → Script α)

namespace Script

variable {α β : Type}

/-- Carry on with the outcome of a script, unless it fails. -/
def bind (script : Script α) (next : α → Script β) : Script β :=
  match script with
  | .done (.ok a) => next a
  | .done (.error failure) => .done (.error failure)
  | .ask request k => .ask request fun answer => (k answer).bind next
  | .eval form scope k => .eval form scope fun result => (k result).bind next

instance : Monad Script where
  pure a := .done (.ok a)
  bind := bind

instance : Inhabited (Script α) := ⟨.done (.error default)⟩

/-- End the script with a failure. -/
def fail (cause : Cause) : Script α :=
  .done (.error { cause := cause })

/-! ### Evaluation -/

/-- The value of a form.  If the form fails, so does the script. -/
def value (form : Value) (scope : Scope) : Script Value :=
  .eval form scope .done

/-- The outcome of a form, be it a failure. -/
def attempt (form : Value) (scope : Scope) : Script Result :=
  .eval form scope fun result => .done (.ok result)

/-- The values of forms, evaluated in order. -/
def values (forms : List Value) (scope : Scope) : Script (List Value) :=
  forms.mapM fun form => value form scope

/-- Leave the evaluation of a form to whoever receives the outcome of the script.  The last thing
that a function does is left in this way, so that it does not have to wait for it. -/
def tail (form : Value) (scope : Scope) : Script Value :=
  pure (.suspended (.form form scope))

/-! ### Requests -/

def lookup (scope : Scope) (name : String) : Script Value :=
  .ask (.lookup scope name) .done

def openScope (outer : Scope) : Script Scope :=
  .ask (.openScope outer) fun scope => .done (.ok scope)

def bindName (scope : Scope) (name : String) (value : Value) : Script Unit :=
  .ask (.bind scope name value) fun _ => .done (.ok ())

def bindLazy (scope : Scope) (name : String) (work : Suspension) : Script CellId :=
  .ask (.bindLazy scope name work) fun cell => .done (.ok cell)

def unbind (scope : Scope) (name : String) : Script Unit :=
  .ask (.unbind scope name) .done

def start (scope : Scope) (name : String) : Script Unit :=
  .ask (.start scope name) .done

def print (line : String) : Script Unit :=
  .ask (.print line) fun _ => .done (.ok ())

def pause (milliseconds : Nat) : Script Unit :=
  .ask (.pause milliseconds) fun _ => .done (.ok ())

def environmentVariable (name : String) : Script (Option String) :=
  .ask (.environmentVariable name) fun text => .done (.ok text)

def clock : Script Nat :=
  .ask .clock fun milliseconds => .done (.ok milliseconds)

def tally : Script Nat :=
  .ask .tally fun count => .done (.ok count)

/-! ### Laws -/

@[simp] theorem bind_done_ok (a : α) (next : α → Script β) :
    (Script.done (.ok a)).bind next = next a := rfl

@[simp] theorem bind_done_error (failure : Failure) (next : α → Script β) :
    (Script.done (.error failure)).bind next = .done (.error failure) := rfl

theorem bind_pure (script : Script α) :
    (script.bind fun a => .done (.ok a)) = script := by
  induction script with
  | done result => cases result <;> rfl
  | ask request k ih => simp [bind, ih]
  | eval form scope k ih => simp [bind, ih]

theorem bind_assoc {γ : Type} (script : Script α) (f : α → Script β) (g : β → Script γ) :
    (script.bind f).bind g = script.bind fun a => (f a).bind g := by
  induction script with
  | done result => cases result <;> rfl
  | ask request k ih => simp [bind, ih]
  | eval form scope k ih => simp [bind, ih]

instance : LawfulMonad Script := LawfulMonad.mk' Script
  (fun script => bind_pure script)
  (fun _ _ => rfl)
  (fun script f g => bind_assoc script f g)

end Script
end LazyLisp
