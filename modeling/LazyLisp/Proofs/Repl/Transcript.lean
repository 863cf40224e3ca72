import LazyLisp.Proofs.Machine.Output
import LazyLisp.Proofs.Repl.Session

/-!
# Transcript — a session without workers

Where no work is started, the machine can carry out a session by itself: it evaluates every form to
its end, and takes the printed text away in between.  What it has to show for that is what a session
over a system does, and it leaves the same store, less the text that was taken away.

Main result: `exists_session_of_transcript`.
-/

namespace LazyLisp
namespace Repl

open Async Machine

variable {host : Host} {fuel : Nat} {prompt : String} {scope : Scope} {phase : Phase}
  {lines : List String} {store final : Store} {events : List Event} {system : System}

theorem workers_of_evaluate {form : Value} {result : Result} {later : Store}
    (h : Machine.evaluate host fuel form scope store = .finished result later) :
    store.workers ≤ later.workers := by
  obtain ⟨steps, hhalts⟩ := finished_iff_halts.mp ⟨fuel, h⟩
  exact workers_of_halts hhalts

/-- No worker is let go. -/
theorem workers_of_session
    (h : session host fuel prompt scope phase lines store = (events, some final)) :
    store.workers ≤ final.workers := by
  fun_induction session host fuel prompt scope phase lines store generalizing events with
  | case1 phase lines store text next haction later store' hsession ih =>
      cases h
      exact ih hsession
  | case2 phase lines store next haction ih => exact ih h
  | case3 phase lines store form next haction result after hform printed taken htaken later store'
      hsession ih =>
      cases h
      cases htaken
      exact Nat.le_trans (workers_of_evaluate hform) (ih hsession)
  | case4 => cases h
  | case5 => cases h
  | case6 phase lines store haction =>
      cases h
      exact Nat.le_refl _

/-- The text that a session writes. -/
def said (deeds : List Deed) : String :=
  String.join <| deeds.map fun deed => match deed with
    | .wrote text => text
    | .evaluated _ _ => ""

section

variable (text : String) (deeds : List Deed) (events : List Event)

@[simp] theorem said_wrote : said (.wrote text :: deeds) = text ++ said deeds := by simp [said]

@[simp] theorem said_evaluated (form : Value) (result : Result) :
    said (.evaluated form result :: deeds) = said deeds := by simp [said]

@[simp] theorem written_wrote : written (.wrote text :: events) = text ++ written events := by
  simp [written]

@[simp] theorem written_printed : written (.printed text :: events) = written events := by
  simp [written]

@[simp] theorem printed_wrote : printed (.wrote text :: events) = printed events := by
  simp [printed]

@[simp] theorem printed_printed : printed (.printed text :: events) = text ++ printed events := by
  simp [printed]

end

/-- Behind text that was printed before, a system can do what the machine does by itself. -/
theorem exists_session_of_session
    (h : session host fuel prompt scope phase lines store = (events, some final))
    (hworkers : final.workers = store.workers) (halone : Alone system) {text : String}
    (hstore : system.store = store.prepend text) :
    ∃ deeds last, Session host prompt scope phase lines system deeds last ∧
      said deeds = written events ∧ last.store = final.prepend (text ++ printed events) := by
  fun_induction session host fuel prompt scope phase lines store
    generalizing events system text with
  | case1 phase lines store wrote next haction later store' hsession ih =>
      cases h
      obtain ⟨deeds, last, hlast, hsaid, hfinal⟩ := ih hsession hworkers halone hstore
      exact ⟨_, last, .write haction hlast, by simp [hsaid], by simpa using hfinal⟩
  | case2 phase lines store next haction ih =>
      obtain ⟨deeds, last, hlast, hsaid, hfinal⟩ := ih h hworkers halone hstore
      exact ⟨deeds, last, .read haction hlast, hsaid, hfinal⟩
  | case3 phase lines store form next haction result after hform printed taken htaken later store'
      hsession ih =>
      cases h
      cases htaken
      have hmore := workers_of_session hsession
      have hsame : after.workers = store.workers :=
        Nat.le_antisymm (hworkers ▸ hmore) (workers_of_evaluate hform)
      have hrun : Machine.evaluate host fuel form scope system.store =
          .finished result (after.prepend text) := by
        rw [hstore, evaluate_prepend, hform]
        rfl
      obtain ⟨hperforms, halone'⟩ :=
        halone.performs hrun (hsame.trans (congrArg Store.workers hstore).symm)
      -- What the machine has taken away stays in the store of the system.
      have hkept : after.prepend text =
          after.takeOutput.2.prepend (text ++ after.takeOutput.1) := by
        rw [Store.prepend_append, Store.prepend_takeOutput]
      obtain ⟨deeds, last, hlast, hsaid, hfinal⟩ :=
        ih hsession (hworkers.trans hsame.symm) halone' hkept
      rw [String.append_assoc, ← printed_printed] at hfinal
      exact ⟨_, last, .evaluate haction hperforms hlast, by simp [hsaid], hfinal⟩
  | case4 => cases h
  | case5 => cases h
  | case6 phase lines store haction =>
      cases h
      exact ⟨[], system, .stop haction .refl, rfl, by simpa [printed] using hstore⟩

/-- What a transcript shows is what a session does, if no work is started. -/
theorem exists_session_of_transcript {source : String}
    (h : transcript host fuel prompt scope source store = (events, some final))
    (hworkers : final.workers = store.workers) (halone : Alone system)
    (hstore : system.store = store) :
    ∃ deeds last,
      Session host prompt scope (.asking "") (splitLines [] source.toList) system deeds last ∧
        said deeds = written events ∧ last.store = final.prepend (printed events) := by
  have hsame : system.store = store.prepend "" := by rw [hstore, Store.prepend_empty]
  simpa using exists_session_of_session h hworkers halone hsame

end Repl
end LazyLisp
