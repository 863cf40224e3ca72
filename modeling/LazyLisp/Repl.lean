import LazyLisp.Program

/-!
# Repl — the interactive session

Lines are collected until they hold complete forms.  Then every form is evaluated in one scope that
lasts for the session, and its value is shown in detail; the first form that fails ends the chunk of
lines, but not the session.  Lines that cannot be completed are reported and dropped.  What the
session does next depends on its phase only, so whoever drives it just carries the actions out.  This
file defines:

* `Repl.Chunk`, what the pending lines amount to;
* `Repl.Phase` and `Repl.Action`, with the action of each phase and the phase that follows it;
* `Repl.transcript`, a whole session as a row of events.
-/

namespace LazyLisp
namespace Repl

/-- The prompt while a form is still open. -/
def continuationPrompt : String := "... "

/-! ## Pending lines -/

/-- What the pending lines amount to. -/
inductive Chunk where
  | blank
  /-- More lines could complete them. -/
  | incomplete
  | malformed (error : Reader.Error)
  | forms (forms : List Value)

/-- What the pending lines amount to, before the end of input or at it. -/
def chunk (pending : String) (atEnd : Bool) : Chunk :=
  if Text.allBlank pending then .blank
  else
    match Reader.readAll pending with
    | .ok forms => .forms forms
    | .error error => if error.isIncomplete && !atEnd then .incomplete else .malformed error

/-- At the end of input, nothing can be completed. -/
theorem chunk_atEnd_ne_incomplete (pending : String) : chunk pending true ≠ .incomplete := by
  intro h
  unfold chunk at h
  split at h
  · cases h
  · split at h
    · cases h
    · simp at h

/-- The prompt for the next line. -/
def promptFor (prompt pending : String) : String :=
  if pending.isEmpty then prompt else continuationPrompt

/-- How a value is shown. -/
def shown (value : Value) : String := "→ " ++ value.inspect ++ "\n"

/-- How a failure is reported. -/
def reported (failure : Failure) : String := failure.render ++ "\n"

/-- How a reader error is reported. -/
def rejected (error : Reader.Error) : String :=
  reported { cause := .parseFailure error.message }

/-! ## Phases -/

/-- Where a session stands. -/
inductive Phase where
  /-- The user is to be asked for a line behind the pending ones. -/
  | asking (pending : String)
  | reading (pending : String)
  /-- The forms are to be evaluated, and after that the input may be at its end. -/
  | evaluating (forms : List Value) (atEnd : Bool)
  /-- The user is to be told something before that. -/
  | telling (text : String) (forms : List Value) (atEnd : Bool)
  | closed

/-- What a session does, with the phase that it is in after that. -/
inductive Action where
  | write (text : String) (next : Phase)
  /-- Read a line with its line break.  The empty line is the end of input. -/
  | read (next : String → Phase)
  | evaluate (form : Value) (next : Result → Phase)
  | stop

/-- A line was read. -/
def received (pending line : String) : Phase :=
  match chunk (pending ++ line) line.isEmpty with
  | .blank => .evaluating [] line.isEmpty
  | .incomplete => .asking (pending ++ line)
  | .malformed error => .telling (rejected error) [] line.isEmpty
  | .forms forms => .evaluating forms line.isEmpty

/-- A form was evaluated.  If it has failed, the forms behind it are dropped. -/
def answered (rest : List Value) (atEnd : Bool) : Result → Phase
  | .ok value => .telling (shown value) rest atEnd
  | .error failure => .telling (reported failure) [] atEnd

namespace Phase

/-- What a session does in the phase. -/
def action (prompt : String) : Phase → Action
  | asking pending => .write (promptFor prompt pending) (.reading pending)
  | reading pending => .read (received pending)
  | evaluating (form :: rest) atEnd => .evaluate form (answered rest atEnd)
  | evaluating [] false => .write (promptFor prompt "") (.reading "")
  | evaluating [] true => .write "\n" .closed
  | telling text forms atEnd => .write text (.evaluating forms atEnd)
  | closed => .stop

/-! ### Why sessions end -/

/-- Whether more lines may be read. -/
def isOpen : Phase → Bool
  | asking _ | reading _ => true
  | evaluating _ atEnd | telling _ _ atEnd => !atEnd
  | closed => false

/-- A bound for the number of actions before the next line is read. -/
def weight : Phase → Nat
  | asking _ => 2
  | reading _ => 1
  | evaluating forms _ => 2 * forms.length + 2
  | telling _ forms _ => 2 * forms.length + 3
  | closed => 1

variable {prompt text : String} {phase next : Phase}

theorem weight_of_write (h : phase.action prompt = .write text next) :
    next.isOpen = phase.isOpen ∧ next.weight < phase.weight := by
  fun_cases action prompt phase
  all_goals cases h
  all_goals exact ⟨rfl, Nat.lt_add_one _⟩

theorem weight_of_evaluate {form : Value} {next : Result → Phase}
    (h : phase.action prompt = .evaluate form next) (result : Result) :
    (next result).isOpen = phase.isOpen ∧ (next result).weight < phase.weight := by
  fun_cases action prompt phase
  all_goals cases h
  cases result with
  | ok value => exact ⟨rfl, Nat.lt_add_one _⟩
  | error failure =>
      refine ⟨rfl, ?_⟩
      simp only [answered, weight, List.length_nil, List.length_cons]
      omega

/-- Nothing is read behind the end of input. -/
theorem isOpen_of_read {next : String → Phase} (h : phase.action prompt = .read next) :
    phase.isOpen = true ∧ (next "").isOpen = false := by
  fun_cases action prompt phase
  all_goals cases h
  refine ⟨rfl, ?_⟩
  rw [received]
  split
  case h_2 hchunk => exact (chunk_atEnd_ne_incomplete _ hchunk).elim
  all_goals rfl

end Phase

/-! ## Sessions -/

/-- What happens in a session, as its user sees it. -/
inductive Event where
  /-- The session itself writes. -/
  | wrote (text : String)
  /-- The program prints. -/
  | printed (text : String)
deriving DecidableEq, Repr

/-- The session from a phase on, over the remaining lines.  There is no store to go on with if an
evaluation does not come to an end. -/
def session (host : Host) (fuel : Nat) (prompt : String) (scope : Scope) (phase : Phase)
    (lines : List String) (store : Store) : List Event × Option Store :=
  match _haction : phase.action prompt with
  | .write text next =>
      let (events, store) := session host fuel prompt scope next lines store
      (.wrote text :: events, store)
  | .read next => session host fuel prompt scope (next (lines.headD "")) lines.tail store
  | .evaluate form next =>
      match Machine.evaluate host fuel form scope store with
      | .finished result store =>
          let (printed, store) := store.takeOutput
          let (events, store) := session host fuel prompt scope (next result) lines store
          (.printed printed :: events, store)
      | .blocked _ store => ([.printed store.output], none)
      | .unfinished state => ([.printed state.store.output], none)
  | .stop => ([], some store)
termination_by (lines.length, phase.isOpen.toNat, phase.weight)
decreasing_by
  · obtain ⟨hopen, hweight⟩ := Phase.weight_of_write _haction
    rw [hopen]
    exact .right _ (.right _ hweight)
  · obtain ⟨hopen, hclosed⟩ := Phase.isOpen_of_read _haction
    cases lines with
    | nil =>
        refine .right _ (.left _ _ ?_)
        rw [List.headD_nil, hopen, hclosed]
        exact Nat.zero_lt_one
    | cons line rest => exact .left _ _ (Nat.lt_succ_self _)
  · obtain ⟨hopen, hweight⟩ := Phase.weight_of_evaluate _haction ‹Result›
    rw [hopen]
    exact .right _ (.right _ hweight)

/-- Cut a text behind its line breaks.  `line` holds the current line so far, backwards. -/
def splitLines (line : List Char) : List Char → List String
  | [] => if line.isEmpty then [] else [String.ofList line.reverse]
  | c :: rest =>
      if c = '\n' then String.ofList (c :: line).reverse :: splitLines [] rest
      else splitLines (c :: line) rest

/-- The events of a whole session over the text `input`. -/
def transcript (host : Host) (fuel : Nat) (prompt : String) (scope : Scope) (input : String)
    (store : Store) : List Event × Option Store :=
  session host fuel prompt scope (.asking "") (splitLines [] input.toList) store

/-! ## What the events leave behind -/

/-- The text that the session wrote. -/
def written (events : List Event) : String :=
  String.join <| events.map fun event => match event with
    | .wrote text => text
    | .printed _ => ""

/-- The text that programs printed. -/
def printed (events : List Event) : String :=
  String.join <| events.map fun event => match event with
    | .wrote _ => ""
    | .printed text => text

/-- Everything in order, as it appears on one screen. -/
def screen (events : List Event) : String :=
  String.join <| events.map fun event => match event with
    | .wrote text => text
    | .printed text => text

end Repl
end LazyLisp
