import LazyLisp.Proofs.Alike.Value

/-!
# Script — dialogues that go alike

Two scripts are alike if they make the same requests, about alike values and corresponding frames
and cells, and go on alike with alike answers.  The link between the two stores may have grown by
the time that an answer comes, so a script has to go on alike for every longer link.  This file
defines:

* `Except.Alike` and `Result.Alike`, results with alike values or alike failures;
* `Value.StepAlike`, what a step of evaluation leaves, which may be suspended;
* `Request.Alike`, and `Request.AnswerAlike` for the answers;
* `Script.Alike`, with one rule for each operation on scripts, `Script.Alike.bind` above all.
-/

namespace LazyLisp

variable {α β γ δ : Type} {likeness : Likeness} {link link' : Link}

/-! ## Results -/

/-- Alike failures, or successes in the given relation. -/
inductive Except.Alike (likeness : Likeness) (related : α → β → Prop) :
    Except Failure α → Except Failure β → Prop where
  | ok {a : α} {b : β} : related a b → Except.Alike likeness related (.ok a) (.ok b)
  | error {failure failure' : Failure} :
      failure.Alike likeness failure' →
        Except.Alike likeness related (.error failure) (.error failure')

theorem Except.Alike.imp {related related' : α → β → Prop}
    (himp : ∀ a b, related a b → related' a b) {result : Except Failure α}
    {result' : Except Failure β} (h : Except.Alike likeness related result result') :
    Except.Alike likeness related' result result' := by
  cases h with
  | ok h => exact .ok (himp _ _ h)
  | error h => exact .error h

/-- Outcomes of forms that are alike. -/
abbrev Result.Alike (likeness : Likeness) (link : Link) (result result' : Result) : Prop :=
  Except.Alike likeness (Value.Alike likeness link) result result'

theorem Failure.alike_refl (failure : Failure) : failure.Alike likeness failure :=
  ⟨rfl, likeness.traces_equivalence.refl _⟩

/-- What a step of evaluation leaves: a value, or suspended work. -/
inductive Value.StepAlike (likeness : Likeness) (link : Link) : Value → Value → Prop where
  | value {value value' : Value} :
      value.Alike likeness link value' → Value.StepAlike likeness link value value'
  | suspended {work work' : Suspension} :
      work.Alike likeness link work' →
        Value.StepAlike likeness link (.suspended work) (.suspended work')

/-! ## Requests -/

/-- The same request, about alike values and corresponding frames. -/
inductive Request.Alike (likeness : Likeness) (link : Link) : Request → Request → Prop where
  | lookup {scope scope' : Scope} (name : String) :
      scope.Alike link scope' →
        Request.Alike likeness link (.lookup scope name) (.lookup scope' name)
  | openScope {outer outer' : Scope} :
      outer.Alike link outer' → Request.Alike likeness link (.openScope outer) (.openScope outer')
  | bind {scope scope' : Scope} (name : String) {value value' : Value} :
      scope.Alike link scope' → value.Alike likeness link value' →
        Request.Alike likeness link (.bind scope name value) (.bind scope' name value')
  | bindLazy {scope scope' : Scope} (name : String) {work work' : Suspension} :
      scope.Alike link scope' → work.Alike likeness link work' →
        Request.Alike likeness link (.bindLazy scope name work) (.bindLazy scope' name work')
  | unbind {scope scope' : Scope} (name : String) :
      scope.Alike link scope' →
        Request.Alike likeness link (.unbind scope name) (.unbind scope' name)
  | start {scope scope' : Scope} (name : String) :
      scope.Alike link scope' →
        Request.Alike likeness link (.start scope name) (.start scope' name)
  | print (line : String) : Request.Alike likeness link (.print line) (.print line)
  | pause (milliseconds : Nat) :
      Request.Alike likeness link (.pause milliseconds) (.pause milliseconds)
  | environmentVariable (name : String) :
      Request.Alike likeness link (.environmentVariable name) (.environmentVariable name)
  | clock : Request.Alike likeness link .clock .clock
  | tally : Request.Alike likeness link .tally .tally

/-- Answers to alike requests that tell the same. -/
def Request.AnswerAlike (likeness : Likeness) (link : Link) :
    (request request' : Request) → request.Answer → request'.Answer → Prop
  | .lookup _ _, .lookup _ _, answer, answer' =>
      Except.Alike likeness (Value.StepAlike likeness link) answer answer'
  | .openScope _, .openScope _, answer, answer' => Scope.Alike link answer answer'
  | .bind _ _ _, .bind _ _ _, _, _ => True
  | .bindLazy _ _ _, .bindLazy _ _ _, answer, answer' => link.cells answer answer'
  | .unbind _ _, .unbind _ _, answer, answer' => Except.Alike likeness Eq answer answer'
  | .start _ _, .start _ _, answer, answer' => Except.Alike likeness Eq answer answer'
  | .print _, .print _, _, _ => True
  | .pause _, .pause _, _, _ => True
  | .environmentVariable _, .environmentVariable _, answer, answer' => answer = answer'
  | .clock, .clock, answer, answer' => answer = answer'
  | .tally, .tally, answer, answer' => answer = answer'
  | _, _, _, _ => False

/-! ## Scripts -/

/-- Scripts that make alike requests and end in related results. -/
inductive Script.Alike (likeness : Likeness) (related : Link → α → β → Prop) :
    Link → Script α → Script β → Prop where
  | done {link : Link} {result : Except Failure α} {result' : Except Failure β} :
      Except.Alike likeness (related link) result result' →
        Script.Alike likeness related link (.done result) (.done result')
  | ask {link : Link} {request request' : Request} {next : request.Answer → Script α}
      {next' : request'.Answer → Script β} :
      request.Alike likeness link request' →
        (∀ link', link ≤ link' → ∀ answer answer',
          Request.AnswerAlike likeness link' request request' answer answer' →
            Script.Alike likeness related link' (next answer) (next' answer')) →
          Script.Alike likeness related link (.ask request next) (.ask request' next')
  | eval {link : Link} {form form' : Value} {scope scope' : Scope} {next : Result → Script α}
      {next' : Result → Script β} :
      form.Alike likeness link form' → scope.Alike link scope' →
        (∀ link', link ≤ link' → ∀ result result', Result.Alike likeness link' result result' →
          Script.Alike likeness related link' (next result) (next' result')) →
          Script.Alike likeness related link (.eval form scope next) (.eval form' scope' next')

/-- Scripts of calls and forms, which leave what a step may leave. -/
abbrev Script.StepAlike (likeness : Likeness) (link : Link) (script script' : Script Value) :
    Prop :=
  Script.Alike likeness (Value.StepAlike likeness) link script script'

namespace Script.Alike

variable {related : Link → α → β → Prop} {related' : Link → γ → δ → Prop}

theorem pure {a : α} {b : β} (h : related link a b) :
    Script.Alike likeness related link (Pure.pure a) (Pure.pure b) :=
  .done (.ok h)

theorem fail (cause : Cause) :
    Script.Alike likeness related link (Script.fail cause) (Script.fail cause) :=
  .done (.error (Failure.alike_refl _))

theorem bind {script : Script α} {script' : Script β} {next : α → Script γ} {next' : β → Script δ}
    (h : Script.Alike likeness related link script script')
    (hnext : ∀ link', link ≤ link' → ∀ a b, related link' a b →
      Script.Alike likeness related' link' (next a) (next' b)) :
    Script.Alike likeness related' link (script >>= next) (script' >>= next') := by
  -- By induction on the first script: `next` has to serve for every link that it may end with.
  induction h with
  | done hresult =>
      cases hresult with
      | ok h => exact hnext _ le_rfl _ _ h
      | error h => exact .done (.error h)
  | ask hrequest _ ih =>
      refine .ask hrequest fun link' hle answer answer' hanswer => ?_
      exact ih link' hle answer answer' hanswer fun link'' hle' => hnext link'' (hle.trans hle')
  | eval hform hscope _ ih =>
      refine .eval hform hscope fun link' hle result result' hresult => ?_
      exact ih link' hle result result' hresult fun link'' hle' => hnext link'' (hle.trans hle')

theorem imp {related' : Link → α → β → Prop}
    (himp : ∀ link a b, related link a b → related' link a b) {script : Script α}
    {script' : Script β} (h : Script.Alike likeness related link script script') :
    Script.Alike likeness related' link script script' := by
  induction h with
  | done hresult => exact .done (hresult.imp fun a b hab => himp _ a b hab)
  | ask hrequest _ ih => exact .ask hrequest ih
  | eval hform hscope _ ih => exact .eval hform hscope ih

theorem map {script : Script α} {script' : Script β} {f : α → γ} {g : β → δ}
    (h : Script.Alike likeness related link script script')
    (hmap : ∀ link', link ≤ link' → ∀ a b, related link' a b → related' link' (f a) (g b)) :
    Script.Alike likeness related' link (f <$> script) (g <$> script') := by
  rw [map_eq_pure_bind, map_eq_pure_bind]
  exact h.bind fun link' hle a b hab => .pure (hmap link' hle a b hab)

/-! ### Evaluation -/

theorem value {form form' : Value} {scope scope' : Scope} (hform : form.Alike likeness link form')
    (hscope : scope.Alike link scope') :
    Script.Alike likeness (Value.Alike likeness) link (Script.value form scope)
      (Script.value form' scope') :=
  .eval hform hscope fun _ _ _ _ hresult => .done hresult

theorem attempt {form form' : Value} {scope scope' : Scope}
    (hform : form.Alike likeness link form') (hscope : scope.Alike link scope') :
    Script.Alike likeness (Result.Alike likeness) link (Script.attempt form scope)
      (Script.attempt form' scope') :=
  .eval hform hscope fun _ _ _ _ hresult => .done (.ok hresult)

theorem tail {form form' : Value} {scope scope' : Scope} (hform : form.Alike likeness link form')
    (hscope : scope.Alike link scope') :
    Script.StepAlike likeness link (Script.tail form scope) (Script.tail form' scope') :=
  .pure (.suspended (.form hform hscope))

theorem values {forms forms' : List Value} {scope scope' : Scope}
    (hforms : Value.AllAlike likeness link forms forms') (hscope : scope.Alike link scope') :
    Script.Alike likeness (Value.AllAlike likeness) link (Script.values forms scope)
      (Script.values forms' scope') := by
  rw [Script.values, Script.values]
  induction forms generalizing link forms' with
  | nil =>
      cases hforms
      exact .pure .nil
  | cons form rest ih =>
      cases hforms with
      | cons hform hrest =>
          rw [List.mapM_cons, List.mapM_cons]
          -- Values that are there already are carried along to longer links.
          refine .bind (.value hform hscope) fun link₁ hle₁ v v' hv => ?_
          refine .bind (ih (hrest.mono hle₁) (hscope.mono hle₁)) fun link₂ hle₂ vs vs' hvs => ?_
          exact .pure (.cons (hv.mono hle₂) hvs)

/-! ### Requests -/

theorem lookup {scope scope' : Scope} (name : String) (hscope : scope.Alike link scope') :
    Script.StepAlike likeness link (Script.lookup scope name) (Script.lookup scope' name) :=
  .ask (.lookup name hscope) fun _ _ _ _ hanswer => .done hanswer

theorem openScope {outer outer' : Scope} (houter : outer.Alike link outer') :
    Script.Alike likeness Scope.Alike link (Script.openScope outer) (Script.openScope outer') :=
  .ask (.openScope houter) fun _ _ _ _ hanswer => .done (.ok hanswer)

theorem bindName {scope scope' : Scope} (name : String) {value value' : Value}
    (hscope : scope.Alike link scope') (hvalue : value.Alike likeness link value') :
    Script.Alike likeness (fun _ => Eq) link (Script.bindName scope name value)
      (Script.bindName scope' name value') :=
  .ask (.bind name hscope hvalue) fun _ _ _ _ _ => .done (.ok rfl)

theorem bindLazy {scope scope' : Scope} (name : String) {work work' : Suspension}
    (hscope : scope.Alike link scope') (hwork : work.Alike likeness link work') :
    Script.Alike likeness Link.cells link (Script.bindLazy scope name work)
      (Script.bindLazy scope' name work') :=
  .ask (.bindLazy name hscope hwork) fun _ _ _ _ hanswer => .done (.ok hanswer)

theorem unbind {scope scope' : Scope} (name : String) (hscope : scope.Alike link scope') :
    Script.Alike likeness (fun _ => Eq) link (Script.unbind scope name)
      (Script.unbind scope' name) :=
  .ask (.unbind name hscope) fun _ _ _ _ hanswer => .done hanswer

theorem start {scope scope' : Scope} (name : String) (hscope : scope.Alike link scope') :
    Script.Alike likeness (fun _ => Eq) link (Script.start scope name)
      (Script.start scope' name) :=
  .ask (.start name hscope) fun _ _ _ _ hanswer => .done hanswer

theorem print (line : String) :
    Script.Alike likeness (fun _ => Eq) link (Script.print line) (Script.print line) :=
  .ask (.print line) fun _ _ _ _ _ => .done (.ok rfl)

theorem pause (milliseconds : Nat) :
    Script.Alike likeness (fun _ => Eq) link (Script.pause milliseconds)
      (Script.pause milliseconds) :=
  .ask (.pause milliseconds) fun _ _ _ _ _ => .done (.ok rfl)

theorem environmentVariable (name : String) :
    Script.Alike likeness (fun _ => Eq) link (Script.environmentVariable name)
      (Script.environmentVariable name) :=
  .ask (.environmentVariable name) fun _ _ _ _ hanswer => .done (.ok hanswer)

theorem clock : Script.Alike likeness (fun _ => Eq) link Script.clock Script.clock :=
  .ask .clock fun _ _ _ _ hanswer => .done (.ok hanswer)

theorem tally : Script.Alike likeness (fun _ => Eq) link Script.tally Script.tally :=
  .ask .tally fun _ _ _ _ hanswer => .done (.ok hanswer)

end Script.Alike
end LazyLisp
