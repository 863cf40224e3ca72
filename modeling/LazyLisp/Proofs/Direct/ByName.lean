import LazyLisp.Proofs.Alike.Store
import LazyLisp.Proofs.Direct.Evaluator
import LazyLisp.Proofs.Quiet.Script

/-!
# ByName — call by name in stores that mirror each other

In the quiet part of the language call by name only ever adds to the store: frames are filled when
they are made, and cells stay pending.  So a task has the same outcome in every store that mirrors
the one it is in, with the same fuel, and its store mirrors the other one still.  This file defines:

* `Script.Answered`, what a script comes to that has no form evaluated;
* `Machine.Control.Quiet`, the tasks that are quiet scripts or suspended work;
* `Direct.Corresponds`, final results and stores that are alike along a longer link.

Main result: `Direct.corresponds_of_mirrors`.
-/

namespace LazyLisp

open Machine (Control)

/-! ## Scripts without evaluation -/

/-- The script comes to the result after so many requests, and has no form evaluated. -/
inductive Script.Answered : Nat → Script Value → Store → Result → Store → Prop where
  | done (result : Result) (store : Store) : Script.Answered 0 (.done result) store result store
  | ask {count : Nat} {request : Request} {next : request.Answer → Script Value}
      {store later : Store} {result : Result} :
      Script.Answered count (next (store.answer request).1) (store.answer request).2 result later →
        Script.Answered (count + 1) (.ask request next) store result later

namespace Direct

variable {discipline : Discipline} {host : Host} {me : EvaluationId} {caller : Option CallSite}

theorem outcome_of_answered {count : Nat} {script : Script Value} {store later : Store}
    {result : Result} (h : script.Answered count store result later) (fuel : Nat) :
    outcome discipline host (fuel + count) me caller (.run script) store =
      outcome discipline host fuel me caller (.run (.done result)) later := by
  induction h with
  | done => rfl
  | ask _ ih => exact ih

/-- A script that has an outcome has fuel to be answered. -/
theorem exists_fuel_of_answered {count : Nat} {script : Script Value} {store later : Store}
    {result : Result} (h : script.Answered count store result later) {fuel : Nat}
    {final : Result × Store}
    (houtcome : outcome discipline host fuel me caller (.run script) store = some final) :
    ∃ rest, fuel = rest + count ∧
      outcome discipline host rest me caller (.run (.done result)) later = some final := by
  induction h generalizing fuel with
  | done => exact ⟨fuel, rfl, houtcome⟩
  | ask _ ih =>
      cases fuel with
      | zero => cases houtcome
      | succ fuel =>
          rcases ih houtcome with ⟨rest, rfl, hrest⟩
          exact ⟨rest, rfl, hrest⟩

end Direct

/-! ## Filling a frame -/

section Fills

variable {inner inner' : Scope} {script script' : Script Value} {likeness : Likeness} {link : Link}
  {store store' : Store}

/-- Alike scripts that fill two frames do so alike, if the frames correspond to no others. -/
theorem Script.Fills.answered_alike (hfills : Script.Fills inner script)
    (hfills' : Script.Fills inner' script') (halike : Script.StepAlike likeness link script script')
    (hmirrors : store.Mirrors likeness link store')
    (honly : ∀ frame frame', link.frames frame frame' →
      (frame = inner.frame ↔ frame' = inner'.frame)) :
    ∃ count result result' later later' link', link ≤ link' ∧
      script.Answered count store result later ∧ script'.Answered count store' result' later' ∧
        later.Mirrors likeness link' later' ∧
          Except.Alike likeness (Value.StepAlike likeness link') result result' := by
  induction hfills generalizing script' link store store' with
  | done result =>
      cases halike with
      | @done _ _ result' hresult =>
          exact ⟨0, result, result', store, store', link, le_rfl, .done _ _, .done _ _, hmirrors,
            hresult⟩
  | bindLazy name work _ ih =>
      cases halike with
      | ask hrequest hnext =>
          cases hrequest with
          | @bindLazy _ _ _ _ work' hscope hwork =>
              cases hfills' with
              | bindLazy _ _ hfills' =>
                  -- The new cells correspond from here on.
                  have hlonger := link.le_withCell store.cells.size store'.cells.size
                  have hmirrors' := hmirrors.setLazy honly name hwork
                  have hnext' := hnext _ hlonger _ _ (.inr ⟨rfl, rfl⟩)
                  rcases ih _ (hfills' _) hnext' hmirrors' honly with
                    ⟨count, result, result', later, later', link', hle, hdone, hdone', hlater,
                      hresult⟩
                  exact ⟨count + 1, result, result', later, later', link', hlonger.trans hle,
                    .ask hdone, .ask hdone', hlater, hresult⟩

/-- Filling a new frame leaves older ones as they are. -/
theorem Script.Fills.keeps (hfills : Script.Fills inner script) {before later : Store}
    (hkeeps : before.Keeps store) (hnew : before.frames.size ≤ inner.frame) {count : Nat}
    {result : Result} (h : script.Answered count store result later) : before.Keeps later := by
  induction hfills generalizing store count with
  | done =>
      cases h
      exact hkeeps
  | bindLazy name work _ ih =>
      cases h with
      | ask h => exact ih _ (hkeeps.setLazy hnew name work) h

end Fills

/-! ## Tasks -/

/-- The task is suspended work or a quiet script. -/
def Machine.Control.Quiet : Control → Prop
  | .run script => script.Quiet
  | .resume _ => True

namespace Direct

/-- Final results are alike along a link that extends the given one, and the final stores mirror
each other and keep what was there before. -/
inductive Corresponds (likeness : Likeness) (link : Link) (store store' : Store) :
    Result × Store → Result × Store → Prop where
  | intro {result result' : Result} {later later' : Store} {link' : Link} (le : link ≤ link')
      (keeps : store.Keeps later) (keeps' : store'.Keeps later')
      (mirrors : later.Mirrors likeness link' later')
      (alike : Result.Alike likeness link' result result') :
      Corresponds likeness link store store' (result, later) (result', later')

theorem Corresponds.of_later {likeness : Likeness} {link link' : Link}
    {store store' later later' : Store} {final final' : Result × Store}
    (h : Corresponds likeness link' later later' final final') (hle : link ≤ link')
    (hkeeps : store.Keeps later) (hkeeps' : store'.Keeps later') :
    Corresponds likeness link store store' final final' := by
  rcases h with ⟨hle', hlater, hlater', hmirrors, halike⟩
  exact ⟨hle.trans hle', hkeeps.trans hlater, hkeeps'.trans hlater', hmirrors, halike⟩

variable {host : Host} {me : EvaluationId}

/-- A demand does the work of the cell and leaves the store to it. -/
theorem outcome_demand {store : Store} {cell : CellId} {name : String} {work : Suspension}
    (h : store.cells[cell]? = some ⟨name, .pending work⟩) (fuel : Nat) :
    outcome .byName host (fuel + 1) me none (.resume (.binding cell)) store =
      match outcome .byName host fuel me none (.run (.done (.ok (.suspended work)))) store with
      | some (result, later) => outcome .byName host fuel me none (.run (.done result)) later
      | none => none := by
  have hclaim : Discipline.byName.claim store me cell = (.run work none, store) := by
    simp only [Discipline.byName, h]
  rw [outcome, hclaim]
  rfl

/-- With this much fuel, alike quiet tasks have corresponding outcomes in mirroring stores. -/
def Corresponding (host : Host) (me : EvaluationId) (fuel : Nat) : Prop :=
  ∀ {control control' : Control} {link : Link} {store store' : Store} {final : Result × Store},
    outcome .byName host fuel me none control store = some final →
      store.Mirrors .quiet link store' → control.Alike .quiet link control' → control.Quiet →
        control'.Quiet →
          ∃ final', outcome .byName host fuel me none control' store' = some final' ∧
            Corresponds .quiet link store store' final final'

section Corresponding

variable {fuel : Nat} {link : Link} {store store' : Store} {final : Result × Store}

/-- First one task, and then another one that begins with what it comes to. -/
theorem corresponds_then (ih : Corresponding host me fuel)
    (hmirrors : store.Mirrors .quiet link store') (next next' : Result → Control)
    {first first' : Control} {middle : Result × Store}
    (hfirst : outcome .byName host fuel me none first store = some middle)
    (hsecond : outcome .byName host fuel me none (next middle.1) middle.2 = some final)
    (halike : first.Alike .quiet link first') (hquiet : first.Quiet) (hquiet' : first'.Quiet)
    (hnext : ∀ link', link ≤ link' → ∀ result result', Result.Alike .quiet link' result result' →
      (next result).Alike .quiet link' (next' result'))
    (hnextQuiet : ∀ result, (next result).Quiet) (hnextQuiet' : ∀ result, (next' result).Quiet) :
    ∃ middle' final', outcome .byName host fuel me none first' store' = some middle' ∧
      outcome .byName host fuel me none (next' middle'.1) middle'.2 = some final' ∧
        Corresponds .quiet link store store' final final' := by
  rcases ih hfirst hmirrors halike hquiet hquiet' with ⟨middle', hfirst', hmiddle⟩
  rcases hmiddle with ⟨hle, hkeeps, hkeeps', hlater, hresult⟩
  -- The second task is begun in stores that mirror each other along a longer link.
  rcases ih hsecond hlater (hnext _ hle _ _ hresult) (hnextQuiet _) (hnextQuiet' _) with
    ⟨final', hsecond', hfinal⟩
  exact ⟨_, final', hfirst', hsecond', hfinal.of_later hle hkeeps hkeeps'⟩

/-- A form is evaluated, and the script goes on with what comes out. -/
theorem corresponds_eval (ih : Corresponding host me fuel) {form form' : Value}
    {scope scope' : Scope} {next next' : Result → Script Value}
    (hmirrors : store.Mirrors .quiet link store') (hform : form.Alike .quiet link form')
    (hscope : scope.Alike link scope')
    (hnext : ∀ link', link ≤ link' → ∀ result result', Result.Alike .quiet link' result result' →
      Script.StepAlike .quiet link' (next result) (next' result'))
    (hquiet : ∀ result, (next result).Quiet) (hquiet' : ∀ result, (next' result).Quiet)
    (h : outcome .byName host (fuel + 1) me none (.run (.eval form scope next)) store =
      some final) :
    ∃ final', outcome .byName host (fuel + 1) me none (.run (.eval form' scope' next')) store' =
        some final' ∧ Corresponds .quiet link store store' final final' := by
  rw [outcome] at h ⊢
  split at h
  · next result middle hfirst =>
      have hstep : Control.Alike .quiet link (.run (Form.step form scope))
          (.run (Form.step form' scope')) := .run (Form.step_alike hform hscope)
      have hcontinue : ∀ link', link ≤ link' → ∀ result result',
          Result.Alike .quiet link' result result' →
            Control.Alike .quiet link' (.run (next result)) (.run (next' result')) :=
        fun link' hle result result' hresult => .run (hnext link' hle result result' hresult)
      rcases corresponds_then ih hmirrors (fun result => .run (next result))
          (fun result => .run (next' result)) hfirst h hstep (Form.quiet_step _ _)
          (Form.quiet_step _ _) hcontinue hquiet hquiet' with
        ⟨middle', final', hfirst', hsecond', hfinal⟩
      rw [hfirst']
      exact ⟨final', hsecond', hfinal⟩
  · cases h

/-- Scopes are opened and filled, with frames that correspond from then on. -/
theorem corresponds_openScope (ih : ∀ rest, rest ≤ fuel → Corresponding host me rest)
    {outer outer' : Scope} {next next' : Scope → Script Value}
    (hmirrors : store.Mirrors .quiet link store') (houter : outer.Alike link outer')
    (hnext : ∀ link', link ≤ link' → ∀ inner inner', Scope.Alike link' inner inner' →
      Script.StepAlike .quiet link' (next inner) (next' inner'))
    (hfills : ∀ inner, Script.Fills inner (next inner))
    (hfills' : ∀ inner, Script.Fills inner (next' inner))
    (h : outcome .byName host (fuel + 1) me none (.run (.ask (.openScope outer) next)) store =
      some final) :
    ∃ final', outcome .byName host (fuel + 1) me none (.run (.ask (.openScope outer') next'))
        store' = some final' ∧ Corresponds .quiet link store store' final final' := by
  have hle := link.le_withFrame store.frames.size store'.frames.size
  have hinner : Scope.Alike (link.withFrame store.frames.size store'.frames.size)
      (store.child outer).1 (store'.child outer').1 :=
    ⟨.inr ⟨rfl, rfl⟩, .cons (hle.1 _ _ houter.1) (houter.2.imp hle.1)⟩
  rcases (hfills _).answered_alike (hfills' _) (hnext _ hle _ _ hinner)
      (hmirrors.child outer outer') (hmirrors.withFrame_only outer outer') with
    ⟨count, result, result', later, later', link', hle', hdone, hdone', hlater, hresult⟩
  change outcome .byName host fuel me none (.run (next (store.child outer).1))
    (store.child outer).2 = some final at h
  -- The scope is filled with part of the fuel, on both sides with the same part.
  rcases exists_fuel_of_answered hdone h with ⟨rest, rfl, hrest⟩
  rcases ih rest (Nat.le_add_right rest count) hrest hlater (.run (.done hresult)) (.done _)
      (.done _) with ⟨final', hfinal', hcorresponds⟩
  have hkeeps := (hfills _).keeps (store.keeps_child outer) (Nat.le_refl _) hdone
  have hkeeps' := (hfills' _).keeps (store'.keeps_child outer') (Nat.le_refl _) hdone'
  exact ⟨final', (outcome_of_answered hdone' rest).trans hfinal',
    hcorresponds.of_later (hle.trans hle') hkeeps hkeeps'⟩

/-- Corresponding cells are pending with alike work, and a demand does the work. -/
theorem corresponds_binding (ih : Corresponding host me fuel) {cell cell' : CellId}
    (hmirrors : store.Mirrors .quiet link store') (hcell : link.cells cell cell')
    (h : outcome .byName host (fuel + 1) me none (.resume (.binding cell)) store = some final) :
    ∃ final', outcome .byName host (fuel + 1) me none (.resume (.binding cell')) store' =
        some final' ∧ Corresponds .quiet link store store' final final' := by
  rcases hmirrors.cells _ _ hcell with ⟨name, work, name', work', hsome, hsome', hwork⟩
  rw [outcome_demand hsome] at h
  rw [outcome_demand hsome']
  split at h
  · next result middle hfirst =>
      have hresolve : Control.Alike .quiet link (.run (.done (.ok (.suspended work))))
          (.run (.done (.ok (.suspended work')))) := .run (.done (.ok (.suspended hwork)))
      have hdone : ∀ link', link ≤ link' → ∀ result result',
          Result.Alike .quiet link' result result' →
            Control.Alike .quiet link' (.run (.done result)) (.run (.done result')) :=
        fun _ _ _ _ hresult => .run (.done (hresult.imp fun _ _ => .value))
      rcases corresponds_then ih hmirrors (fun result => .run (.done result))
          (fun result => .run (.done result)) hfirst h hresolve (.done _) (.done _) hdone
          (fun _ => .done _) (fun _ => .done _) with
        ⟨middle', final', hfirst', hsecond', hfinal⟩
      rw [hfirst']
      exact ⟨final', hsecond', hfinal⟩
  · cases h

end Corresponding

/-- Call by name has corresponding outcomes for alike tasks in mirroring stores. -/
theorem corresponds_of_mirrors {fuel : Nat} {control control' : Control} {link : Link}
    {store store' : Store} {final : Result × Store}
    (h : outcome .byName host fuel me none control store = some final)
    (hmirrors : store.Mirrors .quiet link store') (halike : control.Alike .quiet link control')
    (hquiet : control.Quiet) (hquiet' : control'.Quiet) :
    ∃ final', outcome .byName host fuel me none control' store' = some final' ∧
      Corresponds .quiet link store store' final final' := by
  -- By strong induction: filling a frame takes several steps at once.
  induction fuel using Nat.strongRecOn generalizing control control' link store store' final with
  | ind fuel ih =>
    cases fuel with
    | zero => cases h
    | succ fuel =>
      have hbelow : ∀ rest, rest ≤ fuel → Corresponding host me rest :=
        fun rest hrest => ih rest (Nat.lt_succ_of_le hrest)
      have hnext : Corresponding host me fuel := hbelow fuel (Nat.le_refl fuel)
      cases halike with
      | run hscript =>
          rcases hquiet with result | ⟨form, scope, hquiet⟩ | ⟨scope, name⟩ | ⟨outer, hfills⟩
          · cases hscript with
            | done hresult =>
                cases hresult with
                | ok hvalue =>
                    rcases hvalue with hvalue | hwork
                    · cases hvalue with
                      | suspended hthunks _ => exact hthunks.elim
                      | _ =>
                          cases h
                          refine ⟨_, rfl, .intro le_rfl (.refl _) (.refl _) hmirrors (.ok ?_)⟩
                          constructor <;> assumption
                    · exact hnext h hmirrors (.resume hwork) trivial trivial
                | error hfailure =>
                    cases h
                    exact ⟨_, rfl, .intro le_rfl (.refl _) (.refl _) hmirrors (.error hfailure)⟩
          · cases hscript with
            | eval hform hscope hcontinue =>
                cases hquiet' with
                | eval _ _ hquiet' =>
                    exact corresponds_eval hnext hmirrors hform hscope hcontinue hquiet hquiet' h
          · cases hscript with
            | ask hrequest hcontinue =>
                cases hrequest with
                | lookup _ hscope =>
                    cases hquiet' with
                    | lookup _ _ =>
                        have hget := hcontinue link le_rfl _ _ (hmirrors.get hscope name)
                        exact hnext h hmirrors (.run hget) (.done _) (.done _)
          · cases hscript with
            | ask hrequest hcontinue =>
                cases hrequest with
                | openScope houter =>
                    cases hquiet' with
                    | openScope _ hfills' =>
                        exact corresponds_openScope hbelow hmirrors houter hcontinue hfills
                          hfills' h
      | resume hwork =>
          cases hwork with
          | form hform hscope =>
              have hstep := Form.step_alike hform hscope
              exact hnext h hmirrors (.run hstep) (Form.quiet_step _ _) (Form.quiet_step _ _)
          | call hfunc hhead hoperands hscope =>
              have henter := hfunc.enter host.respects_quiet hhead hoperands hscope
              exact hnext h hmirrors (.run henter) (Func.quiet_enter hfunc _ _ _)
                (Func.quiet_enter hfunc.flip _ _ _)
          | givenValue _ hvalue =>
              exact hnext h hmirrors (.run (.done (.ok (.value hvalue)))) (.done _) (.done _)
          | givenFailure _ =>
              exact hnext h hmirrors (.run (.done (.error (Failure.alike_refl _)))) (.done _)
                (.done _)
          | binding hcell => exact corresponds_binding hnext hmirrors hcell h

end Direct
end LazyLisp
