import LazyLisp.Proofs.Lockstep.Machine
import LazyLisp.Proofs.Machine.Effect
import LazyLisp.Proofs.Machine.Evaluates
import LazyLisp.Proofs.Renaming.Store

/-!
# Machine — runs that differ in the names of cells

Machines whose stores are the same up to renaming, and that do the same things with corresponding
frames and cells, go on alike: both halt, both wait or both go on, and the same permutation of cells
relates them afterwards.  So one run can be followed on the other, step by step, with the same amount
of fuel.  This file defines:

* `Machine.Awaited.Related`, what may reach a stack along a link;
* `Machine.StackRenamed` and `Machine.State.Renamed`, states that are the same up to renaming;
* `Machine.Transition.Renamed` and `Machine.Outcome.Renamed`, for steps and for the ends of runs.

Main results: `Machine.step_renamed` for steps, `Machine.run_renamed` for runs, and
`Machine.Evaluates.closed`, that evaluation in a closed store leaves a closed store.
-/

namespace LazyLisp

variable {π : Equiv.Perm CellId}

/-- Equal traces stay equal when they pass the same calls. -/
theorem Likeness.exact_tracesGrow : Likeness.exact.TracesGrow := by
  intro trace trace' site site' htrace hsite
  have hsites := CallSite.eq_of_alike rfl (.some hsite)
  cases hsites
  exact congrArg (·.push site) htrace

namespace Machine

/-! ## States -/

/-- What may reach a stack: alike values, or alike things that a step may leave. -/
def Awaited.Related : Awaited → Link → Value → Value → Prop
  | .value => Value.Alike .exact
  | .step => Value.StepAlike .exact

/-- Stacks on which alike things wait, in the same order, with what may reach them.  A script may be
answered when the stores have grown, so it has to go on alike along every longer link. -/
inductive StackRenamed (link : Link) : Awaited → List Pending → List Pending → Prop where
  | nil : StackRenamed link .value [] []
  | await {awaited : Awaited} {next next' : Result → Script Value} {stack stack' : List Pending} :
      (∀ link', link ≤ link' → ∀ result result', Result.Alike .exact link' result result' →
        Script.Alike .exact awaited.Related link' (next result) (next' result')) →
        StackRenamed link awaited stack stack' →
          StackRenamed link .value (.await next :: stack) (.await next' :: stack')
  | trampoline {site site' : Option CallSite} {stack stack' : List Pending} :
      Option.Rel (CallSite.Alike .exact) site site' → StackRenamed link .value stack stack' →
        StackRenamed link .step (.trampoline site :: stack) (.trampoline site' :: stack')
  | settle {cell cell' : CellId} {stack stack' : List Pending} (evaluation : EvaluationId) :
      link.cells cell cell' → StackRenamed link .step stack stack' →
        StackRenamed link .value (.settle cell evaluation :: stack)
          (.settle cell' evaluation :: stack')

theorem StackRenamed.mono {link link' : Link} (hle : link ≤ link') {awaited : Awaited}
    {stack stack' : List Pending} (h : StackRenamed link awaited stack stack') :
    StackRenamed link' awaited stack stack' := by
  induction h with
  | nil => exact .nil
  | await hnext _ ih => exact .await (fun link'' hle' => hnext link'' (hle.trans hle')) ih
  | trampoline hsite _ ih => exact .trampoline hsite ih
  | settle evaluation hcell _ ih => exact .settle evaluation (hle.2 _ _ hcell) ih

/-- Alike tasks, with what may come of them. -/
inductive TaskRenamed (link : Link) : Awaited → Control → Control → Prop where
  | run {awaited : Awaited} {script script' : Script Value} :
      Script.Alike .exact awaited.Related link script script' →
        TaskRenamed link awaited (.run script) (.run script')
  | resume {work work' : Suspension} :
      work.Alike .exact link work' → TaskRenamed link .step (.resume work) (.resume work')

theorem TaskRenamed.step {link : Link} {script script' : Script Value}
    (h : Script.StepAlike .exact link script script') :
    TaskRenamed link .step (.run script) (.run script') :=
  .run h

theorem TaskRenamed.value {link : Link} {script script' : Script Value}
    (h : Script.Alike .exact (Value.Alike .exact) link script script') :
    TaskRenamed link .value (.run script) (.run script') :=
  .run h

/-- The same task and the same stack, in stores that are the same up to renaming. -/
structure State.Renamed (π : Equiv.Perm CellId) (state state' : State) : Prop where
  doing : ∃ awaited, TaskRenamed (state.store.linkBy π) awaited state.control state'.control ∧
    StackRenamed (state.store.linkBy π) awaited state.stack state'.stack
  evaluation : state.evaluation = state'.evaluation
  store : state.store.Renamed π state'.store

/-! ## Steps -/

inductive Transition.Renamed (π : Equiv.Perm CellId) : Transition → Transition → Prop where
  | next {state state' : State} :
      state.Renamed π state' → Transition.Renamed π (.next state) (.next state')
  | halt {result result' : Result} {store store' : Store} :
      Result.Alike .exact (store.linkBy π) result result' → store.Renamed π store' →
        Transition.Renamed π (.halt result store) (.halt result' store')
  | block {cell cell' : CellId} {store store' : Store} :
      (store.linkBy π).cells cell cell' → store.Renamed π store' →
        Transition.Renamed π (.block cell store) (.block cell' store')

section Step

variable {store store' : Store} {stack stack' : List Pending} {awaited : Awaited}

/-- A task under the same evaluation is where the step leads. -/
theorem Transition.Renamed.leads {control control' : Control} (evaluation : EvaluationId)
    (htask : TaskRenamed (store.linkBy π) awaited control control')
    (hstack : StackRenamed (store.linkBy π) awaited stack stack')
    (hstore : store.Renamed π store') :
    Transition.Renamed π (.next ⟨control, stack, evaluation, store⟩)
      (.next ⟨control', stack', evaluation, store'⟩) :=
  .next ⟨⟨awaited, htask, hstack⟩, rfl, hstore⟩

/-- A trampoline resumes suspended work. -/
theorem bounce_renamed {work work' : Suspension} (hwork : work.Alike .exact (store.linkBy π) work')
    {site site' : Option CallSite} (hsite : Option.Rel (CallSite.Alike .exact) site site')
    (hrest : StackRenamed (store.linkBy π) .value stack stack') (evaluation : EvaluationId)
    (hstore : store.Renamed π store') :
    Transition.Renamed π
      (yield (.ok (.suspended work)) (.trampoline site :: stack) evaluation store)
      (yield (.ok (.suspended work')) (.trampoline site' :: stack') evaluation store') := by
  have hcaller := CallSite.alike_or hwork.callSite? hsite
  exact .leads _ (.resume hwork) (.trampoline hcaller hrest) hstore

theorem yield_renamed {result result' : Result}
    (hresult : Except.Alike .exact (awaited.Related (store.linkBy π)) result result')
    (hstack : StackRenamed (store.linkBy π) awaited stack stack') (evaluation : EvaluationId)
    (hstore : store.Renamed π store') :
    Transition.Renamed π (yield result stack evaluation store)
      (yield result' stack' evaluation store') := by
  cases hstack with
  | nil => exact .halt hresult hstore
  | await hnext hrest => exact .leads _ (.run (hnext _ le_rfl _ _ hresult)) hrest hstore
  | @settle cell _ _ _ outer hcell hrest =>
      cases hcell.1
      have hstep := hresult.imp fun _ _ => Value.StepAlike.value
      have hsettled := hstore.settle cell hresult
      -- The outcome of the cell is stored, and it goes on to whoever demanded the cell.
      have hlink : (store.settle cell result).linkBy π = store.linkBy π :=
        Store.linkBy_modifyCell store cell _
      rw [← hlink] at hstep hrest
      exact .leads _ (.step (.done hstep)) hrest hsettled
  | trampoline hsite hrest =>
      cases hresult with
      | error hfailure =>
          have hpassed := hfailure.throughAny Likeness.exact_tracesGrow hsite
          exact .leads _ (.value (.done (.error hpassed))) hrest hstore
      | ok hleft =>
          cases hleft with
          | suspended hwork => exact bounce_renamed hwork hsite hrest evaluation hstore
          | value hvalue =>
              have hdone : Script.Alike .exact (Value.Alike .exact) (store.linkBy π) _ _ :=
                .done (.ok hvalue)
              cases hvalue with
              | suspended _ hwork => exact bounce_renamed hwork hsite hrest evaluation hstore
              | _ => exact .leads _ (.value hdone) hrest hstore

theorem demand_renamed {cell cell' : CellId} (hcell : (store.linkBy π).cells cell cell')
    (hstack : StackRenamed (store.linkBy π) .step stack stack') (evaluation : EvaluationId)
    (hstore : store.Renamed π store') :
    Transition.Renamed π (demand cell stack evaluation store)
      (demand cell' stack' evaluation store') := by
  have hclaimed := hstore.claim evaluation cell
  have hlink : (store.claim evaluation cell).2.linkBy π = store.linkBy π :=
    Store.linkBy_claim store evaluation cell
  rw [hcell.1] at hclaimed
  rw [← hlink] at hcell hstack hclaimed
  simp only [demand]
  generalize store.claim evaluation cell = claimed at hcell hstack hclaimed ⊢
  generalize store'.claim evaluation cell' = claimed' at hclaimed ⊢
  rcases claimed with ⟨claim, later⟩
  rcases claimed' with ⟨claim', later'⟩
  rcases hclaimed with ⟨hclaim, hlater⟩
  cases hclaim with
  | settled hresult =>
      have hstep := hresult.imp fun _ _ => Value.StepAlike.value
      exact .leads _ (.step (.done hstep)) hstack hlater
  | run worker hwork =>
      have hinner := StackRenamed.trampoline (CallSite.alike_self none)
        (.settle evaluation hcell hstack)
      exact .leads _ (.step (.done (.ok (.suspended hwork)))) hinner hlater
  | selfDependent name =>
      exact .leads _ (.step (.done (.error (Failure.alike_refl _)))) hstack hlater
  | wait => exact .block hcell hlater

/-- A script asks for something or ends, on both sides alike. -/
theorem step_run_renamed {host : Host} {script script' : Script Value}
    (hscript : Script.Alike .exact awaited.Related (store.linkBy π) script script')
    (hstack : StackRenamed (store.linkBy π) awaited stack stack') (evaluation : EvaluationId)
    (hstore : store.Renamed π store') :
    Transition.Renamed π (step host ⟨.run script, stack, evaluation, store⟩)
      (step host ⟨.run script', stack', evaluation, store'⟩) := by
  cases hscript with
  | done hresult => exact yield_renamed hresult hstack evaluation hstore
  | @ask _ request _ _ _ hrequest hnext =>
      have hanswer := hstore.answer hrequest
      -- The answer may refer to what the request has added to the stores.
      have hle : store.linkBy π ≤ (store.answer request).2.linkBy π :=
        Store.linkBy_le_answer store request
      exact .leads _ (.run (hnext _ hle _ _ hanswer.1)) (hstack.mono hle) hanswer.2
  | eval hform hscope hnext =>
      have hinner := StackRenamed.trampoline (CallSite.alike_self none) (.await hnext hstack)
      exact .leads _ (.step (Form.step_alike hform hscope)) hinner hstore

/-- Alike work is resumed alike. -/
theorem step_resume_renamed {host : Host} (hhost : host.Respects .exact) {work work' : Suspension}
    (hwork : work.Alike .exact (store.linkBy π) work')
    (hstack : StackRenamed (store.linkBy π) .step stack stack') (evaluation : EvaluationId)
    (hstore : store.Renamed π store') :
    Transition.Renamed π (step host ⟨.resume work, stack, evaluation, store⟩)
      (step host ⟨.resume work', stack', evaluation, store'⟩) := by
  cases hwork with
  | form hform hscope => exact .leads _ (.step (Form.step_alike hform hscope)) hstack hstore
  | call hfunc hhead hoperands hscope =>
      exact .leads _ (.step (hfunc.enter hhost hhead hoperands hscope)) hstack hstore
  | binding hcell => exact demand_renamed hcell hstack evaluation hstore
  | givenValue _ hvalue => exact .leads _ (.step (.done (.ok (.value hvalue)))) hstack hstore
  | givenFailure _ =>
      exact .leads _ (.step (.done (.error (Failure.alike_refl _)))) hstack hstore

/-- States that are the same up to renaming take the same step. -/
theorem step_renamed {host : Host} (hhost : host.Respects .exact) {state state' : State}
    (h : state.Renamed π state') :
    Transition.Renamed π (step host state) (step host state') := by
  rcases state with ⟨control, stack, evaluation, store⟩
  rcases state' with ⟨control', stack', evaluation', store'⟩
  rcases h with ⟨⟨awaited, htask, hstack⟩, hevaluation, hstore⟩
  cases hevaluation
  cases htask with
  | run hscript => exact step_run_renamed hscript hstack evaluation hstore
  | resume hwork => exact step_resume_renamed hhost hwork hstack evaluation hstore

end Step

/-! ## Runs -/

/-- Runs that end in the same way, or not at all. -/
inductive Outcome.Renamed (π : Equiv.Perm CellId) : Outcome → Outcome → Prop where
  | finished {result result' : Result} {store store' : Store} :
      Result.Alike .exact (store.linkBy π) result result' → store.Renamed π store' →
        Outcome.Renamed π (.finished result store) (.finished result' store')
  | blocked {cell cell' : CellId} {store store' : Store} :
      (store.linkBy π).cells cell cell' → store.Renamed π store' →
        Outcome.Renamed π (.blocked cell store) (.blocked cell' store')
  | unfinished (state state' : State) :
      Outcome.Renamed π (.unfinished state) (.unfinished state')

/-- With the same fuel, runs from states that are the same up to renaming end in the same way. -/
theorem run_renamed {host : Host} (hhost : host.Respects .exact) (fuel : Nat) {state state' : State}
    (h : state.Renamed π state') : Outcome.Renamed π (run host fuel state) (run host fuel state') := by
  induction fuel generalizing state state' with
  | zero => exact .unfinished state state'
  | succ fuel ih =>
      have hstep := step_renamed hhost h
      simp only [run]
      generalize step host state = transition at hstep ⊢
      generalize step host state' = transition' at hstep ⊢
      cases hstep with
      | next hnext => exact ih hnext
      | halt hresult hstore => exact .finished hresult hstore
      | block hcell hstore => exact .blocked hcell hstore

/-! ## Runs in closed stores -/

/-- A step takes nothing away from the store. -/
theorem linkBy_le_of_step {host : Host} {state state' : State}
    (h : step host state = .next state') : state.store.linkBy π ≤ state'.store.linkBy π := by
  cases effect_of_step h with
  | still hstore => rw [hstore]
  | answered => exact Store.linkBy_le_answer _ _
  | @entered cell _ _ _ me store later hclaim =>
      have hlink : (store.claim me cell).2.linkBy π = store.linkBy π :=
        Store.linkBy_claim store me cell
      rw [hclaim] at hlink
      exact hlink.ge
  | settled => exact (Store.linkBy_modifyCell _ _ _).ge

theorem Halts.linkBy_le {host : Host} {guard : State → Prop} {steps : Nat} {state : State}
    {result : Result} {store : Store} (h : Halts host guard steps state result store) :
    state.store.linkBy π ≤ store.linkBy π := by
  induction h with
  | halt _ hstep => rw [(halt_of_step hstep).2.2]
  | next _ hstep _ ih => exact (linkBy_le_of_step hstep).trans ih

/-- Evaluation takes nothing away from the store. -/
theorem Evaluates.link_le {host : Host} {me : EvaluationId} {form : Value} {scope : Scope}
    {store store' : Store} {result : Result}
    (h : Evaluates host me form scope store result store') : store.link ≤ store'.link := by
  obtain ⟨steps, hhalts⟩ := finished_iff_halts.mp h
  have hle : store.linkBy 1 ≤ store'.linkBy 1 := hhalts.linkBy_le
  exact hle

/-- In a closed store, what a form comes to refers to nothing but the store that is left, and that
store is closed again. -/
theorem Evaluates.closed {host : Host} (hhost : host.Respects .exact) {me : EvaluationId}
    {form : Value} {scope : Scope} {store store' : Store} {result : Result}
    (h : Evaluates host me form scope store result store') (hstore : store.Closed)
    (hform : form.Within store) (hscope : scope.Within store) :
    store'.Closed ∧ Result.Alike .exact store'.link result result := by
  obtain ⟨fuel, hrun⟩ := h
  -- The run is compared with itself, and nothing is renamed.
  have hself := Store.closed_iff_renamed.mp hstore
  have hscript : TaskRenamed (store.linkBy 1) .step (.run (Form.step form scope))
      (.run (Form.step form scope)) := .step (Form.step_alike hform hscope)
  have hstack : StackRenamed (store.linkBy 1) .step [.trampoline none] [.trampoline none] :=
    .trampoline (CallSite.alike_self none) .nil
  have hbegin : State.Renamed 1 ⟨.run (Form.step form scope), [.trampoline none], me, store⟩
      ⟨.run (Form.step form scope), [.trampoline none], me, store⟩ :=
    ⟨⟨.step, hscript, hstack⟩, rfl, hself⟩
  have houtcome := run_renamed hhost fuel hbegin
  rw [hrun] at houtcome
  cases houtcome with
  | finished hresult hlater => exact ⟨Store.closed_iff_renamed.mpr hlater, hresult⟩

end Machine
end LazyLisp
