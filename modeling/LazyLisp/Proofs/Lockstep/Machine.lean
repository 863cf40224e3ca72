import LazyLisp.Proofs.Alike.Builtin
import LazyLisp.Proofs.Lockstep.Store

/-!
# Machine — runs that go alike step by step

Machines in alike states take alike steps: both halt, both wait or both go on, and after that they
are in alike states again.  So a run from one of them can be followed on the other, step by step,
with the same amount of fuel.  What a stack waits for decides what may reach it: scripts and cells
wait for values, and only a trampoline takes what is still suspended.  This file defines:

* `Script.InStep`, scripts that go alike in one and the same store, and `Host.InStep`;
* `Likeness.TracesGrow`, what a likeness has to say of traces that pass calls;
* `Machine.StackInStep` and `Machine.State.InStep`, alike states of the machine;
* `Machine.Transition.InStep` and `Machine.Outcome.InStep`, alike steps and alike ends of runs.

Main results: `Machine.step_inStep`, that alike states take alike steps, and `Machine.run_inStep`
for runs.
-/

namespace LazyLisp

variable {likeness : Likeness}

/-! ## Scripts -/

/-- Scripts that make alike requests of alike stores, and end in related results. -/
inductive Script.InStep {α : Type} (likeness : Likeness) (related : α → α → Prop) :
    Script α → Script α → Prop where
  | done {result result' : Except Failure α} :
      Except.Alike likeness related result result' →
        Script.InStep likeness related (.done result) (.done result')
  | ask {request request' : Request} {next : request.Answer → Script α}
      {next' : request'.Answer → Script α} :
      request.Alike likeness .same request' →
        (∀ answer answer', Request.AnswerAlike likeness .same request request' answer answer' →
          Script.InStep likeness related (next answer) (next' answer')) →
          Script.InStep likeness related (.ask request next) (.ask request' next')
  | eval {form form' : Value} {scope : Scope} {next next' : Result → Script α} :
      form.Alike likeness .same form' →
        (∀ result result', Result.Alike likeness .same result result' →
          Script.InStep likeness related (next result) (next' result')) →
          Script.InStep likeness related (.eval form scope next) (.eval form' scope next')

/-- Scripts that are alike for every link go alike in one and the same store. -/
theorem Script.Alike.inStep {α : Type} {related : Link → α → α → Prop} {link : Link}
    {script script' : Script α} (h : Script.Alike likeness related link script script')
    (hlink : link = .same) : Script.InStep likeness (related .same) script script' := by
  induction h with
  | done hresult =>
      subst hlink
      exact .done hresult
  | ask hrequest _ ih =>
      subst hlink
      exact .ask hrequest fun answer answer' hanswer => ih _ le_rfl answer answer' hanswer rfl
  | eval hform hscope _ ih =>
      subst hlink
      cases hscope.eq
      exact .eval hform fun result result' hresult => ih _ le_rfl result result' hresult rfl

/-- The functions of the host program that may occur carry out alike calls alike, as long as both
calls are made in the same store. -/
def Host.InStep (host : Host) (likeness : Likeness) : Prop :=
  ∀ name, likeness.operations (.host name) →
    ∀ call call', Call.Alike likeness .same call call' →
      Script.InStep likeness (Value.StepAlike likeness .same) (host.perform name call)
        (host.perform name call')

theorem Host.empty_respects (likeness : Likeness) : Host.empty.Respects likeness :=
  fun _ _ _ _ _ _ => .fail _

theorem Operation.perform_inStep {host : Host} (hhost : host.InStep likeness)
    {operation : Operation} (hoperation : likeness.operations operation) {call call' : Call}
    (h : call.Alike likeness .same call') :
    Script.InStep likeness (Value.StepAlike likeness .same) (operation.perform host call)
      (operation.perform host call') := by
  -- Builtins do not ask which host program they run in.
  have hbuiltin := Operation.perform_alike (Host.empty_respects likeness) hoperation h
  cases operation with
  | host name => exact hhost name hoperation call call' h
  | _ => exact hbuiltin.inStep rfl

theorem Func.Alike.enter_inStep {host : Host} (hhost : host.InStep likeness) {func func' : Func}
    (hfunc : func.Alike likeness .same func') {head head' : Value} {operands operands' : List Value}
    {scope : Scope} (hhead : head.Alike likeness .same head')
    (hoperands : Value.AllAlike likeness .same operands operands') :
    Script.InStep likeness (Value.StepAlike likeness .same) (func.enter host head operands scope)
      (func'.enter host head' operands' scope) := by
  have hscope := Scope.alike_same scope
  cases hfunc with
  | native hoperation =>
      exact Operation.perform_inStep hhost hoperation ⟨rfl, hhead, hoperands, hscope⟩
  | closure hparams hbody hinner =>
      exact (Builtin.enterClosure_alike hparams hbody hinner hoperands hscope).inStep rfl

theorem Form.step_inStep {form form' : Value} (hform : form.Alike likeness .same form')
    (scope : Scope) :
    Script.InStep likeness (Value.StepAlike likeness .same) (Form.step form scope)
      (Form.step form' scope) :=
  (Form.step_alike hform (Scope.alike_same scope)).inStep rfl

/-! ## Traces -/

/-- Alike traces stay alike when they pass alike calls. -/
def Likeness.TracesGrow (likeness : Likeness) : Prop :=
  ∀ (trace trace' : Trace) (site site' : CallSite), likeness.traces trace trace' →
    site.Alike likeness site' → likeness.traces (trace.push site) (trace'.push site')

theorem Failure.Alike.throughAny (hgrow : likeness.TracesGrow) {failure failure' : Failure}
    (h : failure.Alike likeness failure') {site site' : Option CallSite}
    (hsite : Option.Rel (CallSite.Alike likeness) site site') :
    (failure.throughAny site).Alike likeness (failure'.throughAny site') := by
  cases hsite with
  | some hsite => exact ⟨h.1, hgrow _ _ _ _ h.2 hsite⟩
  | none => exact h

theorem Func.Alike.callSite? {link : Link} {func func' : Func}
    (hfunc : func.Alike likeness link func') {head head' : Value}
    (hhead : head.Alike likeness link head') :
    Option.Rel (CallSite.Alike likeness) (func.callSite? head) (func'.callSite? head') := by
  cases hfunc with
  | native _ => exact .none
  | closure _ _ _ =>
      cases hhead with
      | symbol hsymbol => exact .some hsymbol
      | _ => exact CallSite.alike_self _

theorem Suspension.Alike.callSite? {link : Link} {work work' : Suspension}
    (h : work.Alike likeness link work') :
    Option.Rel (CallSite.Alike likeness) work.callSite? work'.callSite? := by
  cases h with
  | form _ _ => exact .none
  | call hfunc hhead _ _ => exact hfunc.callSite? hhead
  | binding _ => exact .none
  | givenValue hsite _ => exact hsite
  | givenFailure hsite => exact hsite

theorem CallSite.alike_or {site site' caller caller' : Option CallSite}
    (hsite : Option.Rel (CallSite.Alike likeness) site site')
    (hcaller : Option.Rel (CallSite.Alike likeness) caller caller') :
    Option.Rel (CallSite.Alike likeness) (site.or caller) (site'.or caller') := by
  cases hsite with
  | some hsite => exact .some hsite
  | none => exact hcaller

namespace Machine

/-! ## Alike states -/

/-- What may reach a stack: values, or whatever a step leaves. -/
inductive Awaited where
  | value
  | step

def Awaited.Alike (likeness : Likeness) : Awaited → Value → Value → Prop
  | .value => Value.Alike likeness .same
  | .step => Value.StepAlike likeness .same

/-- Stacks on which alike things wait, in the same order, with what may reach them. -/
inductive StackInStep (likeness : Likeness) : Awaited → List Pending → List Pending → Prop where
  | nil : StackInStep likeness .value [] []
  | await {awaited : Awaited} {next next' : Result → Script Value} {stack stack' : List Pending} :
      (∀ result result', Result.Alike likeness .same result result' →
        Script.InStep likeness (awaited.Alike likeness) (next result) (next' result')) →
        StackInStep likeness awaited stack stack' →
          StackInStep likeness .value (.await next :: stack) (.await next' :: stack')
  | trampoline {site site' : Option CallSite} {stack stack' : List Pending} :
      Option.Rel (CallSite.Alike likeness) site site' → StackInStep likeness .value stack stack' →
        StackInStep likeness .step (.trampoline site :: stack) (.trampoline site' :: stack')
  | settle {stack stack' : List Pending} (cell : CellId) (evaluation : EvaluationId) :
      StackInStep likeness .step stack stack' →
        StackInStep likeness .value (.settle cell evaluation :: stack)
          (.settle cell evaluation :: stack')

/-- Alike tasks, with what may come of them. -/
inductive TaskInStep (likeness : Likeness) : Awaited → Control → Control → Prop where
  | run {awaited : Awaited} {script script' : Script Value} :
      Script.InStep likeness (awaited.Alike likeness) script script' →
        TaskInStep likeness awaited (.run script) (.run script')
  | resume {work work' : Suspension} :
      work.Alike likeness .same work' →
        TaskInStep likeness .step (.resume work) (.resume work')

theorem TaskInStep.step {script script' : Script Value}
    (h : Script.InStep likeness (Value.StepAlike likeness .same) script script') :
    TaskInStep likeness .step (.run script) (.run script') :=
  .run h

theorem TaskInStep.value {script script' : Script Value}
    (h : Script.InStep likeness (Value.Alike likeness .same) script script') :
    TaskInStep likeness .value (.run script) (.run script') :=
  .run h

/-- What comes of a task may reach the stack. -/
def DoingInStep (likeness : Likeness) (control control' : Control) (stack stack' : List Pending) :
    Prop :=
  ∃ awaited, TaskInStep likeness awaited control control' ∧
    StackInStep likeness awaited stack stack'

structure State.InStep (likeness : Likeness) (state state' : State) : Prop where
  doing : DoingInStep likeness state.control state'.control state.stack state'.stack
  evaluation : state.evaluation = state'.evaluation
  store : state.store.Alike likeness state'.store

/-! ## Alike steps -/

inductive Transition.InStep (likeness : Likeness) : Transition → Transition → Prop where
  | next {state state' : State} :
      state.InStep likeness state' → Transition.InStep likeness (.next state) (.next state')
  | halt {result result' : Result} {store store' : Store} :
      Result.Alike likeness .same result result' → store.Alike likeness store' →
        Transition.InStep likeness (.halt result store) (.halt result' store')
  | block (cell : CellId) {store store' : Store} :
      store.Alike likeness store' →
        Transition.InStep likeness (.block cell store) (.block cell store')

section Step

variable {store store' : Store} {stack stack' : List Pending} {awaited : Awaited}

/-- A task under the same evaluation is where the step leads. -/
theorem Transition.InStep.leads {control control' : Control} (evaluation : EvaluationId)
    (htask : TaskInStep likeness awaited control control')
    (hstack : StackInStep likeness awaited stack stack') (hstore : store.Alike likeness store') :
    Transition.InStep likeness (.next ⟨control, stack, evaluation, store⟩)
      (.next ⟨control', stack', evaluation, store'⟩) :=
  .next ⟨⟨awaited, htask, hstack⟩, rfl, hstore⟩

/-- A trampoline resumes suspended work. -/
theorem bounce_inStep {work work' : Suspension} (hwork : work.Alike likeness .same work')
    {site site' : Option CallSite} (hsite : Option.Rel (CallSite.Alike likeness) site site')
    (hrest : StackInStep likeness .value stack stack') (evaluation : EvaluationId)
    (hstore : store.Alike likeness store') :
    Transition.InStep likeness
      (yield (.ok (.suspended work)) (.trampoline site :: stack) evaluation store)
      (yield (.ok (.suspended work')) (.trampoline site' :: stack') evaluation store') := by
  have hcaller := CallSite.alike_or hwork.callSite? hsite
  exact .leads _ (.resume hwork) (.trampoline hcaller hrest) hstore

theorem yield_inStep (hgrow : likeness.TracesGrow) {result result' : Result}
    (hresult : Except.Alike likeness (awaited.Alike likeness) result result')
    (hstack : StackInStep likeness awaited stack stack') (evaluation : EvaluationId)
    (hstore : store.Alike likeness store') :
    Transition.InStep likeness (yield result stack evaluation store)
      (yield result' stack' evaluation store') := by
  cases hstack with
  | nil => exact .halt hresult hstore
  | await hnext hrest => exact .leads _ (.run (hnext _ _ hresult)) hrest hstore
  | settle cell outer hrest =>
      have hstep := hresult.imp fun _ _ => Value.StepAlike.value
      exact .leads _ (.step (.done hstep)) hrest (hstore.settle cell hresult)
  | trampoline hsite hrest =>
      cases hresult with
      | error hfailure =>
          have hpassed := hfailure.throughAny hgrow hsite
          exact .leads _ (.value (.done (.error hpassed))) hrest hstore
      | ok hleft =>
          cases hleft with
          | suspended hwork => exact bounce_inStep hwork hsite hrest evaluation hstore
          | value hvalue =>
              have hdone : Script.InStep likeness (Value.Alike likeness .same) _ _ :=
                .done (.ok hvalue)
              cases hvalue with
              | suspended _ hwork => exact bounce_inStep hwork hsite hrest evaluation hstore
              | _ => exact .leads _ (.value hdone) hrest hstore

theorem demand_inStep (cell : CellId) (hstack : StackInStep likeness .step stack stack')
    (evaluation : EvaluationId) (hstore : store.Alike likeness store') :
    Transition.InStep likeness (demand cell stack evaluation store)
      (demand cell stack' evaluation store') := by
  have hclaimed := hstore.claim evaluation cell
  simp only [demand]
  generalize store.claim evaluation cell = claimed at hclaimed ⊢
  generalize store'.claim evaluation cell = claimed' at hclaimed ⊢
  rcases claimed with ⟨claim, later⟩
  rcases claimed' with ⟨claim', later'⟩
  rcases hclaimed with ⟨hclaim, hlater⟩
  cases hclaim with
  | settled hresult =>
      have hstep := hresult.imp fun _ _ => Value.StepAlike.value
      exact .leads _ (.step (.done hstep)) hstack hlater
  | run worker hwork =>
      have hinner := StackInStep.trampoline (CallSite.alike_self none)
        (.settle cell evaluation hstack)
      exact .leads _ (.step (.done (.ok (.suspended hwork)))) hinner hlater
  | selfDependent name =>
      exact .leads _ (.step (.done (.error (Failure.alike_refl _)))) hstack hlater
  | wait => exact .block cell hlater

/-- A script asks for something or ends, on both sides alike. -/
theorem step_run_inStep {host : Host} (hgrow : likeness.TracesGrow) {script script' : Script Value}
    (hscript : Script.InStep likeness (awaited.Alike likeness) script script')
    (hstack : StackInStep likeness awaited stack stack') (evaluation : EvaluationId)
    (hstore : store.Alike likeness store') :
    Transition.InStep likeness (step host ⟨.run script, stack, evaluation, store⟩)
      (step host ⟨.run script', stack', evaluation, store'⟩) := by
  cases hscript with
  | done hresult => exact yield_inStep hgrow hresult hstack evaluation hstore
  | ask hrequest hnext =>
      have hanswer := hstore.answer hrequest
      exact .leads _ (.run (hnext _ _ hanswer.1)) hstack hanswer.2
  | eval hform hnext =>
      have hinner := StackInStep.trampoline (CallSite.alike_self none) (.await hnext hstack)
      exact .leads _ (.step (Form.step_inStep hform _)) hinner hstore

/-- Alike work is resumed alike. -/
theorem step_resume_inStep {host : Host} (hhost : host.InStep likeness) {work work' : Suspension}
    (hwork : work.Alike likeness .same work') (hstack : StackInStep likeness .step stack stack')
    (evaluation : EvaluationId) (hstore : store.Alike likeness store') :
    Transition.InStep likeness (step host ⟨.resume work, stack, evaluation, store⟩)
      (step host ⟨.resume work', stack', evaluation, store'⟩) := by
  cases hwork with
  | form hform hscope =>
      cases hscope.eq
      exact .leads _ (.step (Form.step_inStep hform _)) hstack hstore
  | call hfunc hhead hoperands hscope =>
      cases hscope.eq
      exact .leads _ (.step (hfunc.enter_inStep hhost hhead hoperands)) hstack hstore
  | binding hcell =>
      cases hcell
      exact demand_inStep _ hstack evaluation hstore
  | givenValue _ hvalue => exact .leads _ (.step (.done (.ok (.value hvalue)))) hstack hstore
  | givenFailure _ =>
      exact .leads _ (.step (.done (.error (Failure.alike_refl _)))) hstack hstore

/-- Alike states take alike steps. -/
theorem step_inStep {host : Host} (hhost : host.InStep likeness) (hgrow : likeness.TracesGrow)
    {state state' : State} (h : state.InStep likeness state') :
    Transition.InStep likeness (step host state) (step host state') := by
  rcases state with ⟨control, stack, evaluation, store⟩
  rcases state' with ⟨control', stack', evaluation', store'⟩
  rcases h with ⟨⟨awaited, htask, hstack⟩, hevaluation, hstore⟩
  cases hevaluation
  cases htask with
  | run hscript => exact step_run_inStep hgrow hscript hstack evaluation hstore
  | resume hwork => exact step_resume_inStep hhost hwork hstack evaluation hstore

end Step

/-! ## Alike runs -/

inductive Outcome.InStep (likeness : Likeness) : Outcome → Outcome → Prop where
  | finished {result result' : Result} {store store' : Store} :
      Result.Alike likeness .same result result' → store.Alike likeness store' →
        Outcome.InStep likeness (.finished result store) (.finished result' store')
  | blocked (cell : CellId) {store store' : Store} :
      store.Alike likeness store' →
        Outcome.InStep likeness (.blocked cell store) (.blocked cell store')
  | unfinished {state state' : State} :
      state.InStep likeness state' →
        Outcome.InStep likeness (.unfinished state) (.unfinished state')

/-- With the same fuel, runs from alike states end alike. -/
theorem run_inStep {host : Host} (hhost : host.InStep likeness) (hgrow : likeness.TracesGrow)
    (fuel : Nat) {state state' : State} (h : state.InStep likeness state') :
    Outcome.InStep likeness (run host fuel state) (run host fuel state') := by
  induction fuel generalizing state state' with
  | zero => exact .unfinished h
  | succ fuel ih =>
      have hstep := step_inStep hhost hgrow h
      simp only [run]
      generalize step host state = transition at hstep ⊢
      generalize step host state' = transition' at hstep ⊢
      cases hstep with
      | next hnext => exact ih hnext
      | halt hresult hstore => exact .finished hresult hstore
      | block cell hstore => exact .blocked cell hstore

/-! ## Where alike runs begin -/

variable {store store' : Store}

theorem ofForm_inStep {form form' : Value} (hform : form.Alike likeness .same form') (scope : Scope)
    (hstore : store.Alike likeness store') :
    (State.ofForm form scope store).InStep likeness (.ofForm form' scope store') :=
  ⟨⟨.step, .step (Form.step_inStep hform scope), .trampoline (CallSite.alike_self none) .nil⟩, rfl,
    hstore⟩

theorem ofScript_inStep {script script' : Script Value}
    (hscript : Script.InStep likeness (Value.Alike likeness .same) script script')
    (hstore : store.Alike likeness store') :
    (State.ofScript script store).InStep likeness (.ofScript script' store') :=
  ⟨⟨.value, .value hscript, .nil⟩, rfl, hstore⟩

end Machine
end LazyLisp
