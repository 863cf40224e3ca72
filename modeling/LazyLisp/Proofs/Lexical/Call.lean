import LazyLisp.Proofs.Lexical.Store
import LazyLisp.Proofs.Machine.Reaches

/-!
# Call — a function made by a program cannot see its caller

A call of such a function opens a frame inside the scope that the function was made in.  The scope of
the caller stays beside the operands, in the cells of the parameters.  So if the operands are
constants, two calls from different scopes leave stores that match, and whatever the body does from
there on, it does the same in both: it calls other functions, runs code that it built or read, binds
and frees names, or asks for its parameters.  This file defines:

* `Machine.State.Matches`, states that are equal but for the scopes beside constants;
* `Machine.Outcome.Matches`, runs that end alike.

Main results: `Machine.step_matches` and `Machine.run_matches`, that steps and runs keep to this;
`Machine.run_closure_matches`, two calls on top of any stack; and `Machine.evaluate_closure_caller`, two
calls as forms.
-/

namespace LazyLisp
namespace Machine

variable {host : Host} {first : CellId} {store store' : Store}

/-! ## States and outcomes -/

/-- The same states in stores that match; or both are about to resume matching work. -/
inductive State.Matches (first : CellId) : State → State → Prop where
  | same (control : Control) (stack : List Pending) (me : EvaluationId) {store store' : Store} :
      store.Matches first store' →
        State.Matches first ⟨control, stack, me, store⟩ ⟨control, stack, me, store'⟩
  | handed (site : Option CallSite) (stack : List Pending) (me : EvaluationId)
      {work work' : Suspension} {store store' : Store} :
      work.Matches work' → store.Matches first store' →
        State.Matches first
          ⟨.run (.done (.ok (.suspended work))), .trampoline site :: stack, me, store⟩
          ⟨.run (.done (.ok (.suspended work'))), .trampoline site :: stack, me, store'⟩
  | resumed (stack : List Pending) (me : EvaluationId) {work work' : Suspension}
      {store store' : Store} :
      work.Matches work' → store.Matches first store' →
        State.Matches first ⟨.resume work, stack, me, store⟩ ⟨.resume work', stack, me, store'⟩

inductive Transition.Matches (first : CellId) : Transition → Transition → Prop where
  | next {state state' : State} : state.Matches first state' →
      Transition.Matches first (.next state) (.next state')
  | halt (result : Result) {store store' : Store} : store.Matches first store' →
      Transition.Matches first (.halt result store) (.halt result store')
  | block (cell : CellId) {store store' : Store} : store.Matches first store' →
      Transition.Matches first (.block cell store) (.block cell store')

/-- Both runs finish with the same result, or both block at the same cell, or neither comes to an
end.  They leave stores that match. -/
inductive Outcome.Matches (first : CellId) : Outcome → Outcome → Prop where
  | finished (result : Result) {store store' : Store} : store.Matches first store' →
      Outcome.Matches first (.finished result store) (.finished result store')
  | blocked (cell : CellId) {store store' : Store} : store.Matches first store' →
      Outcome.Matches first (.blocked cell store) (.blocked cell store')
  | unfinished (state state' : State) : Outcome.Matches first (.unfinished state) (.unfinished state')

/-! ## Steps -/

theorem yield_matches (result : Result) (stack : List Pending) (me : EvaluationId)
    (h : store.Matches first store') :
    Transition.Matches first (yield result stack me store) (yield result stack me store') := by
  cases stack with
  | nil => exact .halt result h
  | cons pending stack =>
      cases pending with
      | await next => exact .next (.same _ _ _ h)
      | settle cell outer => exact .next (.same _ _ _ (h.settle cell result))
      | trampoline site =>
          rcases result with failure | value
          · exact .next (.same _ _ _ h)
          · cases value
            all_goals exact .next (.same _ _ _ h)

theorem demand_matches (cell : CellId) (stack : List Pending) (me : EvaluationId)
    (h : store.Matches first store') :
    Transition.Matches first (demand cell stack me store) (demand cell stack me store') := by
  have hclaim := h.claim me cell
  simp only [demand]
  generalize store.claim me cell = claimed at hclaim ⊢
  generalize store'.claim me cell = claimed' at hclaim ⊢
  obtain ⟨claim, later⟩ := claimed
  obtain ⟨claim', later'⟩ := claimed'
  obtain ⟨hclaim, hlater⟩ := hclaim
  cases hclaim with
  | run worker hwork => exact .next (.handed none _ _ hwork hlater)
  | same claim =>
      cases claim with
      | settled result => exact .next (.same _ _ _ hlater)
      | run work worker => exact .next (.same _ _ _ hlater)
      | selfDependent name => exact .next (.same _ _ _ hlater)
      | wait => exact .block cell hlater

theorem step_matches_of_store (control : Control) (stack : List Pending) (me : EvaluationId)
    (h : store.Matches first store') :
    Transition.Matches first (step host ⟨control, stack, me, store⟩)
      (step host ⟨control, stack, me, store'⟩) := by
  cases control with
  | run script =>
      cases script with
      | done result => exact yield_matches result stack me h
      | eval form scope next => exact .next (.same _ _ _ h)
      | ask request next =>
          obtain ⟨hanswer, hlater⟩ := h.answer request
          simp only [step, hanswer]
          exact .next (.same _ _ _ hlater)
  | resume work =>
      cases work with
      | binding cell => exact demand_matches cell stack me h
      | form form scope => exact .next (.same _ _ _ h)
      | call func head operands scope => exact .next (.same _ _ _ h)
      | given site result => exact .next (.same _ _ _ h)

/-- One step from states that match. -/
theorem step_matches {state state' : State} (h : state.Matches first state') :
    Transition.Matches first (step host state) (step host state') := by
  cases h with
  | same control stack me hstore => exact step_matches_of_store control stack me hstore
  | handed site stack me hwork hstore =>
      simp only [step, yield, hwork.callSite?]
      exact .next (.resumed _ _ hwork hstore)
  | resumed stack me hwork hstore =>
      cases hwork with
      | same _ => exact step_matches_of_store _ stack me hstore
      | constant scope scope' hform =>
          -- A constant comes to itself in either scope.
          simp only [step, Form.step_of_isSelfEvaluating hform]
          exact .next (.same _ _ _ hstore)

/-- Runs from states that match end alike. -/
theorem run_matches (fuel : Nat) {state state' : State} (h : state.Matches first state') :
    Outcome.Matches first (run host fuel state) (run host fuel state') := by
  induction fuel generalizing state state' with
  | zero => exact .unfinished state state'
  | succ fuel ih =>
      rw [run, run]
      have hstep : Transition.Matches first (step host state) (step host state') := step_matches h
      generalize step host state = transition at hstep ⊢
      generalize step host state' = transition' at hstep ⊢
      cases hstep with
      | next hnext => exact ih hnext
      | halt result hstore => exact .finished result hstore
      | block cell hstore => exact .blocked cell hstore

/-! ## Calls from two scopes -/

section Closure

variable {name : String} {params : List Symbol} {body : Value} {scope : Scope} {operands : List Value}

/-- Parameters are bound to constants from either scope. -/
theorem reaches_bindParams (host : Host) (inner caller caller' : Scope) {pairs : List (Symbol × Value)}
    (hoperands : ∀ pair ∈ pairs, pair.2.isSelfEvaluating = true) (next : Script Value)
    (stack : List Pending) (me : EvaluationId) (h : store.Matches first store') :
    ∃ later later', later.Matches first later' ∧
      Reaches host pairs.length
        ⟨.run (Builtin.bindParams inner caller pairs >>= fun _ => next), stack, me, store⟩
        ⟨.run next, stack, me, later⟩ ∧
      Reaches host pairs.length
        ⟨.run (Builtin.bindParams inner caller' pairs >>= fun _ => next), stack, me, store'⟩
        ⟨.run next, stack, me, later'⟩ := by
  induction pairs generalizing store store' with
  | nil => exact ⟨store, store', h, .refl _, .refl _⟩
  | cons pair rest ih =>
      obtain ⟨hoperand, hrest⟩ := List.forall_mem_cons.mp hoperands
      have hbound := (h.setLazy inner pair.1.name (.constant caller caller' hoperand)).2
      obtain ⟨later, later', hlater, hreaches, hreaches'⟩ := ih hrest hbound
      exact ⟨later, later', hlater, .head rfl hreaches, .head rfl hreaches'⟩

/-- A call with the right number of operands opens a frame and binds the parameters in it. -/
theorem reaches_closure (host : Host) (name : String) (body : Value) (scope : Scope)
    (harity : operands.length = params.length) (head : Value) (caller : Scope)
    (stack : List Pending) (me : EvaluationId) (store : Store) :
    Reaches host 2
      ⟨.resume (.call (.closure name params body scope) head operands caller), stack, me, store⟩
      ⟨.run (Builtin.bindParams (store.child scope).1 caller (params.zip operands) >>= fun _ =>
          Script.tail body (store.child scope).1), stack, me, (store.child scope).2⟩ := by
  have henter : step host
      ⟨.resume (.call (.closure name params body scope) head operands caller), stack, me, store⟩ =
      .next ⟨.run (Builtin.enterClosure name params body scope operands caller), stack, me, store⟩ :=
    rfl
  rw [Builtin.enterClosure, if_pos harity] at henter
  exact .head henter (.head rfl (.refl _))

/-- A call with the wrong number of operands does not look at the scope that it comes from. -/
theorem step_closure_of_arity (host : Host) (name : String) (body : Value) (scope : Scope)
    (harity : operands.length ≠ params.length) (head : Value) (caller : Scope)
    (stack : List Pending) (me : EvaluationId) (store : Store) :
    step host
      ⟨.resume (.call (.closure name params body scope) head operands caller), stack, me, store⟩ =
      .next ⟨.run (Script.fail (.arityMismatch name (.exactly params.length) operands.length)), stack,
        me, store⟩ := by
  simp only [step, Func.enter, Builtin.enterClosure, if_neg harity]

/-- Whatever waits, a function made by a program does the same for constants from either scope. -/
theorem run_closure_matches (head : Value)
    (hoperands : ∀ operand ∈ operands, operand.isSelfEvaluating = true) (caller caller' : Scope)
    (stack : List Pending) (me : EvaluationId) (h : store.Matches first store') (fuel : Nat) :
    Outcome.Matches first
      (run host fuel
        ⟨.resume (.call (.closure name params body scope) head operands caller), stack, me, store⟩)
      (run host fuel
        ⟨.resume (.call (.closure name params body scope) head operands caller'), stack, me,
          store'⟩) := by
  by_cases harity : operands.length = params.length
  · obtain ⟨hinner, hchild⟩ := h.child scope
    have hpairs : ∀ pair ∈ params.zip operands, pair.2.isSelfEvaluating = true :=
      fun pair hmem => hoperands pair.2 (List.of_mem_zip hmem).2
    obtain ⟨later, later', hlater, hbind, hbind'⟩ := reaches_bindParams host (store.child scope).1
      caller caller' hpairs (Script.tail body (store.child scope).1) stack me hchild
    have hopen := reaches_closure host name body scope harity head caller stack me store
    have hopen' := reaches_closure host name body scope harity head caller' stack me store'
    -- The new frame has the same name on both sides, so the body is left to the same scope.
    rw [← hinner] at hopen'
    exact (hopen.trans hbind).relate (hopen'.trans hbind') .unfinished
      (fun fuel => run_matches fuel (.same _ _ _ hlater)) fuel
  · have hfail := step_closure_of_arity host name body scope harity head caller stack me store
    have hfail' := step_closure_of_arity host name body scope harity head caller' stack me store'
    exact (Reaches.head hfail (.refl _)).relate (.head hfail' (.refl _)) .unfinished
      (fun fuel => run_matches fuel (.same _ _ _ h)) fuel

/-- Functions made by programs are lexically scoped.  Take a form that calls such a function, by a
name or as the function itself, with constants for operands.  In whichever of two scopes the form is
evaluated, evaluation comes to an end on both sides or on neither, after the same number of steps.
The values are the same at the end, or the failures with their traces are; the same text has been
printed; and all frames bind the same names to the same things.  What is left of the callers are the
scopes beside constants, in cells that were not there before and that nobody has asked for. -/
theorem evaluate_closure_caller {head : Value} {caller caller' : Scope}
    (hhead : store.Names caller head (.closure name params body scope))
    (hhead' : store.Names caller' head (.closure name params body scope))
    (hoperands : ∀ operand ∈ operands, operand.isSelfEvaluating = true) (fuel : Nat) :
    Outcome.Matches store.cells.size
      (evaluate host fuel (.list (head :: operands)) caller store)
      (evaluate host fuel (.list (head :: operands)) caller' store) := by
  obtain ⟨steps, hcall⟩ := reaches_call host head (.closure name params body scope)
  have hreaches := hcall hhead operands none [] mainEvaluation
  have hreaches' := hcall hhead' operands none [] mainEvaluation
  refine hreaches.relate hreaches' .unfinished (fun fuel => ?_) fuel
  exact run_closure_matches head hoperands caller caller' _ _ (.refl (Nat.le_refl _)) fuel

end Closure

/-- A function is called from two scopes, each of which binds a name of its own that the body asks for,
too.  The body sees the name that is bound where the function was made. -/
theorem evaluate_closure_caller_shadowed :
    let call (name : String) (operands : List Value) : Value :=
      .list (.symbol (.unplaced name) :: operands)
    let func : Func := .closure "f" [.unplaced "x"]
      (call "list" [.symbol (.unplaced "x"), .symbol (.unplaced "y")]) .base
    let defined := (Store.base.set .base "y" (.text "made")).set .base "f" (.func func)
    let caller := (defined.child .base).1
    let caller' := ((defined.child .base).2.child .base).1
    let store := (((defined.child .base).2.child .base).2.set caller "y" (.text "left")).set caller' "y"
      (.text "right")
    ∃ later later', later.Matches store.cells.size later' ∧
      evaluate .empty 40 (call "f" [.text "a"]) caller store =
        .finished (.ok (.list [.text "a", .text "made"])) later ∧
      evaluate .empty 40 (call "f" [.text "a"]) caller' store =
        .finished (.ok (.list [.text "a", .text "made"])) later' := by
  intro call func defined caller caller' store
  have hhead : store.Names caller (.symbol (.unplaced "f")) func := .inr ⟨_, rfl, rfl⟩
  have hhead' : store.Names caller' (.symbol (.unplaced "f")) func := .inr ⟨_, rfl, rfl⟩
  have hoperands : ∀ operand ∈ [Value.text "a"], operand.isSelfEvaluating = true :=
    List.forall_mem_singleton.mpr rfl
  have hends : Outcome.Matches store.cells.size
      (evaluate .empty 40 (call "f" [.text "a"]) caller store)
      (evaluate .empty 40 (call "f" [.text "a"]) caller' store) :=
    evaluate_closure_caller hhead hhead' hoperands 40
  dsimp only [call, func, defined, caller, caller', store] at hends ⊢
  refine ⟨_, _, ?_, rfl, rfl⟩
  cases hends with
  | finished _ hlater => exact hlater

end Machine
end LazyLisp
