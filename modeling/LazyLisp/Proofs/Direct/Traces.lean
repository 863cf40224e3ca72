import LazyLisp.Proofs.Alike.Builtin
import LazyLisp.Proofs.Alike.Same
import LazyLisp.Proofs.Direct.Trampoline

/-!
# Traces — evaluation does not depend on the traces it keeps

A trace is only ever extended and shown: no native function looks at it, and a handler gets to see
the message alone.  So an evaluator that keeps traces and one that does not go through the same
tasks, and their stores differ in nothing but the traces of stored failures.  This file defines:

* `Failure.bare`, `Result.bare` and `Store.bare`, which take traces away;
* `Likeness.untraced`, under which alike values in one store are equal, and alike failures have the
  same cause;
* `Discipline.IgnoresTraces`, the disciplines that neither keep traces nor look at them.

Main results: `Direct.bare_outcome_traced`, and with the trampoline `Direct.finished_iff_evaluate`.
-/

namespace LazyLisp

/-! ## Without traces -/

def Failure.bare (failure : Failure) : Failure := { cause := failure.cause }

def Result.bare : Result → Result
  | .ok value => .ok value
  | .error failure => .error failure.bare

def Cell.State.bare : Cell.State → Cell.State
  | .settled result => .settled result.bare
  | state => state

def Cell.bare (cell : Cell) : Cell := { cell with state := cell.state.bare }

/-- The store without the traces of stored failures. -/
def Store.bare (store : Store) : Store := { store with cells := store.cells.map Cell.bare }

def Claim.bare : Claim → Claim
  | .settled result => .settled result.bare
  | claim => claim

theorem Failure.bare_throughAny (failure : Failure) (site : Option CallSite) :
    (failure.throughAny site).bare = failure.bare := by
  cases site <;> rfl

theorem Cell.value?_bare (cell : Cell) : cell.bare.value? = cell.value? := by
  rcases cell with ⟨name, _ | _ | _ | (_ | _)⟩ <;> rfl

theorem Cell.claim_bare (me : EvaluationId) (cell : Cell) :
    cell.bare.claim me = ((cell.claim me).1.bare, (cell.claim me).2.bare) := by
  rcases cell with ⟨name, work | ⟨worker, work⟩ | ⟨owner, worker⟩ | result⟩
  · rfl
  · simp only [Cell.claim, Cell.bare, Cell.State.bare]
    split <;> rfl
  · simp only [Cell.claim, Cell.bare, Cell.State.bare]
    split <;> rfl
  · rfl

theorem Cell.start_bare (worker : EvaluationId) (cell : Cell) :
    cell.bare.start worker = (cell.start worker).bare := by
  rcases cell with ⟨name, _ | _ | _ | _⟩ <;> rfl

namespace Store

variable (store : Store)

theorem bare_modifyCell (id : CellId) {change change' : Cell → Cell}
    (h : ∀ cell, change' cell.bare = (change cell).bare) :
    store.bare.modifyCell id change' = (store.modifyCell id change).bare := by
  simp only [Store.modifyCell, Store.bare, Store.mk.injEq, and_true, true_and]
  -- Cell by cell: the changed one by assumption, the others as they are.
  refine Array.ext (by simp) fun i hi hi' => ?_
  simp only [Array.getElem_modify, Array.getElem_map]
  split
  · exact h _
  · rfl

theorem bare_ownerAmong (name : String) (ids : List FrameId) :
    store.bare.ownerAmong name ids = store.ownerAmong name ids := by
  induction ids with
  | nil => rfl
  | cons id outer ih =>
      simp only [Store.ownerAmong, ih]
      rfl

theorem bare_owner? (scope : Scope) (name : String) :
    store.bare.owner? scope name = store.owner? scope name :=
  store.bare_ownerAmong name scope.frames

theorem bare_read (binding : Binding) : store.bare.read binding = store.read binding := by
  cases binding with
  | value value => rfl
  | lazy id =>
      simp only [Store.read, Store.bare, Array.getElem?_map]
      cases store.cells[id]? with
      | none => rfl
      | some cell => simp [Cell.value?_bare]

/-- Answers do not depend on stored traces. -/
theorem bare_answer (request : Request) :
    store.bare.answer request = ((store.answer request).1, (store.answer request).2.bare) := by
  cases request with
  | lookup scope name =>
      simp only [Store.answer, Store.get_by_owner, bare_owner?, bare_read]
  | bindLazy scope name work =>
      simp [Store.answer, Store.setLazy, Store.bare, Store.modifyFrame, Cell.bare, Cell.State.bare]
  | unbind scope name =>
      simp only [Store.answer, Store.delete_by_owner, bare_owner?]
      split <;> rfl
  | start scope name =>
      simp only [Store.answer, Store.startAsync_by_owner, bare_owner?]
      split
      · next worker =>
          -- The worker is counted, and the cell started, whatever traces are stored.
          refine Prod.ext rfl ?_
          exact bare_modifyCell { store with workers := store.workers + 1 } _ (Cell.start_bare _)
      · rfl
      · rfl
  | _ => rfl

theorem bare_claim (me : EvaluationId) (id : CellId) :
    store.bare.claim me id = ((store.claim me id).1.bare, (store.claim me id).2.bare) := by
  -- The claimed cell, and what is left of the store.
  have hmodify : store.bare.modifyCell id (fun cell => (cell.claim me).2) =
      (store.modifyCell id fun cell => (cell.claim me).2).bare :=
    store.bare_modifyCell id fun cell => by rw [Cell.claim_bare]
  have hcell : store.bare.cells[id]? = store.cells[id]?.map Cell.bare := Array.getElem?_map
  rw [Store.claim, Store.claim, hcell]
  cases store.cells[id]? with
  | none => rfl
  | some cell =>
      have hclaim := congrArg Prod.fst (Cell.claim_bare me cell)
      exact Prod.ext hclaim hmodify

theorem bare_settle (id : CellId) (result : Result) :
    store.bare.settle id result.bare = (store.settle id result).bare :=
  store.bare_modifyCell id fun _ => rfl

end Store

/-! ## Alike up to traces -/

/-- Traces may differ, and nothing else. -/
def Likeness.untraced : Likeness where
  places := Eq
  traces _ _ := True
  thunks := True
  operations _ := True
  places_equivalence := Likeness.equal_places
  traces_equivalence := Likeness.any_traces

instance : Likeness.untraced.Unrestricted := ⟨trivial, fun _ => trivial⟩

/-! ## Results and answers -/

theorem Result.alike_iff {result result' : Result} :
    Result.Alike .untraced .same result result' ↔ result.bare = result'.bare := by
  constructor
  · intro h
    cases h with
    | ok hvalue => rw [hvalue.eq rfl]
    | error hfailure => simp only [Result.bare, Failure.bare, hfailure.1]
  · intro h
    cases result with
    | ok value =>
        cases result' with
        | ok value' =>
            cases h
            exact .ok (Value.alike_same value)
        | error failure' => cases h
    | error failure =>
        cases result' with
        | ok value' => cases h
        | error failure' => exact .error ⟨by simpa [Result.bare, Failure.bare] using h, trivial⟩

theorem Request.answerAlike_same {request : Request} (answer : request.Answer) :
    Request.AnswerAlike .untraced .same request request answer answer := by
  cases request with
  | lookup scope name =>
      cases answer with
      | ok value => exact .ok (.value (Value.alike_same value))
      | error failure => exact .error (Failure.alike_refl failure)
  | openScope outer => exact Scope.alike_same answer
  | bindLazy scope name work => exact rfl
  | unbind scope name =>
      cases answer with
      | ok _ => exact .ok rfl
      | error failure => exact .error (Failure.alike_refl failure)
  | start scope name =>
      cases answer with
      | ok _ => exact .ok rfl
      | error failure => exact .error (Failure.alike_refl failure)
  | _ => first | exact rfl | exact trivial

/-- Stores that differ in traces only give alike answers, and still differ in traces only. -/
theorem Store.answer_alike {store store' : Store} (hstore : store.bare = store'.bare)
    {request request' : Request} (hrequest : request.Alike .untraced .same request') :
    Request.AnswerAlike .untraced .same request request' (store.answer request).1
        (store'.answer request').1 ∧
      (store.answer request).2.bare = (store'.answer request').2.bare := by
  -- In one store, alike requests are the same request.
  cases hrequest.eq rfl
  have hanswer := store.bare_answer request
  rw [hstore, store'.bare_answer request, Prod.mk.injEq] at hanswer
  rw [hanswer.1]
  exact ⟨Request.answerAlike_same _, hanswer.2.symm⟩

/-! ## Disciplines -/

/-- The discipline does not keep traces, and deals with demands without looking at them. -/
structure Discipline.IgnoresTraces (discipline : Discipline) : Prop where
  site : ∀ work, discipline.site work = none
  claim : ∀ store me cell, discipline.claim (Store.bare store) me cell =
    ((discipline.claim store me cell).1.bare, (discipline.claim store me cell).2.bare)
  settle : ∀ store cell result, discipline.settle (Store.bare store) cell (Result.bare result) =
    (discipline.settle store cell result).bare

theorem Discipline.need_ignoresTraces : Discipline.need.IgnoresTraces where
  site _ := rfl
  claim := Store.bare_claim
  settle := Store.bare_settle

namespace Direct

open Machine (Control)

variable {discipline : Discipline} {host : Host}

/-- A result and a store without traces. -/
def bareOutcome (final : Result × Store) : Result × Store := (final.1.bare, final.2.bare)

/-- Evaluations with the same bare outcome have no outcome at all, or alike ones. -/
theorem alike_of_bareOutcome_eq {first second : Option (Result × Store)}
    (h : first.map bareOutcome = second.map bareOutcome) :
    first = none ∧ second = none ∨
      ∃ result store result' store', first = some (result, store) ∧
        second = some (result', store') ∧ Result.Alike .untraced .same result result' ∧
          store.bare = store'.bare := by
  cases first with
  | none =>
      cases second with
      | none => exact .inl ⟨rfl, rfl⟩
      | some final' => cases h
  | some final =>
      cases second with
      | none => cases h
      | some final' =>
          have hboth := Prod.mk.inj (Option.some.inj h)
          exact .inr ⟨_, _, _, _, rfl, rfl, Result.alike_iff.mpr hboth.1, hboth.2⟩

/-- With this much fuel, keeping traces makes a difference to traces only. -/
def SameButTraces (discipline : Discipline) (host : Host) (fuel : Nat) : Prop :=
  ∀ {me : EvaluationId} {caller : Option CallSite} {control control' : Control}
    {store store' : Store}, control.Alike .untraced .same control' → store.bare = store'.bare →
      (outcome discipline.traced host fuel me caller control store).map bareOutcome =
        (outcome discipline host fuel me none control' store').map bareOutcome

section SameButTraces

variable {fuel : Nat} {me : EvaluationId} {caller : Option CallSite} {store store' : Store}

/-- Suspended work is resumed on both sides, by the one for a caller and by the other for none. -/
theorem bare_resume (ih : SameButTraces discipline host fuel)
    (hdiscipline : discipline.IgnoresTraces) {work work' : Suspension}
    (hwork : work.Alike .untraced .same work') (hstore : store.bare = store'.bare) :
    (outcome discipline.traced host (fuel + 1) me caller
        (.run (.done (.ok (.suspended work)))) store).map bareOutcome =
      (outcome discipline host (fuel + 1) me none
        (.run (.done (.ok (.suspended work')))) store').map bareOutcome := by
  have hsite : (discipline.site work').or none = none := by simp [hdiscipline.site]
  rw [outcome, outcome, hsite]
  exact ih (.resume hwork) hstore

/-- A cell is resolved, on both sides with the same work. -/
theorem bare_resolve (ih : SameButTraces discipline host fuel)
    (hdiscipline : discipline.IgnoresTraces) (cell : CellId) (work : Suspension)
    (worker : EvaluationId) (hstore : store.bare = store'.bare) :
    (match outcome discipline.traced host fuel worker none
        (.run (.done (.ok (.suspended work)))) store with
      | some (result, later) => outcome discipline.traced host fuel me caller
          (.run (.done result)) (discipline.settle later cell result)
      | none => none).map bareOutcome =
    (match outcome discipline host fuel worker none
        (.run (.done (.ok (.suspended work)))) store' with
      | some (result, later) => outcome discipline host fuel me none
          (.run (.done result)) (discipline.settle later cell result)
      | none => none).map bareOutcome := by
  have hwork : Control.Alike .untraced .same (.run (.done (.ok (.suspended work))))
      (.run (.done (.ok (.suspended work)))) :=
    .run (.done (.ok (.suspended (Suspension.alike_same work))))
  rcases alike_of_bareOutcome_eq (ih hwork hstore) with
    ⟨hnone, hnone'⟩ | ⟨result, later, result', later', hsome, hsome', hresult, hlater⟩
  · rw [hnone, hnone']
  · rw [hsome, hsome']
    refine ih (.run (.done (hresult.imp fun _ _ => .value))) ?_
    -- Cells are settled with results that differ in traces only.
    have hbare := Result.alike_iff.mp hresult
    have hsettle := hdiscipline.settle later cell result
    rw [hlater, hbare, hdiscipline.settle later' cell result'] at hsettle
    exact hsettle.symm

/-- A demand comes to the same on both sides, apart from the traces of settled cells. -/
theorem bare_demand (ih : SameButTraces discipline host fuel)
    (hdiscipline : discipline.IgnoresTraces) (cell : CellId) (hstore : store.bare = store'.bare) :
    (outcome discipline.traced host (fuel + 1) me caller (.resume (.binding cell))
        store).map bareOutcome =
      (outcome discipline host (fuel + 1) me none (.resume (.binding cell))
        store').map bareOutcome := by
  have htraced : discipline.traced.claim = discipline.claim := rfl
  have hclaim := hdiscipline.claim store me cell
  rw [hstore, hdiscipline.claim store' me cell, Prod.mk.injEq] at hclaim
  rw [outcome, outcome, htraced]
  -- Both demands are answered in the same way, by what is known of the discipline.
  generalize discipline.claim store me cell = first at hclaim ⊢
  generalize discipline.claim store' me cell = second at hclaim ⊢
  rcases first with ⟨claim, claimed⟩
  rcases second with ⟨claim', claimed'⟩
  rcases hclaim with ⟨hclaim, hclaimed⟩
  cases claim with
  | settled result =>
      cases claim' with
      | settled result' =>
          have hresult := Result.alike_iff.mpr (Claim.settled.inj hclaim.symm)
          exact ih (.run (.done (hresult.imp fun _ _ => .value))) hclaimed.symm
      | _ => cases hclaim
  | run work worker =>
      cases claim' with
      | run work' worker' =>
          cases hclaim
          exact bare_resolve ih hdiscipline cell work (worker.getD me) hclaimed.symm
      | _ => cases hclaim
  | selfDependent name =>
      cases claim' with
      | selfDependent name' =>
          cases hclaim
          exact ih (.run (.done (.error (Failure.alike_refl _)))) hclaimed.symm
      | _ => cases hclaim
  | wait =>
      cases claim' with
      | wait => rfl
      | _ => cases hclaim

end SameButTraces

/-- An evaluator that keeps traces comes to what it comes to without them. -/
theorem bare_outcome_traced (hhost : host.Respects .untraced)
    (hdiscipline : discipline.IgnoresTraces) {fuel : Nat} {me : EvaluationId}
    {caller : Option CallSite} {control control' : Control} {store store' : Store}
    (hcontrol : control.Alike .untraced .same control') (hstore : store.bare = store'.bare) :
    (outcome discipline.traced host fuel me caller control store).map bareOutcome =
      (outcome discipline host fuel me none control' store').map bareOutcome := by
  induction fuel generalizing me caller control control' store store' with
  | zero => rfl
  | succ fuel ih =>
      have hsame : SameButTraces discipline host fuel := fun hcontrol hstore => ih hcontrol hstore
      cases hcontrol with
      | run hscript =>
          cases hscript with
          | done hresult =>
              cases hresult with
              | ok hvalue =>
                  rcases hvalue with hvalue | hwork
                  · cases hvalue.eq rfl
                    rename_i value
                    cases value with
                    | suspended work =>
                        exact bare_resume hsame hdiscipline (Suspension.alike_same work) hstore
                    | _ => exact congrArg (fun store => some (_, store)) hstore
                  · exact bare_resume hsame hdiscipline hwork hstore
              | @error failure failure' hfailure =>
                  have hcause : (failure.throughAny caller).bare = failure'.bare := by
                    rw [Failure.bare_throughAny, Failure.bare, Failure.bare, hfailure.1]
                  have hresult : Result.bare (.error (failure.throughAny caller)) =
                      Result.bare (.error failure') := congrArg Except.error hcause
                  exact congrArg some (Prod.ext hresult hstore)
          | ask hrequest hnext =>
              have hanswer := Store.answer_alike hstore hrequest
              exact ih (.run (hnext _ le_rfl _ _ hanswer.1)) hanswer.2
          | eval hform hscope hnext =>
              rw [outcome, outcome]
              rcases alike_of_bareOutcome_eq (ih (.run (Form.step_alike hform hscope)) hstore) with
                ⟨hnone, hnone'⟩ | ⟨result, later, result', later', hsome, hsome', hresult, hlater⟩
              · rw [hnone, hnone']
              · rw [hsome, hsome']
                exact ih (.run (hnext _ le_rfl _ _ hresult)) hlater
      | resume hwork =>
          cases hwork with
          | form hform hscope => exact ih (.run (Form.step_alike hform hscope)) hstore
          | call hfunc hhead hoperands hscope =>
              exact ih (.run (hfunc.enter hhost hhead hoperands hscope)) hstore
          | givenValue _ hvalue => exact ih (.run (.done (.ok (.value hvalue)))) hstore
          | givenFailure _ => exact ih (.run (.done (.error (Failure.alike_refl _)))) hstore
          | binding hcell =>
              cases hcell
              exact bare_demand hsame hdiscipline _ hstore

/-! ## The machine and direct evaluation -/

/-- Trampolining is transparent: the machine comes to an end on a form exactly if direct evaluation
does, and then with the same value or a failure of the same cause, and with the same bindings,
cells and printed text. -/
theorem finished_iff_evaluate (hhost : host.Respects .untraced) (form : Value) (scope : Scope)
    (store : Store) (final : Result × Store) :
    (∃ fuel result store', Machine.evaluate host fuel form scope store = .finished result store' ∧
        bareOutcome (result, store') = final) ↔
      ∃ fuel result store', evaluate .need host fuel form scope store = some (result, store') ∧
        bareOutcome (result, store') = final := by
  have hform : Control.Alike .untraced .same (.run (Form.step form scope))
      (.run (Form.step form scope)) :=
    .run (Form.step_alike (Value.alike_same form) (Scope.alike_same scope))
  -- The machine comes to what direct evaluation with traces comes to, traces included.
  have hmachine : ∀ result store',
      (∃ fuel, Machine.evaluate host fuel form scope store = .finished result store') ↔
        ∃ fuel, evaluate Discipline.need.traced host fuel form scope store =
          some (result, store') :=
    fun _ _ => Machine.finished_iff_halts.trans (halts_iff_outcome governs_need)
  -- And traces make no difference to anything but traces.
  have htraced : ∀ fuel,
      (evaluate Discipline.need.traced host fuel form scope store).map bareOutcome =
        (evaluate .need host fuel form scope store).map bareOutcome :=
    fun _ => bare_outcome_traced hhost Discipline.need_ignoresTraces hform rfl
  constructor
  · rintro ⟨fuel, result, store', hfinished, hfinal⟩
    rcases (hmachine _ _).mp ⟨fuel, hfinished⟩ with ⟨fuel', houtcome⟩
    have hmap := htraced fuel'
    rw [houtcome] at hmap
    rcases Option.map_eq_some_iff.mp hmap.symm with ⟨⟨result', later⟩, hsome, hbare⟩
    exact ⟨fuel', result', later, hsome, hbare.trans hfinal⟩
  · rintro ⟨fuel, result, store', houtcome, hfinal⟩
    have hmap := htraced fuel
    rw [houtcome] at hmap
    rcases Option.map_eq_some_iff.mp hmap with ⟨⟨result', later⟩, hsome, hbare⟩
    rcases (hmachine _ _).mpr ⟨fuel, hsome⟩ with ⟨fuel', hfinished⟩
    exact ⟨fuel', result', later, hfinished, hbare.trans hfinal⟩

/-- `(let (x (add 1 2)) (if true x nil))` comes to three, in direct evaluation and on the
machine. -/
theorem finished_let_sum :
    Host.standard.Respects .untraced ∧
      ∃ fuel result store', Machine.evaluate Host.standard fuel
          (.list [.symbol (.unplaced "let"),
            .list [.symbol (.unplaced "x"), .list [.symbol (.unplaced "add"), .int 1, .int 2]],
            .list [.symbol (.unplaced "if"), .bool true, .symbol (.unplaced "x"), .nil]])
          Scope.base Store.base = .finished result store' ∧
        result.bare = .ok (.int 3) := by
  refine ⟨Host.standard_respects _, ?_⟩
  have hmachine := fun final => (finished_iff_evaluate (Host.standard_respects _)
    (.list [.symbol (.unplaced "let"),
      .list [.symbol (.unplaced "x"), .list [.symbol (.unplaced "add"), .int 1, .int 2]],
      .list [.symbol (.unplaced "if"), .bool true, .symbol (.unplaced "x"), .nil]])
    Scope.base Store.base final).mpr
  rcases hmachine _ ⟨40, _, _, rfl, rfl⟩ with ⟨fuel, result, store', hfinished, hfinal⟩
  exact ⟨fuel, result, store', hfinished, congrArg Prod.fst hfinal⟩

end Direct
end LazyLisp
