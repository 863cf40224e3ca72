import LazyLisp.Proofs.Direct.Programs

/-!
# Callers — the trace of a failure is the logical call stack

A trace could be kept by passing callers on.  What is evaluated for its value, and the work of a
lazy binding, begins with no caller.  A call of a function that a program made takes the place of
the caller, and everything else that happens in the last place keeps it.  A failure passes the
caller that is there when it is raised, and that is all.  So the calls between two frames of a trace
are those that were left to their callers.  This file defines:

* `Direct.Moves` and `Direct.ComesTo`, evaluation by rules that pass the caller on;
* `Direct.Passes`, any number of moves with the calls that they go through.

Main results: `Direct.outcome_iff_comesTo`, that the rules describe direct evaluation with traces,
`Direct.comesTo_error_iff`, which caller a failure passes, and `Direct.finished_iff_comesTo`, that
the machine keeps the traces that the rules give.
-/

namespace LazyLisp
namespace Direct

open Machine (Control mainEvaluation)

/-! ## Rules -/

mutual

/-- A script moves on in its place.  If the move is into a call that shows in traces, then the call
takes the place of the caller. -/
inductive Moves (host : Host) : EvaluationId → Script Value → Store → Option CallSite →
    Script Value → Store → Prop where
  | ask {me : EvaluationId} {store : Store} {request : Request}
      {next : request.Answer → Script Value} :
      Moves host me (.ask request next) store none (next (store.answer request).1)
        (store.answer request).2
  /-- A form is evaluated for its value. -/
  | eval {me : EvaluationId} {store store' : Store} {form : Value} {scope : Scope}
      {next : Result → Script Value} {result : Result} :
      ComesTo host me none (Form.step form scope) store result store' →
        Moves host me (.eval form scope next) store none (next result) store'
  /-- A form in the last place. -/
  | form {me : EvaluationId} {store : Store} {form : Value} {scope : Scope} :
      Moves host me (.done (.ok (.suspended (.form form scope)))) store none
        (Form.step form scope) store
  | native {me : EvaluationId} {store : Store} {name : String} {operation : Operation}
      {head : Value} {operands : List Value} {scope : Scope} :
      Moves host me
        (.done (.ok (.suspended (.call (.native name operation) head operands scope)))) store none
        (operation.perform host ⟨name, head, operands, scope⟩) store
  /-- A call by a symbol goes by the name and the place of the symbol. -/
  | closureBySymbol {me : EvaluationId} {store : Store} {name : String} {params : List Symbol}
      {body : Value} {inner : Scope} {symbol : Symbol} {operands : List Value} {scope : Scope} :
      Moves host me
        (.done (.ok (.suspended
          (.call (.closure name params body inner) (.symbol symbol) operands scope)))) store
        (some ⟨symbol.name, symbol.position⟩)
        (Builtin.enterClosure name params body inner operands scope) store
  /-- Every other call goes by the name of the function, and by no place. -/
  | closure {me : EvaluationId} {store : Store} {name : String} {params : List Symbol}
      {body : Value} {inner : Scope} {head : Value} {operands : List Value} {scope : Scope} :
      (∀ symbol, head ≠ .symbol symbol) →
        Moves host me
          (.done (.ok (.suspended
            (.call (.closure name params body inner) head operands scope)))) store
          (some ⟨name, none⟩) (Builtin.enterClosure name params body inner operands scope) store
  | given {me : EvaluationId} {store : Store} {site : Option CallSite} {result : Result} :
      Moves host me (.done (.ok (.suspended (.given site result)))) store site (.done result) store
  /-- A binding is read that has an outcome. -/
  | settled {me : EvaluationId} {store claimed : Store} {cell : CellId} {result : Result} :
      store.claim me cell = (.settled result, claimed) →
        Moves host me (.done (.ok (.suspended (.binding cell)))) store none (.done result) claimed
  /-- A binding is resolved. -/
  | resolved {me : EvaluationId} {store claimed store' : Store} {cell : CellId}
      {work : Suspension} {worker : Option EvaluationId} {result : Result} :
      store.claim me cell = (.run work worker, claimed) →
        ComesTo host (worker.getD me) none (.done (.ok (.suspended work))) claimed result store' →
          Moves host me (.done (.ok (.suspended (.binding cell)))) store none (.done result)
            (store'.settle cell result)
  /-- A binding demands itself. -/
  | refused {me : EvaluationId} {store claimed : Store} {cell : CellId} {name : String} :
      store.claim me cell = (.selfDependent name, claimed) →
        Moves host me (.done (.ok (.suspended (.binding cell)))) store none
          (.done (.error (Cell.selfDependence name))) claimed

/-- A script comes to a value, or to a failure that has passed the caller, if there is one. -/
inductive ComesTo (host : Host) : EvaluationId → Option CallSite → Script Value → Store →
    Result → Store → Prop where
  | value {me : EvaluationId} {caller : Option CallSite} {store : Store} {value : Value} :
      (∀ work, value ≠ .suspended work) →
        ComesTo host me caller (.done (.ok value)) store (.ok value) store
  | failure {me : EvaluationId} {caller : Option CallSite} {store : Store} {failure : Failure} :
      ComesTo host me caller (.done (.error failure)) store (.error (failure.throughAny caller))
        store
  | moves {me : EvaluationId} {caller site : Option CallSite} {script script' : Script Value}
      {store store' final : Store} {result : Result} :
      Moves host me script store site script' store' →
        ComesTo host me (site.or caller) script' store' result final →
          ComesTo host me caller script store result final

end

variable {host : Host} {me : EvaluationId} {caller site : Option CallSite}
  {script script' : Script Value} {store store' final : Store} {result : Result}

/-- Calls of any function, under the site by which they show. -/
theorem moves_call (func : Func) (head : Value) (operands : List Value) (scope : Scope) :
    Moves host me (.done (.ok (.suspended (.call func head operands scope)))) store
      (func.callSite? head) (func.enter host head operands scope) store := by
  cases func with
  | native name operation => exact .native
  | closure name params body inner =>
      cases head with
      | symbol symbol => exact .closureBySymbol
      | _ => exact .closure fun symbol hsymbol => by cases hsymbol

/-! ## The rules describe direct evaluation -/

section Traced

variable (fuel : Nat) (cell : CellId)

/-- A call takes the place of the caller, if it shows in traces. -/
theorem outcome_call_traced (func : Func) (head : Value) (operands : List Value) (scope : Scope) :
    outcome Discipline.need.traced host (fuel + 2) me caller
        (.run (.done (.ok (.suspended (.call func head operands scope))))) store =
      outcome Discipline.need.traced host fuel me ((func.callSite? head).or caller)
        (.run (func.enter host head operands scope)) store :=
  rfl

theorem outcome_settled_traced {claimed : Store}
    (hclaim : store.claim me cell = (.settled result, claimed)) :
    outcome Discipline.need.traced host (fuel + 2) me caller
        (.run (.done (.ok (.suspended (.binding cell))))) store =
      outcome Discipline.need.traced host fuel me caller (.run (.done result)) claimed := by
  have hsame : Discipline.need.traced.claim store me cell = (.settled result, claimed) := hclaim
  rw [outcome, outcome, hsame]
  rfl

theorem outcome_refused_traced {claimed : Store} {name : String}
    (hclaim : store.claim me cell = (.selfDependent name, claimed)) :
    outcome Discipline.need.traced host (fuel + 2) me caller
        (.run (.done (.ok (.suspended (.binding cell))))) store =
      outcome Discipline.need.traced host fuel me caller
        (.run (.done (.error (Cell.selfDependence name)))) claimed := by
  have hsame : Discipline.need.traced.claim store me cell = (.selfDependent name, claimed) := hclaim
  rw [outcome, outcome, hsame]
  rfl

/-- The work of a binding is done for no caller, and its outcome is stored. -/
theorem outcome_resolved_traced {claimed : Store} {work : Suspension}
    {worker : Option EvaluationId} (hclaim : store.claim me cell = (.run work worker, claimed)) :
    outcome Discipline.need.traced host (fuel + 2) me caller
        (.run (.done (.ok (.suspended (.binding cell))))) store =
      match outcome Discipline.need.traced host fuel (worker.getD me) none
          (.run (.done (.ok (.suspended work)))) claimed with
      | some (result, later) => outcome Discipline.need.traced host fuel me caller
          (.run (.done result)) (later.settle cell result)
      | none => none := by
  have hsame : Discipline.need.traced.claim store me cell = (.run work worker, claimed) := hclaim
  rw [outcome, outcome, hsame]
  rfl

end Traced

theorem callSite?_closure {name : String} {params : List Symbol} {body : Value} {inner : Scope}
    {head : Value} (hhead : ∀ symbol, head ≠ .symbol symbol) :
    (Func.closure name params body inner).callSite? head = some ⟨name, none⟩ := by
  cases head with
  | symbol symbol => exact absurd rfl (hhead symbol)
  | _ => rfl

/-- What the script after a move comes to, the script before it comes to with some more fuel. -/
def Precedes (host : Host) (me : EvaluationId) (script : Script Value) (store : Store)
    (site : Option CallSite) (script' : Script Value) (store' : Store) : Prop :=
  ∀ caller fuel final,
    outcome Discipline.need.traced host fuel me (site.or caller) (.run script') store' =
        some final →
      ∃ more, outcome Discipline.need.traced host more me caller (.run script) store = some final

mutual

theorem precedes_of_moves {me : EvaluationId} {site : Option CallSite}
    {script script' : Script Value} {store store' : Store}
    (h : Moves host me script store site script' store') :
    Precedes host me script store site script' store' :=
  match h with
  | @Moves.ask _ _ _ _ next => fun _ fuel _ hlast => ⟨fuel + 1, hlast⟩
  | @Moves.eval _ _ _ _ _ _ next _ hform => by
      intro caller fuel last hlast
      rcases outcome_of_comesTo hform with ⟨first, hfirst⟩
      refine ⟨max first fuel + 1, ?_⟩
      rw [outcome, outcome_mono (Nat.le_max_left first fuel) hfirst]
      exact outcome_mono (Nat.le_max_right first fuel) hlast
  | .form => fun _ fuel _ hlast => ⟨fuel + 2, hlast⟩
  | .native => fun _ fuel _ hlast => ⟨fuel + 2, hlast⟩
  | .closureBySymbol => fun _ fuel _ hlast => ⟨fuel + 2, hlast⟩
  | .closure hhead => by
      intro caller fuel last hlast
      refine ⟨fuel + 2, ?_⟩
      rw [outcome_call_traced, callSite?_closure hhead]
      exact hlast
  | .given => fun _ fuel _ hlast => ⟨fuel + 2, hlast⟩
  | .settled hclaim => by
      intro caller fuel last hlast
      exact ⟨fuel + 2, (outcome_settled_traced fuel _ hclaim).trans hlast⟩
  | .refused hclaim => by
      intro caller fuel last hlast
      exact ⟨fuel + 2, (outcome_refused_traced fuel _ hclaim).trans hlast⟩
  | .resolved hclaim hwork => by
      intro caller fuel last hlast
      rcases outcome_of_comesTo hwork with ⟨first, hfirst⟩
      refine ⟨max first fuel + 2, ?_⟩
      rw [outcome_resolved_traced _ _ hclaim, outcome_mono (Nat.le_max_left first fuel) hfirst]
      exact outcome_mono (Nat.le_max_right first fuel) hlast

theorem outcome_of_comesTo {me : EvaluationId} {caller : Option CallSite}
    {script : Script Value} {store final : Store} {result : Result}
    (h : ComesTo host me caller script store result final) :
    ∃ fuel, outcome Discipline.need.traced host fuel me caller (.run script) store =
      some (result, final) :=
  match h with
  | @ComesTo.value _ _ _ _ value hvalue => by
      refine ⟨1, ?_⟩
      cases value with
      | suspended work => exact absurd rfl (hvalue work)
      | _ => rfl
  | .failure => ⟨1, rfl⟩
  | .moves hmoves hrest => by
      rcases outcome_of_comesTo hrest with ⟨fuel, hfuel⟩
      exact precedes_of_moves hmoves _ fuel _ hfuel

end

/-- The outcomes with less fuel are those that the rules give. -/
def RulesBelow (host : Host) (fuel : Nat) : Prop :=
  ∀ less, less < fuel → ∀ {me : EvaluationId} {caller : Option CallSite} {script : Script Value}
    {store final : Store} {result : Result},
    outcome Discipline.need.traced host less me caller (.run script) store =
      some (result, final) → ComesTo host me caller script store result final

/-- Suspended work is resumed by one of the rules. -/
theorem comesTo_of_resume {fuel : Nat} (ih : RulesBelow host (fuel + 2)) {work : Suspension}
    (h : outcome Discipline.need.traced host (fuel + 2) me caller
      (.run (.done (.ok (.suspended work)))) store = some (result, final)) :
    ComesTo host me caller (.done (.ok (.suspended work))) store result final := by
  have hbelow : fuel < fuel + 2 := by omega
  cases work with
  | form form scope => exact .moves .form (ih fuel hbelow h)
  | call func head operands scope =>
      rw [outcome_call_traced] at h
      exact .moves (moves_call func head operands scope) (ih fuel hbelow h)
  | given site left => exact .moves .given (ih fuel hbelow h)
  | binding cell =>
      rcases hclaim : store.claim me cell with ⟨claim, claimed⟩
      cases claim with
      | settled left =>
          rw [outcome_settled_traced fuel cell hclaim] at h
          exact .moves (.settled hclaim) (ih fuel hbelow h)
      | run work worker =>
          rw [outcome_resolved_traced fuel cell hclaim] at h
          split at h
          · next left later hwork =>
              exact .moves (.resolved hclaim (ih fuel hbelow hwork)) (ih fuel hbelow h)
          · cases h
      | selfDependent name =>
          rw [outcome_refused_traced fuel cell hclaim] at h
          exact .moves (.refused hclaim) (ih fuel hbelow h)
      | wait =>
          have hwait : Discipline.need.traced.claim store me cell = (.wait, claimed) := hclaim
          rw [outcome, outcome, hwait] at h
          cases h

theorem comesTo_of_outcome {fuel : Nat}
    (h : outcome Discipline.need.traced host fuel me caller (.run script) store =
      some (result, final)) : ComesTo host me caller script store result final := by
  -- By strong induction on the fuel: a move may take two units of it.
  induction fuel using Nat.strongRecOn generalizing me caller script store result final with
  | ind fuel ih =>
    have hrules : RulesBelow host fuel := fun less hless => ih less hless
    rcases fuel with _ | fuel
    · cases h
    have hbelow : fuel < fuel + 1 := Nat.lt_succ_self fuel
    rcases script with (failure | value) | ⟨request, next⟩ | ⟨form, scope, next⟩
    · cases h
      exact .failure
    · cases value with
      | suspended work =>
          rcases fuel with _ | fuel
          · cases h
          · exact comesTo_of_resume hrules h
      | _ =>
          cases h
          exact .value fun work hwork => by cases hwork
    · exact .moves .ask (ih fuel hbelow h)
    · rw [outcome] at h
      split at h
      · next left later hform => exact .moves (.eval (ih fuel hbelow hform)) (ih fuel hbelow h)
      · cases h

theorem outcome_iff_comesTo :
    (∃ fuel, outcome Discipline.need.traced host fuel me caller (.run script) store =
        some (result, final)) ↔ ComesTo host me caller script store result final :=
  ⟨fun ⟨_, h⟩ => comesTo_of_outcome h, outcome_of_comesTo⟩

/-! ## The last call counts -/

/-- Any number of moves, with the calls that they go through, one after the other. -/
inductive Passes (host : Host) (me : EvaluationId) : Script Value → Store → List CallSite →
    Script Value → Store → Prop where
  | refl {script : Script Value} {store : Store} : Passes host me script store [] script store
  | step {script script₁ script' : Script Value} {store store₁ store' : Store}
      {site : Option CallSite} {sites : List CallSite} :
      Moves host me script store site script₁ store₁ →
        Passes host me script₁ store₁ sites script' store' →
          Passes host me script store (site.toList ++ sites) script' store'

theorem getLast?_or (site caller : Option CallSite) (sites : List CallSite) :
    (site.toList ++ sites).getLast?.or caller = sites.getLast?.or (site.or caller) := by
  have hsite : site.toList.getLast? = site := by cases site <;> rfl
  rw [List.getLast?_append, hsite, Option.or_assoc]

/-- What comes of the script behind some moves comes of the script before them, for the last of the
calls that the moves went through. -/
theorem comesTo_of_passes {sites : List CallSite}
    (h : Passes host me script store sites script' store')
    (hrest : ComesTo host me (sites.getLast?.or caller) script' store' result final) :
    ComesTo host me caller script store result final := by
  induction h generalizing caller with
  | refl => exact hrest
  | step hmoves _ ih =>
      rw [getLast?_or] at hrest
      exact .moves hmoves (ih hrest)

theorem passes_of_comesTo {me : EvaluationId} {caller : Option CallSite} {script : Script Value}
    {store final : Store} {result : Result} {failure : Failure} (hresult : result = .error failure)
    (h : ComesTo host me caller script store result final) :
    ∃ sites raised, Passes host me script store sites (.done (.error raised)) final ∧
      failure = raised.throughAny (sites.getLast?.or caller) :=
  match h with
  | .value _ => by cases hresult
  | @ComesTo.failure _ _ _ _ raised => by
      cases hresult
      exact ⟨[], raised, .refl, rfl⟩
  | .moves hmoves hrest => by
      rcases passes_of_comesTo hresult hrest with ⟨sites, raised, hpasses, hfailure⟩
      exact ⟨_, raised, .step hmoves hpasses, by rw [getLast?_or]; exact hfailure⟩

/-- A failure has passed the last of the calls that evaluation went through before it was raised,
and if there was none, the caller. -/
theorem comesTo_error_iff {failure : Failure} :
    ComesTo host me caller script store (.error failure) final ↔
      ∃ sites raised, Passes host me script store sites (.done (.error raised)) final ∧
        failure = raised.throughAny (sites.getLast?.or caller) := by
  constructor
  · exact passes_of_comesTo rfl
  · rintro ⟨sites, raised, hpasses, rfl⟩
    exact comesTo_of_passes hpasses .failure

theorem eq_throughAny_iff {failure raised : Failure} :
    failure = raised.throughAny site ↔
      failure.cause = raised.cause ∧
        failure.trace.toList = raised.trace.toList ++ site.toList := by
  rcases failure with ⟨cause, trace⟩
  rcases raised with ⟨cause', trace'⟩
  cases site with
  | none =>
      rw [Failure.throughAny, Failure.mk.injEq, ← Array.toList_inj]
      simp
  | some site =>
      rw [Failure.throughAny, Failure.through, Failure.mk.injEq, ← Array.toList_inj]
      simp

/-! ## The traces of the machine -/

/-- The machine keeps exactly the traces that come of passing callers on, for forms and for
programs.  A failure of what was begun for no caller has one more call in its trace than it was
raised with: the last one that evaluation went through on the way to it, however many there were
before; or none, if there was no call on the way.  A binding that has failed fails again with what
is stored, and with the last call on the way to this demand behind it. -/
theorem finished_iff_comesTo (host : Host) (store : Store) :
    (∀ form scope result store',
        (∃ fuel, Machine.evaluate host fuel form scope store = .finished result store') ↔
          ComesTo host mainEvaluation none (Form.step form scope) store result store') ∧
      (∀ source scope result store',
        (∃ fuel, Program.run host fuel source scope store = .finished result store') ↔
          ComesTo host mainEvaluation none (Program.evaluate source scope) store result store') ∧
      (∀ me script failure store',
        ComesTo host me none script store (.error failure) store' ↔
          ∃ sites raised, Passes host me script store sites (.done (.error raised)) store' ∧
            failure.cause = raised.cause ∧
              failure.trace.toList = raised.trace.toList ++ sites.getLast?.toList) ∧
      ∀ me script sites cell name stored store',
        Passes host me script store sites (.done (.ok (.suspended (.binding cell)))) store' →
          store'.cells[cell]? = some ⟨name, .settled (.error stored)⟩ →
            ∃ failure, ComesTo host me none script store (.error failure) store' ∧
              failure.cause = stored.cause ∧
                failure.trace.toList = stored.trace.toList ++ sites.getLast?.toList := by
  refine ⟨?_, ?_, ?_, ?_⟩
  · intro form scope result store'
    calc
      (∃ fuel, Machine.evaluate host fuel form scope store = .finished result store')
          ↔ ∃ fuel, evaluate Discipline.need.traced host fuel form scope store =
              some (result, store') :=
        Machine.finished_iff_halts.trans (halts_iff_outcome governs_need)
      _ ↔ ComesTo host mainEvaluation none (Form.step form scope) store result store' :=
        outcome_iff_comesTo
  · intro source scope result store'
    calc
      (∃ fuel, Program.run host fuel source scope store = .finished result store')
          ↔ ∃ fuel, perform Discipline.need.traced host fuel source scope store =
              some (result, store') :=
        Machine.finished_iff_halts.trans (halts_program_iff governs_need)
      _ ↔ ComesTo host mainEvaluation none (Program.evaluate source scope) store result store' :=
        outcome_iff_comesTo
  · intro me script failure store'
    simp only [comesTo_error_iff, Option.or_none, eq_throughAny_iff]
  · intro me script sites cell name stored store' hpasses hcell
    have hclaim : store'.claim me cell = (.settled (.error stored), store') :=
      Store.claim_of_settled hcell
    have hrest : ComesTo host me (sites.getLast?.or none) (.done (.ok (.suspended (.binding cell))))
        store' (.error (stored.throughAny sites.getLast?)) store' := by
      rw [Option.or_none]
      exact .moves (.settled hclaim) .failure
    exact ⟨_, comesTo_of_passes hpasses hrest, eq_throughAny_iff.mp rfl⟩

/-- `g` leaves a call of `f` to its caller, and `f` throws: the trace of the failure shows `f` and
not `g`, on the machine and by the rules. -/
theorem finished_iff_comesTo_tail :
    let symbol (name : String) : Value := .symbol (.unplaced name)
    let thrower : Func := .closure "f" [] (.list [symbol "throw", .text "no"]) .base
    let store : Store := (Store.base.set .base "f" (.func thrower)).set .base "g"
      (.func (.closure "g" [] (.list [symbol "f"]) .base))
    let failure : Failure := ⟨.thrown "no", #[⟨"f", none⟩]⟩
    ∃ store', ComesTo .empty mainEvaluation none (Form.step (.list [symbol "g"]) .base) store
        (.error failure) store' ∧
      ∃ sites raised,
        Passes .empty mainEvaluation (Form.step (.list [symbol "g"]) .base) store sites
          (.done (.error raised)) store' ∧
        raised.trace.toList ++ sites.getLast?.toList = [⟨"f", none⟩] := by
  intro symbol thrower store failure
  rcases finished_iff_comesTo .empty store with ⟨hforms, _, hchain, _⟩
  have hcomes := (hforms (.list [symbol "g"]) .base (.error failure) _).mp ⟨40, rfl⟩
  rcases (hchain _ _ _ _).mp hcomes with ⟨sites, raised, hpasses, _, htrace⟩
  exact ⟨_, hcomes, sites, raised, hpasses, htrace.symm⟩

end Direct
end LazyLisp
