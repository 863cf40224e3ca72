import LazyLisp.Proofs.Machine.Effect
import LazyLisp.Proofs.Machine.Evaluates

/-!
# Reaches — so many steps, whatever waits

A run takes the same steps on top of any stack, and so it takes equally many of them.  That makes it
possible to compare two runs step by step where they begin differently only in what waits.  This
file defines:

* `Machine.Reaches`, that one state is so many steps ahead of another;
* `Machine.Outcome.Ends`, that a run comes to an end;
* `Machine.State.onto`, a state with more waiting below;
* `Store.Names`, that the head of a call stands for a function.

Main results: `Halts.reaches`, that a run on top of any stack reaches the stack with its outcome,
`Reaches.unfinished`, that it is not finished before, and `Reaches.ends_iff`, that a run comes to the
same end as from any state that it reaches; `Reaches.relate`, that two runs end alike if they do so from
states that they reach after equally many steps; `Machine.reaches_call`, how a form comes to a call.
-/

namespace LazyLisp
namespace Machine

variable {host : Host} {steps more : Nat} {state state' state'' : State}

/-! ## Counted steps -/

/-- From `state`, `steps` steps lead to `state'`. -/
def Reaches (host : Host) (steps : Nat) (state state' : State) : Prop :=
  ∀ fuel, run host (fuel + steps) state = run host fuel state'

namespace Reaches

theorem refl (state : State) : Reaches host 0 state state :=
  fun _ => rfl

theorem head (hstep : step host state = .next state') (h : Reaches host steps state' state'') :
    Reaches host (steps + 1) state state'' := by
  intro fuel
  rw [← Nat.add_assoc, run, hstep]
  exact h fuel

theorem trans (h : Reaches host steps state state') (h' : Reaches host more state' state'') :
    Reaches host (more + steps) state state'' := by
  intro fuel
  rw [← Nat.add_assoc, h, h']

end Reaches

theorem unfinished_of_add {fuel : Nat} {last : State}
    (h : run host (fuel + more) state = .unfinished last) :
    ∃ later, run host fuel state = .unfinished later := by
  induction fuel generalizing state with
  | zero => exact ⟨state, rfl⟩
  | succ fuel ih =>
      rw [Nat.succ_add, run] at h
      rw [run]
      -- A step that ends the run would have ended it with more fuel, too.
      cases hstep : step host state with
      | next state' =>
          rw [hstep] at h
          exact ih h
      | halt result store =>
          rw [hstep] at h
          cases h
      | block cell store =>
          rw [hstep] at h
          cases h

/-- There is no end before the steps have been taken. -/
theorem Reaches.unfinished (h : Reaches host steps state state') {fuel : Nat} (hle : fuel ≤ steps) :
    ∃ later, run host fuel state = .unfinished later := by
  obtain ⟨more, rfl⟩ := Nat.exists_eq_add_of_le hle
  have hlast : run host (fuel + more) state = .unfinished state' := by
    simpa [run] using h 0
  exact unfinished_of_add hlast

/-- The run comes to an end, and does not just run out of steps. -/
def Outcome.Ends : Outcome → Prop
  | .finished _ _ | .blocked _ _ => True
  | .unfinished _ => False

/-- More steps make no difference to a run that comes to an end. -/
theorem run_add_of_ends {fuel : Nat} (h : (run host fuel state).Ends) (more : Nat) :
    run host (fuel + more) state = run host fuel state := by
  induction fuel generalizing state with
  | zero => cases h
  | succ fuel ih =>
      rw [Nat.succ_add]
      simp only [run] at h ⊢
      cases hstep : step host state with
      | next state' =>
          rw [hstep] at h
          exact ih h
      | halt result store => rfl
      | block cell store => rfl

/-- A run comes to the same end as from any state that it reaches. -/
theorem Reaches.ends_iff (h : Reaches host steps state state') {outcome : Outcome}
    (hends : outcome.Ends) :
    (∃ fuel, run host fuel state = outcome) ↔ ∃ fuel, run host fuel state' = outcome := by
  constructor
  · rintro ⟨fuel, rfl⟩
    exact ⟨fuel, by rw [← h fuel, run_add_of_ends hends]⟩
  · rintro ⟨fuel, rfl⟩
    exact ⟨fuel + steps, h fuel⟩

/-- Runs that get to certain states after equally many steps end alike if they do so from there. -/
theorem Reaches.relate {related : Outcome → Outcome → Prop} {first first' middle middle' : State}
    (h : Reaches host steps first middle) (h' : Reaches host steps first' middle')
    (hunfinished : ∀ last last', related (.unfinished last) (.unfinished last'))
    (hmiddle : ∀ fuel, related (run host fuel middle) (run host fuel middle')) (fuel : Nat) :
    related (run host fuel first) (run host fuel first') := by
  rcases Nat.le_total steps fuel with hle | hle
  · obtain ⟨more, rfl⟩ := Nat.exists_eq_add_of_le' hle
    rw [h more, h' more]
    exact hmiddle more
  -- With less fuel, neither run gets there.
  · obtain ⟨later, hlater⟩ := h.unfinished hle
    obtain ⟨later', hlater'⟩ := h'.unfinished hle
    rw [hlater, hlater']
    exact hunfinished later later'

/-! ## On top of a stack -/

/-- The same state, with more waiting below. -/
def State.onto (state : State) (rest : List Pending) : State :=
  { state with stack := state.stack ++ rest }

theorem yield_onto {result : Result} {stack : List Pending} {me : EvaluationId} {store : Store}
    (h : yield result stack me store = .next state') (rest : List Pending) :
    yield result (stack ++ rest) me store = .next (state'.onto rest) := by
  cases stack with
  | nil => cases h
  | cons pending stack =>
      cases pending with
      | await next =>
          cases h
          rfl
      | settle cell outer =>
          cases h
          rfl
      | trampoline site =>
          cases result with
          | error failure =>
              cases h
              rfl
          | ok value =>
              cases value
              all_goals
                cases h
                rfl

theorem demand_onto {cell : CellId} {stack : List Pending} {me : EvaluationId} {store : Store}
    (h : demand cell stack me store = .next state') (rest : List Pending) :
    demand cell (stack ++ rest) me store = .next (state'.onto rest) := by
  simp only [demand] at h ⊢
  generalize store.claim me cell = claimed at h ⊢
  rcases claimed with ⟨claim, later⟩
  cases claim with
  | wait => cases h
  | settled result =>
      cases h
      rfl
  | run work worker =>
      cases h
      rfl
  | selfDependent name =>
      cases h
      rfl

/-- A step that leads on does not look at what waits below. -/
theorem step_onto (h : step host state = .next state') (rest : List Pending) :
    step host (state.onto rest) = .next (state'.onto rest) := by
  rcases state with ⟨control, stack, me, store⟩
  cases control with
  | run script =>
      cases script with
      | done result => exact yield_onto h rest
      | ask request next =>
          cases h
          rfl
      | eval form scope next =>
          cases h
          rfl
  | resume work =>
      cases work with
      | binding cell => exact demand_onto h rest
      | form form scope =>
          cases h
          rfl
      | call func head operands scope =>
          cases h
          rfl
      | given site result =>
          cases h
          rfl

/-- A step that blocks is a demand, and what waits below does not help. -/
theorem block_onto {cell : CellId} {store : Store} (h : step host state = .block cell store)
    (rest : List Pending) : step host (state.onto rest) = .block cell store := by
  obtain ⟨control, stack, evaluation, before⟩ := state
  obtain ⟨rfl, hclaim⟩ := block_of_step h
  exact step_binding_of_wait hclaim

/-- The evaluation that goes on when everything on the stack is done. -/
def bottom (stack : List Pending) (evaluation : EvaluationId) : EvaluationId :=
  (settling stack).foldl (fun _ entry => entry.2) evaluation

def State.bottom (state : State) : EvaluationId :=
  Machine.bottom state.stack state.evaluation

theorem bottom_of_step {next : State} (h : step host state = .next next) :
    next.bottom = state.bottom := by
  cases effect_of_step h with
  | still hstore hevaluation hsettling =>
      rw [State.bottom, State.bottom, bottom, bottom, hevaluation, hsettling]
  | answered | entered hclaim | settled => rfl

/-- A run on top of any stack reaches the stack with its outcome, always after the same number of
steps. -/
theorem Halts.reaches {result : Result} {store : Store}
    (h : Halts host anyState steps state result store) :
    ∃ me, ∀ rest, Reaches host steps (state.onto rest) ⟨.run (.done result), rest, me, store⟩ := by
  induction h with
  | @halt state _ _ _ hstep =>
      obtain ⟨hcontrol, hstack, hstore⟩ := halt_of_step hstep
      refine ⟨state.evaluation, fun rest => ?_⟩
      rcases state with ⟨control, stack, me, store⟩
      cases hcontrol
      cases hstack
      cases hstore
      exact .refl _
  | next _ hstep _ ih =>
      obtain ⟨me, hreaches⟩ := ih
      exact ⟨me, fun rest => .head (step_onto hstep rest) (hreaches rest)⟩

/-- What a form comes to is reached on top of any stack, always after the same number of steps. -/
theorem Evaluates.reaches {me : EvaluationId} {form : Value} {scope : Scope} {store store' : Store}
    {result : Result} (h : Evaluates host me form scope store result store') :
    ∃ steps me', ∀ rest,
      Reaches host steps ⟨.run (Form.step form scope), .trampoline none :: rest, me, store⟩
        ⟨.run (.done result), rest, me', store'⟩ := by
  obtain ⟨steps, hhalts⟩ := finished_iff_halts.mp h
  exact ⟨steps, hhalts.reaches⟩

end Machine

/-! ## Calls -/

/-- As the head of a form in `scope`, `head` stands for `func`: it is the function itself, or a symbol
that is bound to it. -/
def Store.Names (store : Store) (scope : Scope) (head : Value) (func : Func) : Prop :=
  head = .func func ∨
    ∃ symbol, head = .symbol symbol ∧ store.get scope symbol.name = .ok (.func func)

namespace Machine

/-- A form whose head stands for a function calls the function, always after the same number of
steps. -/
theorem reaches_call (host : Host) (head : Value) (func : Func) :
    ∃ steps, ∀ {scope : Scope} {store : Store}, store.Names scope head func →
      ∀ (operands : List Value) (site : Option CallSite) (stack : List Pending) (me : EvaluationId),
        Reaches host steps
          ⟨.run (Form.step (.list (head :: operands)) scope), .trampoline site :: stack, me, store⟩
          ⟨.resume (.call func head operands scope),
            .trampoline ((func.callSite? head).or site) :: stack, me, store⟩ := by
  by_cases hfunc : head = .func func
  · subst hfunc
    refine ⟨4, fun _ operands site stack me => ?_⟩
    exact .head rfl (.head rfl (.head rfl (.head rfl (.refl _))))
  -- A symbol takes one step more: it is looked up.
  · refine ⟨5, fun hnames operands site stack me => ?_⟩
    obtain ⟨symbol, rfl, hlookup⟩ := hnames.resolve_left hfunc
    exact .head rfl (.head (step_symbol hlookup _) (.head rfl (.head rfl (.head rfl (.refl _)))))

end Machine
end LazyLisp
