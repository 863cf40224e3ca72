import LazyLisp.Proofs.Direct.Callers
import LazyLisp.Proofs.Machine.InTurn

/-!
# Chain — suspended work that comes to suspended work

Forcing suspended work calls its step, then the step of what that comes to, and so on, until something
else comes out.  How the steps go about it is left open here: each is a run of its own, which may begin
other evaluations and force other work.  This file defines:

* `Machine.Steps`, what one step of suspended work comes to;
* `Machine.Chain`, a row of suspended works, each of which steps to the next one;
* `Machine.Bounces`, a run with the works that it resumes at one height of the stack;
* `Machine.latestSite`, the last traced call of a row of works.

Main results:

* `Chain.bounces`: forcing a chain resumes the works in it one after the other, and no other ones;
* `force_chain`: what forcing comes to, and that forcing a form is evaluating it.
-/

namespace LazyLisp
namespace Machine

variable {host : Host} {me : EvaluationId} {store middle later : Store} {result final : Result}

/-! ## Steps of suspended work -/

/-- Called once by `me` in `store`, the step of `work` comes to `result`, which may be suspended, and
leaves `later`. -/
def Steps (host : Host) (me : EvaluationId) (work : Suspension) (store : Store) (result : Result)
    (later : Store) : Prop :=
  ∃ fuel, run host fuel ⟨.resume work, [], me, store⟩ = .finished result later

/-- Each of the works steps to the next one, and the last one to a result that is not suspended. -/
inductive Chain (host : Host) (me : EvaluationId) :
    List Suspension → Store → Result → Store → Prop where
  | last {work : Suspension} {store later : Store} {result : Result} :
      Steps host me work store result later → (∀ next, result ≠ .ok (.suspended next)) →
        Chain host me [work] store result later
  | link {work next : Suspension} {others : List Suspension} {store middle later : Store}
      {result : Result} :
      Steps host me work store (.ok (.suspended next)) middle →
        Chain host me (next :: others) middle result later →
          Chain host me (work :: next :: others) store result later

/-- The last traced call of a row of works. -/
def latestSite (works : List Suspension) : Option CallSite :=
  (works.filterMap Suspension.callSite?).getLast?

theorem latestSite_cons (work : Suspension) (others : List Suspension) (site : Option CallSite) :
    (latestSite (work :: others)).or site =
      (latestSite others).or (work.callSite?.or site) := by
  unfold latestSite
  cases hsite : work.callSite? with
  | none => simp [hsite]
  | some own =>
      rw [List.filterMap_cons_some hsite, List.getLast?_cons]
      cases (others.filterMap Suspension.callSite?).getLast? <;> rfl

/-- The result after it has passed a call, if there was one to pass and it is a failure. -/
def passing (result : Result) (site : Option CallSite) : Result :=
  result.mapError fun failure => failure.throughAny site

/-! ## Runs with the works that they resume -/

/-- The work that is resumed by the next step, if exactly `height` things wait. -/
def State.resumes? (height : Nat) (state : State) : Option Suspension :=
  match state.control with
  | .resume work => if state.stack.length = height then some work else none
  | .run _ => none

/-- A run leads from one state to the other, and these are the works that it resumes where `height`
things wait, in order. -/
inductive Bounces (host : Host) (height : Nat) : State → List Suspension → State → Prop where
  | refl (state : State) : Bounces host height state [] state
  | head {state next last : State} {works : List Suspension} :
      step host state = .next next → Bounces host height next works last →
        Bounces host height state ((state.resumes? height).toList ++ works) last

namespace Bounces

variable {height : Nat} {state state' state'' : State} {works others : List Suspension}

theorem append (h : Bounces host height state works state')
    (h' : Bounces host height state' others state'') :
    Bounces host height state (works ++ others) state'' := by
  induction h with
  | refl => exact h'
  | head hstep _ ih =>
      rw [List.append_assoc]
      exact .head hstep (ih h')

theorem path (h : Bounces host height state works state') : Path host anyState state state' := by
  induction h with
  | refl => exact .refl
  | head hstep _ ih => exact .head ⟨trivial, hstep⟩ ih

/-- A step that resumes nothing there. -/
theorem cons_none (hstep : step host state = .next state') (hnone : state.resumes? height = none)
    (h : Bounces host height state' works state'') : Bounces host height state works state'' := by
  have hhead := head hstep h
  rwa [hnone] at hhead

theorem cons_some {work : Suspension} (hstep : step host state = .next state')
    (hsome : state.resumes? height = some work) (h : Bounces host height state' works state'') :
    Bounces host height state (work :: works) state'' := by
  have hhead := head hstep h
  rwa [hsome] at hhead

end Bounces

/-! ## Runs above what waits -/

/-- Only a trampoline resumes suspended work. -/
theorem run_or_waits_of_step {state next : State} (h : step host state = .next next) :
    (∃ script, next.control = .run script) ∨ next.stack ≠ [] := by
  rcases state with ⟨control, stack, evaluation, store⟩
  rcases control with ⟨result | ⟨request, next⟩ | ⟨form, scope, next⟩⟩ |
    ⟨⟨form, scope⟩ | ⟨func, head, operands, scope⟩ | cell | ⟨label, result⟩⟩
  case run.done =>
    rcases stack with _ | ⟨next | site | ⟨cell, outer⟩, stack⟩
    · cases h
    · cases h
      exact .inl ⟨_, rfl⟩
    · simp only [step, yield] at h
      split at h
      · cases h
        exact .inr (List.cons_ne_nil _ _)
      all_goals
        cases h
        exact .inl ⟨_, rfl⟩
    · cases h
      exact .inl ⟨_, rfl⟩
  case resume.binding =>
    simp only [step, demand] at h
    split at h
    all_goals
      cases h
      try exact .inl ⟨_, rfl⟩
  all_goals
    cases h
    exact .inl ⟨_, rfl⟩

/-- A run that is not begun by resuming anything resumes nothing where its outcome is waited for. -/
theorem Halts.bounces {steps : Nat} {state : State}
    (h : Halts host anyState steps state result later)
    (hquiet : (∃ script, state.control = .run script) ∨ state.stack ≠ []) (rest : List Pending) :
    Bounces host rest.length (state.onto rest) []
      ⟨.run (.done result), rest, state.bottom, later⟩ := by
  induction h with
  | @halt state _ _ _ hstep =>
      obtain ⟨hcontrol, hstack, rfl⟩ := halt_of_step hstep
      rcases state with ⟨control, stack, me, store⟩
      cases hcontrol
      cases hstack
      exact .refl _
  | @next _ state next _ _ _ hstep _ ih =>
      have hrest := ih (run_or_waits_of_step hstep)
      rw [bottom_of_step hstep] at hrest
      refine .cons_none (step_onto hstep rest) ?_ hrest
      rcases state with ⟨control, stack, me, store⟩
      cases control with
      | run script => rfl
      | resume work =>
          -- Something waits above `rest`, so this is not the height that counts.
          have hne : stack ≠ [] := by simpa using hquiet
          have hlength := List.length_pos_iff.mpr hne
          have hheight : (stack ++ rest).length ≠ rest.length := by
            rw [List.length_append]
            omega
          exact if_neg hheight

/-- A step of suspended work under a trampoline. -/
theorem Steps.bounces {work : Suspension} (h : Steps host me work store result later)
    (site : Option CallSite) (stack : List Pending) :
    Bounces host (stack.length + 1) ⟨.resume work, .trampoline site :: stack, me, store⟩ [work]
      ⟨.run (.done result), .trampoline site :: stack, me, later⟩ := by
  obtain ⟨steps, hhalts⟩ := finished_iff_halts.mp h
  cases hhalts with
  | halt _ hstep => cases (halt_of_step hstep).1
  | next _ hstep hrest =>
      have hbounces := hrest.bounces (run_or_waits_of_step hstep) (.trampoline site :: stack)
      rw [bottom_of_step hstep] at hbounces
      exact .cons_some (step_onto hstep (.trampoline site :: stack)) (if_pos rfl) hbounces

/-! ## Forcing a chain -/

/-- A result that is not suspended leaves a trampoline, and passes the call that it remembers. -/
theorem step_trampoline (hresult : ∀ work, result ≠ .ok (.suspended work)) (site : Option CallSite)
    (stack : List Pending) :
    step host ⟨.run (.done result), .trampoline site :: stack, me, store⟩ =
      .next ⟨.run (.done (passing result site)), stack, me, store⟩ := by
  cases result with
  | error failure => rfl
  | ok value =>
      cases value with
      | suspended work => exact absurd rfl (hresult work)
      | _ => rfl

/-- Under a trampoline, the works of a chain are resumed one after the other. -/
theorem Chain.bounces {first : Suspension} {others : List Suspension}
    (h : Chain host me (first :: others) store result later) (site : Option CallSite)
    (stack : List Pending) :
    Bounces host (stack.length + 1)
      ⟨.run (.done (.ok (.suspended first))), .trampoline site :: stack, me, store⟩ (first :: others)
      ⟨.run (.done (passing result ((latestSite (first :: others)).or site))), stack, me, later⟩ := by
  induction others generalizing first store site with
  | nil =>
      cases h with
      | last hstep hresult =>
          rw [latestSite_cons]
          refine .cons_none rfl rfl ((hstep.bounces (first.callSite?.or site) stack).append ?_)
          exact .cons_none (step_trampoline hresult _ stack) rfl (.refl _)
  | cons next others ih =>
      cases h with
      | link hstep hrest =>
          rw [latestSite_cons]
          exact .cons_none rfl rfl ((hstep.bounces (first.callSite?.or site) stack).append
            (ih hrest (first.callSite?.or site)))

/-! ## What is forced is a chain -/

/-- A run on top of a stack comes to an outcome above the stack first, and then goes on from it. -/
theorem Halts.split {steps : Nat} {state : State} {rest : List Pending}
    (h : Halts host anyState steps (state.onto rest) final later) :
    ∃ first more result middle, first + more = steps ∧
      Halts host anyState first state result middle ∧
        Halts host anyState more ⟨.run (.done result), rest, state.bottom, middle⟩ final later := by
  induction steps using Nat.strongRecOn generalizing state with
  | ind steps ih =>
      cases hstep : step host state with
      | next next =>
          obtain ⟨fewer, rfl, -, hrest⟩ := h.of_next (step_onto hstep rest)
          obtain ⟨first, more, result, middle, rfl, hfirst, hmore⟩ :=
            ih fewer (Nat.lt_succ_self _) hrest
          rw [bottom_of_step hstep] at hmore
          exact ⟨first + 1, more, result, middle, by omega, .next trivial hstep hfirst, hmore⟩
      | halt result middle =>
          have hhalt : Halts host anyState 0 state result middle := .halt trivial hstep
          obtain ⟨hcontrol, hstack, rfl⟩ := halt_of_step hstep
          rcases state with ⟨control, stack, me, store⟩
          cases hcontrol
          cases hstack
          exact ⟨0, steps, result, store, Nat.zero_add _, hhalt, h⟩
      | block cell blocked =>
          -- What waits for a worker there waits with the stack below it as well.
          have hblock := block_onto hstep rest
          cases h with
          | halt _ hhalt => cases hblock.symm.trans hhalt
          | next _ hnext _ => cases hblock.symm.trans hnext

/-- Forcing that ends goes through a chain. -/
theorem exists_chain_of_halts {steps : Nat} {work : Suspension} {site : Option CallSite}
    (h : Halts host anyState steps
      ⟨.run (.done (.ok (.suspended work))), [.trampoline site], me, store⟩ final later) :
    ∃ others result, Chain host me (work :: others) store result later ∧
      final = passing result ((latestSite (work :: others)).or site) := by
  induction steps using Nat.strongRecOn generalizing work site store with
  | ind steps ih =>
      obtain ⟨fewer, rfl, -, hwork⟩ := h.of_next rfl
      have honto : Halts host anyState fewer
          (State.onto ⟨.resume work, [], me, store⟩ [.trampoline (work.callSite?.or site)]) final
            later := hwork
      obtain ⟨first, more, result, middle, rfl, hfirst, hmore⟩ := honto.split
      have hsteps : Steps host me work store result middle := finished_iff_halts.mpr ⟨first, hfirst⟩
      -- The trampoline remembers the work's call now, or still the one before.
      by_cases hresult : ∃ next, result = .ok (.suspended next)
      · obtain ⟨next, rfl⟩ := hresult
        obtain ⟨others, result, hrest, hfinal⟩ := ih more (by omega) hmore
        rw [← latestSite_cons] at hfinal
        exact ⟨next :: others, result, .link hsteps hrest, hfinal⟩
      · have hlast : ∀ next, result ≠ .ok (.suspended next) := fun next heq => hresult ⟨next, heq⟩
        obtain ⟨_, -, -, hdone⟩ := hmore.of_next (step_trampoline hlast _ [])
        cases hdone with
        | next _ hnext _ => cases hnext
        | halt _ hhalt =>
            cases hhalt
            refine ⟨[], result, .last hsteps hlast, ?_⟩
            rw [latestSite_cons]
            rfl

/-! ## Forcing and evaluating -/

/-- Forced by `me` on top of `stack`, suspended work comes to `final` and leaves `later`.  On the way,
these works are resumed under the trampoline that forces it, and no other ones. -/
def Forced (host : Host) (me : EvaluationId) (stack : List Pending) (work : Suspension)
    (store : Store) (works : List Suspension) (final : Result) (later : Store) : Prop :=
  Bounces host (stack.length + 1)
    ⟨.run (.done (.ok (.suspended work))), .trampoline none :: stack, me, store⟩ works
    ⟨.run (.done final), stack, me, later⟩

theorem Chain.forced {first : Suspension} {others : List Suspension}
    (h : Chain host me (first :: others) store result later) (stack : List Pending) :
    Forced host me stack first store (first :: others)
      (passing result (latestSite (first :: others))) later := by
  have hbounces := h.bounces none stack
  rwa [Option.or_none] at hbounces

/-- What forcing ends with is what its chain ends with, behind the last traced call in it. -/
theorem finished_force_iff {work : Suspension} :
    (∃ fuel, force host fuel work store = .finished final later) ↔
      ∃ others result, Chain host mainEvaluation (work :: others) store result later ∧
        final = passing result (latestSite (work :: others)) := by
  constructor
  · intro h
    obtain ⟨steps, hhalts⟩ := finished_iff_halts.mp h
    obtain ⟨others, result, hchain, hfinal⟩ := exists_chain_of_halts hhalts
    rw [Option.or_none] at hfinal
    exact ⟨others, result, hchain, hfinal⟩
  · rintro ⟨others, result, hchain, rfl⟩
    have hpath := Bounces.path (hchain.forced [])
    exact finished_iff_halts.mpr (Halts.of_path hpath (.halt trivial rfl))

/-- A script under a trampoline comes to its own outcome, which is forced if it is suspended. -/
theorem finished_script_iff {script : Script Value} :
    (∃ fuel, run host fuel ⟨.run script, [.trampoline none], mainEvaluation, store⟩ =
        .finished final later) ↔
      ∃ result middle, (∃ fuel, perform host fuel script store = .finished result middle) ∧
        ((∃ work, result = .ok (.suspended work) ∧
            ∃ fuel, force host fuel work middle = .finished final later) ∨
          (∀ work, result ≠ .ok (.suspended work)) ∧ final = result ∧ later = middle) := by
  have hcases : ∀ {result : Result} {middle : Store},
      (∃ fuel, run host fuel ⟨.run (.done result), [.trampoline none], mainEvaluation, middle⟩ =
          .finished final later) ↔
        (∃ work, result = .ok (.suspended work) ∧
            ∃ fuel, force host fuel work middle = .finished final later) ∨
          (∀ work, result ≠ .ok (.suspended work)) ∧ final = result ∧ later = middle := by
    intro result middle
    by_cases hresult : ∃ work, result = .ok (.suspended work)
    · obtain ⟨work, rfl⟩ := hresult
      simp [force, State.ofSuspension]
    · have hlast : ∀ work, result ≠ .ok (.suspended work) := fun work heq => hresult ⟨work, heq⟩
      rw [finished_done_iff hlast]
      simp [hlast]
  constructor
  · intro h
    obtain ⟨steps, hhalts⟩ := finished_iff_halts.mp h
    have honto : Halts host anyState steps
        ((State.ofScript script store).onto [.trampoline none]) final later := hhalts
    obtain ⟨first, more, result, middle, -, hfirst, hmore⟩ := honto.split
    exact ⟨result, middle, finished_iff_halts.mpr ⟨first, hfirst⟩,
      hcases.mp (finished_iff_halts.mpr ⟨more, hmore⟩)⟩
  · rintro ⟨result, middle, hresult, hrest⟩
    obtain ⟨steps, hhalts⟩ := finished_iff_halts.mp hresult
    have hpath := (hhalts.bounces (.inl ⟨script, rfl⟩) [.trampoline none]).path
    exact (Path.finished_iff hpath).mpr (hcases.mpr hrest)

/-- Forcing a chain of suspended works calls each of their steps once, in order.

A value at the end of the chain is what forcing comes to.  A failure keeps its cause, its message and
its trace, and the last traced call in the chain is added behind that, if there is one.  Work that
steps alike whenever it is called comes to the same when it is forced again, by way of the same steps.
Whatever forcing ends with comes of a chain.

Forcing a form that was left to the caller ends as evaluating it does, in the same store; and a form is
evaluated by one step, and by forcing what that leaves suspended. -/
theorem force_chain (host : Host) :
    (∀ me stack first others store result later,
      Chain host me (first :: others) store result later →
        Forced host me stack first store (first :: others)
          (passing result (latestSite (first :: others))) later) ∧
    (∀ value site, passing (.ok value) site = .ok value) ∧
    (∀ failure works, ∃ raised, passing (.error failure) (latestSite works) = .error raised ∧
      raised.cause = failure.cause ∧ raised.message = failure.message ∧
        raised.trace.toList = failure.trace.toList ++
          (works.filterMap Suspension.callSite?).getLast?.toList) ∧
    (∀ me stack first others result,
      (∀ store, ∃ later, Chain host me (first :: others) store result later) →
        ∀ store, ∃ final later again,
          final = passing result (latestSite (first :: others)) ∧
            Forced host me stack first store (first :: others) final later ∧
              Forced host me stack first later (first :: others) final again) ∧
    (∀ work store final later, (∃ fuel, force host fuel work store = .finished final later) ↔
      ∃ others result, Chain host mainEvaluation (work :: others) store result later ∧
        final = passing result (latestSite (work :: others))) ∧
    (∀ form scope store (outcome : Outcome), outcome.Ends →
      ((∃ fuel, force host fuel (.form form scope) store = outcome) ↔
        ∃ fuel, evaluate host fuel form scope store = outcome)) ∧
    ∀ form scope store final later,
      (∃ fuel, evaluate host fuel form scope store = .finished final later) ↔
        ∃ result middle,
          (∃ fuel, perform host fuel (Form.step form scope) store = .finished result middle) ∧
            ((∃ work, result = .ok (.suspended work) ∧
                ∃ fuel, force host fuel work middle = .finished final later) ∨
              (∀ work, result ≠ .ok (.suspended work)) ∧ final = result ∧ later = middle) := by
  refine ⟨?_, ?_, ?_, ?_, ?_, ?_, ?_⟩
  · intro me stack first others store result later hchain
    exact hchain.forced stack
  · intro value site
    rfl
  · intro failure works
    refine ⟨failure.throughAny (latestSite works), rfl, ?_⟩
    obtain ⟨hcause, htrace⟩ := Direct.eq_throughAny_iff.mp rfl
    exact ⟨hcause, congrArg Cause.message hcause, htrace⟩
  · intro me stack first others result hchain store
    obtain ⟨later, hfirst⟩ := hchain store
    obtain ⟨again, hsecond⟩ := hchain later
    exact ⟨_, later, again, rfl, hfirst.forced stack, hsecond.forced stack⟩
  · intro work store final later
    exact finished_force_iff
  · intro form scope store outcome hends
    -- Forcing begins two steps before evaluation.
    have hpath : Path host anyState (.ofSuspension (.form form scope) store)
        (.ofForm form scope store) := .head ⟨trivial, rfl⟩ (.single ⟨trivial, rfl⟩)
    exact hpath.ends_iff hends
  · intro form scope store final later
    exact finished_script_iff

/-- Two traced works and two others, and a failure that has passed a call already. -/
theorem force_chain_mixed :
    let fourth : Suspension := .given none (.error ⟨.divisionByZero, #[⟨"h", none⟩]⟩)
    let third : Suspension := .given (some ⟨"g", none⟩) (.ok (.suspended fourth))
    let second : Suspension := .given none (.ok (.suspended third))
    let first : Suspension := .given (some ⟨"f", some ⟨1, 1, 0⟩⟩) (.ok (.suspended second))
    let failure : Failure := ⟨.divisionByZero, #[⟨"h", none⟩, ⟨"g", none⟩]⟩
    let throwing : Value := .list [.symbol (.unplaced "throw"), .text "no"]
    Forced .empty mainEvaluation [] first .base [first, second, third, fourth] (.error failure) .base ∧
      (∃ final later again, final = .error failure ∧
        Forced .empty mainEvaluation [] first .base [first, second, third, fourth] final later ∧
          Forced .empty mainEvaluation [] first later [first, second, third, fourth] final again) ∧
      ∃ fuel, force .empty fuel (.form throwing .base) .base =
        .finished (.error ⟨.thrown "no", #[]⟩) .base := by
  intro fourth third second first failure throwing
  have hchain : ∀ store, Chain .empty mainEvaluation [first, second, third, fourth] store
      (.error ⟨.divisionByZero, #[⟨"h", none⟩]⟩) store := by
    intro store
    refine .link ⟨2, rfl⟩ (.link ⟨2, rfl⟩ (.link ⟨2, rfl⟩ (.last ⟨2, rfl⟩ ?_)))
    intro next heq
    cases heq
  obtain ⟨hforced, -, -, hagain, -, hform, -⟩ := force_chain .empty
  have hends : (Outcome.finished (.error ⟨.thrown "no", #[]⟩) .base).Ends := trivial
  exact ⟨hforced _ [] _ _ _ _ _ (hchain .base),
    hagain _ [] _ _ _ (fun store => ⟨store, hchain store⟩) .base,
    (hform throwing .base .base _ hends).mpr ⟨40, rfl⟩⟩

end Machine
end LazyLisp
