import LazyLisp.Proofs.Async.Waiting

/-!
# Pursuit — what a thread comes to

Threads take turns, so what one of them does is scattered over an execution.  It is held together by
the stack: a thread that has begun something is at it for as long as it has not brought an outcome back
to the stack that it began on.  This file defines:

* `Async.Activity.Serves` and `Async.Activity.Brings`, a thread that is at something, and one that has
  an outcome of it;
* `Async.Moves`, what a step of the system means for one thread;
* `Async.Pursuit` and `Async.ComesTo`, the steps of a system during which a thread is at something, and
  the outcome that it comes to.

Main results: `Async.moves_of_step`, that every step means one of these things for every thread, and
`Async.pursuit_of_step`, that a thread goes on with what it has begun until it has an outcome.
-/

namespace LazyLisp

/-! ## The machine above a stack -/

namespace Machine

variable {host : Host} {state state' : State} {rest : List Pending}

theorem suffix_of_yield {result : Result} {stack : List Pending} {evaluation : EvaluationId}
    {store : Store} (h : yield result stack evaluation store = .next state')
    (hsuffix : rest <:+ stack) (hne : stack ≠ rest) : rest <:+ state'.stack := by
  rcases stack with _ | ⟨pending, stack⟩
  · exact (hne (List.suffix_nil.mp hsuffix).symm).elim
  have hbelow : rest <:+ stack := (List.suffix_cons_iff.mp hsuffix).resolve_left (Ne.symm hne)
  cases pending with
  | await next =>
      cases h
      exact hbelow
  | settle cell outer =>
      cases h
      exact hbelow
  | trampoline site =>
      simp only [yield] at h
      split at h
      all_goals cases h
      · exact hbelow.trans (List.suffix_cons _ _)
      · exact hbelow
      · exact hbelow

/-- The machine does not touch what waits on the stack before it has an outcome for it. -/
theorem suffix_of_step (h : step host state = .next state') (hsuffix : rest <:+ state.stack)
    (hbusy : state.stack = rest → ∀ result, state.control ≠ .run (.done result)) :
    rest <:+ state'.stack := by
  rcases state with ⟨control, stack, evaluation, store⟩
  rcases control with ⟨result | ⟨request, next⟩ | ⟨form, scope, next⟩⟩ |
    ⟨⟨form, scope⟩ | ⟨func, head, operands, scope⟩ | cell | ⟨label, result⟩⟩
  · exact suffix_of_yield h hsuffix fun heq => hbusy heq result rfl
  · cases h
    exact hsuffix
  · cases h
    exact hsuffix.trans ((List.suffix_cons _ _).trans (List.suffix_cons _ _))
  · cases h
    exact hsuffix
  · cases h
    exact hsuffix
  · -- The work of a demanded cell goes on top.
    simp only [step, demand] at h
    split at h
    all_goals cases h
    · exact hsuffix
    · exact hsuffix.trans ((List.suffix_cons _ _).trans (List.suffix_cons _ _))
    · exact hsuffix
  · cases h
    exact hsuffix

end Machine

namespace Async

open Machine

variable {host : Host} {first begun system system' last : System} {log entries : Log}
  {thread : EvaluationId} {rest : List Pending} {state state' : State} {result : Result}
  {activity : Activity}

/-! ## One thread -/

/-- The thread is at something that `rest` waits for, and has no outcome of it yet. -/
inductive Activity.Serves (rest : List Pending) : Activity → Prop where
  | working {control : Control} {stack : List Pending} {evaluation : EvaluationId} :
      rest <:+ stack → (stack = rest → ∀ result, control ≠ .run (.done result)) →
        Serves rest (.working control stack evaluation)
  | receiving {cell : CellId} {worker : EvaluationId} {stack : List Pending}
      {evaluation : EvaluationId} :
      rest <:+ stack → Serves rest (.receiving cell worker stack evaluation)

/-- The thread has an outcome, and `rest` waits for it. -/
def Activity.Brings (rest : List Pending) (result : Result) (activity : Activity) : Prop :=
  ∃ evaluation, activity = .working (.run (.done result)) rest evaluation

/-- Whoever is not at something any more has an outcome of it. -/
theorem Activity.serves_or_brings {control : Control} {stack : List Pending}
    {evaluation : EvaluationId} (h : rest <:+ stack) :
    Serves rest (.working control stack evaluation) ∨
      ∃ result, Brings rest result (.working control stack evaluation) := by
  by_cases hdone : stack = rest ∧ ∃ result, control = .run (.done result)
  · obtain ⟨rfl, result, rfl⟩ := hdone
    exact .inr ⟨result, evaluation, rfl⟩
  · exact .inl (.working h fun heq result hcontrol => hdone ⟨heq, result, hcontrol⟩)

/-- An evaluation can be begun on the thread: the main thread is at nothing, or there is no such worker
yet. -/
def System.Free (system : System) (thread : EvaluationId) : Prop :=
  thread = mainEvaluation ∧ (system.threads thread = .idle ∨
      ∃ result, system.threads thread = .finished result) ∨
    system.store.workers < thread ∧ system.threads thread = .idle

theorem System.Free.not_working {control : Control} {stack : List Pending}
    {evaluation : EvaluationId} (h : system.Free thread) :
    system.threads thread ≠ .working control stack evaluation := by
  intro hworking
  rcases h with ⟨-, hidle | ⟨_, hfinished⟩⟩ | ⟨-, hidle⟩
  · cases hworking.symm.trans hidle
  · cases hworking.symm.trans hfinished
  · cases hworking.symm.trans hidle

theorem System.Free.not_receiving {cell : CellId} {worker : EvaluationId} {stack : List Pending}
    {evaluation : EvaluationId} (h : system.Free thread) :
    system.threads thread ≠ .receiving cell worker stack evaluation := by
  intro hreceiving
  rcases h with ⟨-, hidle | ⟨_, hfinished⟩⟩ | ⟨-, hidle⟩
  · cases hreceiving.symm.trans hidle
  · cases hreceiving.symm.trans hfinished
  · cases hreceiving.symm.trans hidle

/-- A cell whose outcome is awaited from a worker is running. -/
theorem Sound.runs_of_receiving {cell : CellId} {worker : EvaluationId} {stack : List Pending}
    {evaluation : EvaluationId} (hsound : Sound system log)
    (h : system.threads thread = .receiving cell worker stack evaluation) :
    system.store.Runs cell := by
  refine hsound.apart.runs thread cell ?_
  rw [h]
  exact List.mem_cons_self

/-- A cell that waits for an outcome on a stack is running. -/
theorem Sound.runs_of_settling {control : Control} {cell : CellId} {outer evaluation : EvaluationId}
    {stack : List Pending} (hsound : Sound system log)
    (h : system.threads thread = .working control (.settle cell outer :: stack) evaluation) :
    system.store.Runs cell := by
  refine hsound.apart.runs thread cell ?_
  rw [h]
  exact List.mem_cons_self

/-- What a step of the system means for one thread. -/
inductive Moves (host : Host) (thread : EvaluationId) (system system' : System) : Prop where
  | stays (same : system'.threads thread = system.threads thread)
  /-- An evaluation is begun. -/
  | begins (free : system.Free thread)
  | thinks {state state' : State} (hat : system.At thread state)
      (next : Machine.step host state = .next state')
      (activity : system'.threads thread = activityOf state')
      (store : system'.store = state'.store)
  /-- The outcome of a demanded cell is left to its worker. -/
  | asks {state : State} {cell : CellId} {work : Suspension} {worker : EvaluationId}
      (hat : system.At thread state) (control : state.control = .resume (.binding cell))
      (claim : system.store.claim state.evaluation cell = (.run work (some worker), system'.store))
      (active : system.threads worker ≠ .idle)
      (activity : system'.threads thread = .receiving cell worker state.stack state.evaluation)
  | receives {cell : CellId} {worker : EvaluationId} {stack : List Pending}
      {evaluation : EvaluationId} {result : Result}
      (receiving : system.threads thread = .receiving cell worker stack evaluation)
      (finished : system.threads worker = .finished result)
      (activity : system'.threads thread = .working (.run (.done result)) stack evaluation)
      (store : system'.store = system.store.settle cell result)
  | halts {state : State} {result : Result} (hat : system.At thread state)
      (control : state.control = .run (.done result)) (stack : state.stack = [])
      (activity : system'.threads thread = .finished result)
      (store : system'.store = system.store)

/-- Every step means one of these things for every thread. -/
theorem moves_of_step (hsound : Sound system log) (hstep : Step host system entries system')
    (thread : EvaluationId) : Moves host thread system system' := by
  -- Steps on some other thread leave this one as it is.
  have hother : ∀ {other : EvaluationId} (activity : Activity) (store : Store), thread ≠ other →
      Moves host thread system (system.put other activity store) :=
    fun activity store hne => .stays (system.threads_put_of_ne hne activity store)
  cases hstep with
  | @begin state hfree _ _ _ =>
      by_cases heq : thread = mainEvaluation
      · subst heq
        exact .begins (.inl ⟨rfl, hfree⟩)
      · exact hother _ _ heq
  | @turn _ _ other hturn =>
      cases hturn with
      | @think state state' hat hnext _ _ =>
          by_cases heq : thread = other
          · subst heq
            exact .thinks hat hnext (system.threads_put ..) rfl
          · exact hother _ _ heq
      | @spawn state state' cell name work hat hnext hlt hcell =>
          by_cases hworker : thread = state'.store.workers
          · -- A new worker is none of those that there are.
            have hnew : system.store.workers < thread := by
              rw [hworker, hat.2]
              exact hlt
            refine .begins (.inr ⟨hnew, ?_⟩)
            by_contra hactive
            exact Nat.not_lt_of_le (hsound.bounded thread hactive) hnew
          · by_cases heq : thread = other
            · subst heq
              refine .thinks hat hnext ?_ rfl
              rw [System.threads_put_of_ne _ hworker, system.threads_put]
            · refine .stays ?_
              rw [System.threads_put_of_ne _ hworker, system.threads_put_of_ne heq]
      | @receive state cell work worker store hat hcontrol hclaim hactive =>
          by_cases heq : thread = other
          · subst heq
            rw [← hat.2] at hclaim
            exact .asks hat hcontrol hclaim hactive (system.threads_put ..)
          · exact hother _ _ heq
      | @deliver cell worker stack evaluation result hreceiving hfinished =>
          by_cases heq : thread = other
          · subst heq
            exact .receives hreceiving hfinished (system.threads_put ..) rfl
          · exact hother _ _ heq
      | @halt state result store hat hhalt =>
          by_cases heq : thread = other
          · subst heq
            obtain ⟨hcontrol, hstack, hstore⟩ := halt_of_step hhalt
            exact .halts hat hcontrol hstack (system.threads_put ..) (hstore.trans hat.2.symm)
          · exact hother _ _ heq

/-- A thread goes on with what it is at until it has an outcome. -/
theorem serves_of_moves (h : Moves host thread system system')
    (hserves : (system.threads thread).Serves rest) :
    (system'.threads thread).Serves rest ∨ ∃ result, (system'.threads thread).Brings rest result := by
  cases h with
  | stays same =>
      rw [same]
      exact .inl hserves
  | begins free =>
      generalize hactivity : system.threads thread = activity at hserves
      cases hserves with
      | working _ _ => exact (free.not_working hactivity).elim
      | receiving _ => exact (free.not_receiving hactivity).elim
  | thinks hat next activity _ =>
      rw [hat.1] at hserves
      rw [activity]
      cases hserves with
      | working hsuffix hbusy => exact Activity.serves_or_brings (suffix_of_step next hsuffix hbusy)
  | asks hat control _ _ activity =>
      rw [hat.1] at hserves
      rw [activity]
      cases hserves with
      | working hsuffix _ => exact .inl (.receiving hsuffix)
  | receives receiving _ activity _ =>
      rw [receiving] at hserves
      rw [activity]
      cases hserves with
      | receiving hsuffix => exact Activity.serves_or_brings hsuffix
  | halts hat control stack _ _ =>
      -- With an empty stack and an outcome, the thread is at nothing.
      rw [hat.1] at hserves
      cases hserves with
      | working hsuffix hbusy =>
          rw [stack] at hsuffix
          have hrest := List.suffix_nil.mp hsuffix
          exact (hbusy (stack.trans hrest.symm) _ control).elim

/-- A thread with an outcome keeps it until it hands it over to what waits for it. -/
theorem brings_of_moves (h : Moves host thread system system')
    (hbrings : (system.threads thread).Brings rest result) :
    (system'.threads thread).Brings rest result ∨
      (∃ evaluation state', yield result rest evaluation system.store = .next state' ∧
        system'.threads thread = activityOf state' ∧ system'.store = state'.store) ∨
      rest = [] ∧ system'.threads thread = .finished result := by
  obtain ⟨evaluation, hactivity⟩ := hbrings
  cases h with
  | stays same => exact .inl ⟨evaluation, same.trans hactivity⟩
  | begins free => exact (free.not_working hactivity).elim
  | @thinks state state' hat next activity store =>
      obtain ⟨control, stack, evaluation', before⟩ := state
      obtain ⟨hthread, rfl⟩ := hat
      cases hactivity.symm.trans hthread
      exact .inr (.inl ⟨_, state', next, activity, store⟩)
  | @asks state _ _ _ hat control _ _ _ =>
      obtain ⟨_, stack, evaluation', before⟩ := state
      cases control
      cases hactivity.symm.trans hat.1
  | receives receiving _ _ _ => cases hactivity.symm.trans receiving
  | @halts state _ hat control stack activity _ =>
      obtain ⟨_, _, evaluation', before⟩ := state
      cases control
      cases stack
      cases hactivity.symm.trans hat.1
      exact .inr (.inr ⟨rfl, activity⟩)

/-! ## What a thread comes to -/

/-- From the first system on, the thread has been at something that `rest` waits for. -/
inductive Pursuit (host : Host) (thread : EvaluationId) (rest : List Pending) (first : System) :
    System → Prop where
  | begin : (first.threads thread).Serves rest → Pursuit host thread rest first first
  | step {system system' : System} {entries : Log} :
      Pursuit host thread rest first system → Step host system entries system' →
        (system'.threads thread).Serves rest → Pursuit host thread rest first system'

/-- From the first system on, the thread has been at something that `rest` waits for, and in the last
one it has the outcome. -/
def ComesTo (host : Host) (thread : EvaluationId) (rest : List Pending) (first : System)
    (result : Result) (last : System) : Prop :=
  ∃ system entries, Pursuit host thread rest first system ∧ Step host system entries last ∧
    (last.threads thread).Brings rest result

theorem Pursuit.serves (h : Pursuit host thread rest first system) :
    (system.threads thread).Serves rest := by
  cases h with
  | begin hserves => exact hserves
  | step _ _ hserves => exact hserves

/-- Whatever step the system takes, a thread goes on with what it is at, or has an outcome. -/
theorem pursuit_of_step (hsound : Sound system log) (h : Pursuit host thread rest first system)
    (hstep : Step host system entries system') :
    Pursuit host thread rest first system' ∨
      ∃ result, ComesTo host thread rest first result system' := by
  rcases serves_of_moves (moves_of_step hsound hstep thread) h.serves with
    hserves | ⟨result, hbrings⟩
  · exact .inl (h.step hstep hserves)
  · exact .inr ⟨result, system, entries, h, hstep, hbrings⟩

end Async
end LazyLisp
