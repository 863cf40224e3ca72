import LazyLisp.Proofs.Async.Invariant

/-!
# Turns — the steps that are taken

Whoever drives the threads asks for the next step of one of them.  Under the invariant of executions
there is exactly one if the thread can go on, and none otherwise.  So the systems that come out, in
whichever order the threads take their turns, are those that executions lead to.

Main results: `Async.System.turn_iff` and `Async.System.turn_eq_same_iff`, that what is computed is the
turn of a thread, if there is one; `Async.Execution.turn`, that an execution goes on by such turns;
`Async.System.tabulate_eq`, that the table holds all threads.
-/

namespace LazyLisp
namespace Async

open Machine

variable {host : Host} {start system system' : System} {log entries : Log}
  {thread worker evaluation : EvaluationId} {state state' : State} {cell : CellId} {store : Store}
  {control : Control} {work : Suspension}

/-! ## Handing over -/

/-- The evaluation to wait for is the one for which the demanded work was started. -/
theorem deliverer?_eq_some_iff :
    deliverer? evaluation store control = some (cell, worker) ↔
      control = .resume (.binding cell) ∧
        ∃ work store', store.claim evaluation cell = (.run work (some worker), store') := by
  constructor
  · intro h
    unfold deliverer? at h
    split at h
    · split at h
      · next demanded name started work hcell =>
          rw [Option.ite_none_left_eq_some] at h
          obtain ⟨hne, hsome⟩ := h
          cases hsome
          exact ⟨rfl, work, _, Store.claim_of_started hcell hne⟩
      · cases h
    · cases h
  · rintro ⟨rfl, work, store', hclaim⟩
    obtain ⟨name, -, ⟨-, hnone⟩ | ⟨started, hne, hsome, hcell⟩⟩ := Store.claim_run hclaim
    · cases hnone
    · cases hsome
      simp only [deliverer?, hcell, if_neg hne]

/-- The step takes over from the evaluation that would have to be waited for, and from no other. -/
theorem takesOver_iff_deliverer? :
    TakesOver state worker ↔
      ∃ cell, deliverer? state.evaluation state.store state.control = some (cell, worker) := by
  constructor
  · rintro ⟨cell, work, store', hcontrol, hclaim⟩
    exact ⟨cell, deliverer?_eq_some_iff.mpr ⟨hcontrol, work, store', hclaim⟩⟩
  · rintro ⟨cell, h⟩
    obtain ⟨hcontrol, work, store', hclaim⟩ := deliverer?_eq_some_iff.mp h
    exact ⟨cell, work, store', hcontrol, hclaim⟩

theorem hired?_eq_some {workers : Nat} (h : hired? workers store = some work) :
    workers < store.workers ∧
      ∃ (cell : CellId) (name : String),
        store.cells[cell]? = some ⟨name, .started store.workers work⟩ := by
  rw [hired?, Option.ite_none_right_eq_some] at h
  obtain ⟨hlt, hfind⟩ := h
  obtain ⟨⟨name, cellState⟩, hmem, hsome⟩ := Array.exists_of_findSome?_eq_some hfind
  refine ⟨hlt, ?_⟩
  dsimp only at hsome
  split at hsome
  · next started work' =>
      rw [Option.ite_none_right_eq_some] at hsome
      obtain ⟨rfl, hwork⟩ := hsome
      cases hwork
      obtain ⟨cell, hcell⟩ := Array.getElem?_of_mem hmem
      exact ⟨cell, name, hcell⟩
  · cases hsome

theorem exists_hired? {workers : Nat} {name : String} (hlt : workers < store.workers)
    (hcell : store.cells[cell]? = some ⟨name, .started store.workers work⟩) :
    ∃ work', hired? workers store = some work' := by
  rw [← Option.isSome_iff_exists, hired?, if_pos hlt, Array.findSome?_isSome_iff]
  refine ⟨_, Array.mem_of_getElem? hcell, ?_⟩
  dsimp only
  rw [if_pos rfl, Option.isSome_some]

/-- A step that hires somebody starts the work of one cell only. -/
theorem hired?_of_step (hhired : Hired state.store) (hnext : Machine.step host state = .next state')
    (hlt : state.store.workers < state'.store.workers) {name : String}
    (hcell : state'.store.cells[cell]? = some ⟨name, .started state'.store.workers work⟩) :
    hired? state.store.workers state'.store = some work := by
  obtain ⟨work', hsome⟩ := exists_hired? hlt hcell
  obtain ⟨_, cell', name', hcell'⟩ := hired?_eq_some hsome
  obtain ⟨request, next, _, hstore⟩ := request_of_workers_lt (effect_of_step hnext) hlt
  rw [hstore] at hlt hcell hcell'
  obtain ⟨hpending, scope, bound, frame, hrequest, howner⟩ := hhired.pending_of_answer hlt hcell
  obtain ⟨hpending', scope', bound', frame', hrequest', howner'⟩ :=
    hhired.pending_of_answer hlt hcell'
  -- Both are the cell that is bound to the requested name.
  rw [hrequest] at hrequest'
  cases hrequest'
  rw [howner] at howner'
  cases howner'
  rw [hpending] at hpending'
  cases hpending'
  exact hsome

/-- Nobody is hired by a step if there is no work for a new worker. -/
theorem not_hires_iff : ¬ Hires state state' ↔ hired? state.store.workers state'.store = none := by
  constructor
  · intro h
    rw [Option.eq_none_iff_forall_ne_some]
    intro work hsome
    obtain ⟨hlt, cell, name, hcell⟩ := hired?_eq_some hsome
    exact h ⟨hlt, cell, name, work, hcell⟩
  · rintro hnone ⟨hlt, cell, name, work, hcell⟩
    obtain ⟨work', hsome⟩ := exists_hired? hlt hcell
    cases hnone.symm.trans hsome

/-! ## Turns -/

section Receiving

variable {stack : List Pending} {result : Result}

theorem turn_of_deliver (hreceiving : system.threads thread = .receiving cell worker stack evaluation)
    (hfinished : system.threads worker = .finished result) :
    system.turn host thread =
      (true, system.put thread (.working (.run (.done result)) stack evaluation)
        (system.store.settle cell result)) := by
  simp only [System.turn, hreceiving, hfinished]

/-- Before the worker is finished, there is nothing to receive. -/
theorem turn_of_receiving
    (hreceiving : system.threads thread = .receiving cell worker stack evaluation)
    (hunfinished : ∀ result, system.threads worker ≠ .finished result) :
    system.turn host thread = (false, system) := by
  simp only [System.turn, hreceiving]

end Receiving

/-- A thread whose next step takes over from nobody with a thread leaves the step to the machine. -/
theorem turn_eq_think (hat : system.At thread state)
    (hover : ∀ worker, TakesOver state worker → system.threads worker = .idle) :
    system.turn host thread = System.think host thread system.threads state := by
  obtain ⟨control, stack, evaluation, _⟩ := state
  obtain ⟨hthread, rfl⟩ := hat
  simp only [System.turn, hthread]
  cases hdeliverer : deliverer? evaluation system.store control with
  | none => rfl
  | some pair =>
      obtain ⟨cell, worker⟩ := pair
      have hidle := hover worker (takesOver_iff_deliverer?.mpr ⟨cell, hdeliverer⟩)
      exact if_pos (Activity.isIdle_iff.mpr hidle)

/-- A thread that demands what a worker with a thread was hired for receives from the worker. -/
theorem turn_of_receive (hat : system.At thread state)
    (hcontrol : state.control = .resume (.binding cell))
    (hclaim : state.store.claim state.evaluation cell = (.run work (some worker), store))
    (hactive : system.threads worker ≠ .idle) :
    system.turn host thread =
      (true, system.put thread (.receiving cell worker state.stack state.evaluation) store) := by
  have hdeliverer := deliverer?_eq_some_iff.mpr ⟨hcontrol, work, store, hclaim⟩
  obtain ⟨control, stack, evaluation, _⟩ := state
  obtain ⟨hthread, rfl⟩ := hat
  simp only at hdeliverer hclaim
  simp only [System.turn, hthread, hdeliverer, hclaim]
  exact if_neg (mt Activity.isIdle_iff.mp hactive)

/-- A step that is not a demand takes over from nobody. -/
theorem not_takesOver {script : Script Value} (hcontrol : state.control = .run script) :
    ¬ TakesOver state worker := by
  rintro ⟨cell, _, _, hdemand, _⟩
  cases hcontrol.symm.trans hdemand

/-- What the machine does on a thread is a turn, unless it takes over from somebody with a thread.  If
it blocks, the system stays as it is. -/
theorem turn_of_think (hat : system.At thread state)
    (hover : ∀ worker, TakesOver state worker → system.threads worker = .idle) :
    (∃ entries system', System.think host thread system.threads state = (true, system') ∧
      Turn host thread system entries system') ∨
      System.think host thread system.threads state = (false, system) := by
  rw [System.think]
  cases hstep : Machine.step host state with
  | next state' =>
      rw [System.after]
      cases hhired : hired? state.store.workers state'.store with
      | some work =>
          obtain ⟨hlt, cell, name, hcell⟩ := hired?_eq_some hhired
          exact .inl ⟨_, _, rfl, .spawn hat hstep hlt hcell⟩
      | none => exact .inl ⟨_, _, rfl, .think hat hstep hover (not_hires_iff.mpr hhired)⟩
  | halt result store => exact .inl ⟨_, _, rfl, .halt hat hstep⟩
  | block cell store =>
      obtain ⟨_, hclaim⟩ := block_of_step hstep
      have hstore : store = system.store :=
        (Store.claim_store hclaim fun _ _ heq => by cases heq).trans hat.2.symm
      rw [hstore]
      exact .inr rfl

/-- What is computed is a turn of the thread, or else the system stays as it is. -/
theorem turn_or_same (host : Host) (thread : EvaluationId) (system : System) :
    (∃ entries system', system.turn host thread = (true, system') ∧
      Turn host thread system entries system') ∨
      system.turn host thread = (false, system) := by
  cases hthread : system.threads thread with
  | idle =>
      rw [System.turn, hthread]
      exact .inr rfl
  | finished result =>
      rw [System.turn, hthread]
      exact .inr rfl
  | receiving cell worker stack evaluation =>
      by_cases hfinished : ∃ result, system.threads worker = .finished result
      · obtain ⟨result, hworker⟩ := hfinished
        exact .inl ⟨_, _, turn_of_deliver hthread hworker, .deliver hthread hworker⟩
      · exact .inr (turn_of_receiving hthread fun result heq => hfinished ⟨result, heq⟩)
  | working control stack evaluation =>
      have hat : system.At thread ⟨control, stack, evaluation, system.store⟩ := ⟨hthread, rfl⟩
      by_cases hover : ∀ worker, TakesOver ⟨control, stack, evaluation, system.store⟩ worker →
          system.threads worker = .idle
      · rw [turn_eq_think hat hover]
        exact turn_of_think hat hover
      · obtain ⟨worker, hnot⟩ := Classical.not_forall.mp hover
        obtain ⟨⟨cell, work, store, hcontrol, hclaim⟩, hactive⟩ := Classical.not_imp.mp hnot
        exact .inl ⟨_, _, turn_of_receive hat hcontrol hclaim hactive,
          .receive hat hcontrol hclaim hactive⟩

theorem exists_turn_of_turn (h : system.turn host thread = (true, system')) :
    ∃ entries, Turn host thread system entries system' := by
  obtain ⟨entries, system'', heq, hturn⟩ | hsame := turn_or_same host thread system
  · cases heq.symm.trans h
    exact ⟨entries, hturn⟩
  · cases hsame.symm.trans h

/-- Every turn of the thread is the one that is computed. -/
theorem turn_of_turn (hhired : Hired system.store) (h : Turn host thread system entries system') :
    system.turn host thread = (true, system') := by
  cases h with
  | @think state state' hat hnext hover hhires =>
      rw [turn_eq_think hat hover, System.think, hnext, System.after, not_hires_iff.mp hhires]
      rfl
  | @spawn state state' cell name work hat hnext hlt hcell =>
      obtain ⟨request, next, hask, _⟩ := request_of_workers_lt (effect_of_step hnext) hlt
      have hover : ∀ worker, TakesOver state worker → system.threads worker = .idle :=
        fun _ htakes => (not_takesOver hask htakes).elim
      have hsome := hired?_of_step (hat.2 ▸ hhired) hnext hlt hcell
      rw [turn_eq_think hat hover, System.think, hnext, System.after, hsome]
      rfl
  | receive hat hcontrol hclaim hactive => exact turn_of_receive hat hcontrol hclaim hactive
  | deliver hreceiving hfinished => exact turn_of_deliver hreceiving hfinished
  | @halt state result store hat hhalt =>
      have hover : ∀ worker, TakesOver state worker → system.threads worker = .idle :=
        fun _ htakes => (not_takesOver (halt_of_step hhalt).1 htakes).elim
      rw [turn_eq_think hat hover, System.think, hhalt]
      rfl

namespace System

/-- The turns of a thread are the ones that are computed. -/
theorem turn_iff (h : Sound system log) :
    system.turn host thread = (true, system') ↔
      ∃ entries, Turn host thread system entries system' := by
  constructor
  · exact exists_turn_of_turn
  · rintro ⟨entries, hturn⟩
    exact turn_of_turn h.hired hturn

/-- A thread that cannot go on leaves the system as it is. -/
theorem turn_eq_same_iff (h : Sound system log) :
    system.turn host thread = (false, system) ↔
      ∀ entries system', ¬ Turn host thread system entries system' := by
  constructor
  · intro hsame entries system' hturn
    rw [turn_of_turn h.hired hturn] at hsame
    cases hsame
  · intro hnone
    obtain ⟨entries, system', _, hturn⟩ | hsame := turn_or_same host thread system
    · exact (hnone entries system' hturn).elim
    · exact hsame

end System

/-- An execution goes on by any turn. -/
theorem Execution.turn (h : Execution host start log system)
    (hturn : system.turn host thread = (true, system')) :
    ∃ entries, Execution host start (log ++ entries) system' := by
  obtain ⟨entries, hturn⟩ := exists_turn_of_turn hturn
  exact ⟨entries, h.step (.turn hturn)⟩

/-- Only workers that there are have threads, so the table leaves none out. -/
theorem System.tabulate_eq (h : Sound system log) : system.tabulate = system := by
  obtain ⟨store, threads⟩ := system
  rw [System.tabulate]
  congr
  funext thread
  by_cases hle : thread ≤ store.workers
  · rw [Array.getD_eq_getD_getElem?, Array.getElem?_ofFn, dif_pos (Nat.lt_succ_of_le hle)]
    rfl
  · have hidle : threads thread = .idle := by
      by_contra hactive
      exact hle (h.bounded thread hactive)
    rw [Array.getD_eq_getD_getElem?, Array.getElem?_ofFn, dif_neg (mt Nat.le_of_lt_succ hle), hidle]
    rfl

end Async
end LazyLisp
