import LazyLisp.Proofs.Store.Cells

/-!
# Lifecycle — the events in the life of a cell

A cell begins pending, may be started, is then run by whoever demands it first, and ends settled.
No operation of the store takes a cell back, skips a stage or touches a settled cell.  This file
defines:

* `Cell.Event`, the events in the life of a cell;
* `Store.Ages`, what becomes of a store in which every cell goes through one event at most;
* `Cell.EnteredBy`, the cells whose work an evaluation has begun, be it done by now or not;
* `Cell.ResolvedBy`, the cells that an evaluation cannot demand without demanding its own outcome.

Main results: requests, demands and outcomes all age the store (`Store.ages_answer`,
`Store.ages_claim`, `Store.ages_settle`), and `Cell.EnteredBy.event` says that begun work stays
begun by the same evaluation.
-/

namespace LazyLisp

/-! ## Events -/

namespace Cell

/-- One event in the life of a cell. -/
inductive Event : Cell → Cell → Prop where
  | started {name : String} {work : Suspension} (worker : EvaluationId) :
      Event ⟨name, .pending work⟩ ⟨name, .started worker work⟩
  | claimed {name : String} {work : Suspension} (me : EvaluationId) :
      Event ⟨name, .pending work⟩ ⟨name, .running me none⟩
  | taken {name : String} {work : Suspension} {worker : EvaluationId} (me : EvaluationId) :
      Event ⟨name, .started worker work⟩ ⟨name, .running me (some worker)⟩
  | settled {name : String} {owner : EvaluationId} {worker : Option EvaluationId}
      (result : Result) : Event ⟨name, .running owner worker⟩ ⟨name, .settled result⟩

/-- The evaluation has begun the work of the cell: it does the work, or it has done it. -/
def EnteredBy (me : EvaluationId) (cell : Cell) : Prop :=
  match cell.state with
  | .pending _ => False
  | .started worker _ => worker = me
  | .running owner none => owner = me
  | .running _ (some worker) => worker = me
  | .settled _ => True

/-- The evaluation resolves the cell, by itself, as its worker or by waiting for the worker. -/
def ResolvedBy (me : EvaluationId) (cell : Cell) : Prop :=
  match cell.state with
  | .pending _ => False
  | .started worker _ => worker = me
  | .running owner worker => owner = me ∨ worker = some me
  | .settled _ => False

/-- Nothing happens to a settled cell. -/
theorem Event.ne_settled {name : String} {result : Result} {cell : Cell} :
    ¬ Event ⟨name, .settled result⟩ cell := by
  intro h
  cases h

/-- Begun work stays begun, by the same evaluation, and is not started again. -/
theorem EnteredBy.event {me : EvaluationId} {cell cell' : Cell} (h : cell.EnteredBy me)
    (hevent : Event cell cell') :
    cell'.EnteredBy me ∧ ∀ worker work, cell'.state ≠ .started worker work := by
  cases hevent with
  | started worker => exact h.elim
  | claimed owner => exact h.elim
  | taken owner => exact ⟨h, fun _ _ heq => by cases heq⟩
  | settled result => exact ⟨trivial, fun _ _ heq => by cases heq⟩

end Cell

/-- Requests start work, or they do not. -/
theorem Request.start_or_not (request : Request) :
    (∃ scope name, request = .start scope name) ∨ ∀ scope name, request ≠ .start scope name := by
  cases request with
  | start scope name => exact .inl ⟨scope, name, rfl⟩
  | _ => exact .inr fun _ _ heq => by cases heq

namespace Store

variable {store store' : Store} {me : EvaluationId} {id : CellId} {cell : Cell}

/-- Every cell of the first store is in the second one as it was, or one event later. -/
def Ages (store store' : Store) : Prop :=
  ∀ (id : CellId) (cell : Cell), store.cells[id]? = some cell →
    ∃ cell', store'.cells[id]? = some cell' ∧ (cell' = cell ∨ cell.Event cell')

theorem Ages.of_cells_eq (h : store'.cells = store.cells) : store.Ages store' := by
  intro id cell hcell
  exact ⟨cell, by rw [h, hcell], .inl rfl⟩

/-- Replacing a cell by a later one ages the store. -/
theorem ages_replaceCell {cell' : Cell} (hcell : store.cells[id]? = some cell)
    (hevent : cell.Event cell') : store.Ages (store.replaceCell id cell') := by
  intro other otherCell hother
  by_cases heq : id = other
  · subst heq
    rw [hcell] at hother
    cases hother
    exact ⟨cell', getElem?_replaceCell_self hcell, .inr hevent⟩
  · exact ⟨otherCell, by rw [getElem?_replaceCell_of_ne heq, hother], .inl rfl⟩

/-- A settled cell stays as it is. -/
theorem Ages.settled {name : String} {result : Result} (h : store.Ages store')
    (hcell : store.cells[id]? = some ⟨name, .settled result⟩) :
    store'.cells[id]? = some ⟨name, .settled result⟩ := by
  rcases h id _ hcell with ⟨cell', hcell', rfl | hevent⟩
  · exact hcell'
  · exact (Cell.Event.ne_settled hevent).elim

/-! ## Requests -/

/-- Apart from starting work, a request adds a pending cell at most. -/
theorem cells_answer (store : Store) {request : Request}
    (h : ∀ scope name, request ≠ .start scope name) :
    (store.answer request).2.workers = store.workers ∧
      ((store.answer request).2.cells = store.cells ∨
        ∃ name work, (store.answer request).2.cells = store.cells.push ⟨name, .pending work⟩) := by
  cases request with
  | bindLazy scope name work => exact ⟨rfl, .inr ⟨name, work, rfl⟩⟩
  | start scope name => exact (h scope name rfl).elim
  | unbind scope name =>
      simp only [answer, delete_by_owner]
      split <;> exact ⟨rfl, .inl rfl⟩
  | _ => exact ⟨rfl, .inl rfl⟩

/-- Starting a name hands the pending cell that it is bound to over to the next worker, and does
nothing else to cells. -/
theorem cells_startAsync (store : Store) (scope : Scope) (name : String) :
    (store.startAsync scope name).2.cells = store.cells ∨
      ∃ frame id bound work, store.owner? scope name = some (frame, .lazy id) ∧
        store.cells[id]? = some ⟨bound, .pending work⟩ ∧
        (store.startAsync scope name).2.workers = store.workers + 1 ∧
        (store.startAsync scope name).2.cells =
          (store.replaceCell id ⟨bound, .started (store.workers + 1) work⟩).cells := by
  cases howner : store.owner? scope name with
  | none => exact .inl (by simp only [startAsync_by_owner, howner])
  | some owned =>
      rcases owned with ⟨frame, value | id⟩
      · exact .inl (by simp only [startAsync_by_owner, howner])
      · have hcells : (store.startAsync scope name).2.cells =
            (store.modifyCell id (Cell.start (store.workers + 1))).cells := by
          simp only [startAsync_by_owner, howner, modifyCell]
        have hworkers : (store.startAsync scope name).2.workers = store.workers + 1 := by
          simp only [startAsync_by_owner, howner, modifyCell]
        cases hcell : store.cells[id]? with
        | none =>
            -- There is no such cell, and nothing changes.
            refine .inl (hcells.trans (Array.ext_getElem? fun other => ?_))
            simp only [modifyCell, Array.getElem?_modify]
            split
            · next heq =>
                subst heq
                rw [hcell, Option.map_none]
            · rfl
        | some cell =>
            rw [modifyCell_eq_replaceCell hcell] at hcells
            rcases cell with ⟨bound, ⟨work⟩ | _ | _ | _⟩
            · exact .inr ⟨frame, id, bound, work, rfl, hcell, hworkers, hcells⟩
            -- Somebody has taken the cell up before.
            all_goals exact .inl (hcells.trans (congrArg Store.cells (replaceCell_self hcell)))

theorem workers_startAsync (store : Store) (scope : Scope) (name : String) :
    store.workers ≤ (store.startAsync scope name).2.workers := by
  simp only [startAsync_by_owner]
  split
  · exact Nat.le_succ _
  · exact Nat.le_refl _
  · exact Nat.le_refl _

/-- What a request does to a cell that was there before: nothing, unless it starts pending work. -/
theorem getElem?_answer (hcell : store.cells[id]? = some cell) (request : Request) :
    (store.answer request).2.cells[id]? = some cell ∨
      ∃ name work, cell = ⟨name, .pending work⟩ ∧ (store.answer request).2.cells[id]? =
        some ⟨name, .started (store.workers + 1) work⟩ := by
  rcases request.start_or_not with ⟨scope, name, rfl⟩ | hstart
  · rcases store.cells_startAsync scope name with
      hcells | ⟨_, other, bound, work, _, hother, _, hcells⟩
    · exact .inl (by rw [answer, hcells, hcell])
    · by_cases heq : other = id
      · subst heq
        rw [hcell] at hother
        cases hother
        exact .inr ⟨bound, work, rfl, by rw [answer, hcells, getElem?_replaceCell_self hcell]⟩
      · exact .inl (by rw [answer, hcells, getElem?_replaceCell_of_ne heq, hcell])
  · rcases (store.cells_answer hstart).2 with hcells | ⟨name, work, hcells⟩
    · exact .inl (by rw [hcells, hcell])
    · rcases Array.getElem?_eq_some_iff.mp hcell with ⟨hlt, _⟩
      exact .inl (by rw [hcells, Array.getElem?_push, if_neg (Nat.ne_of_lt hlt), hcell])

theorem ages_answer (store : Store) (request : Request) :
    store.Ages (store.answer request).2 := by
  intro id cell hcell
  rcases getElem?_answer hcell request with hsame | ⟨name, work, rfl, hstarted⟩
  · exact ⟨cell, hsame, .inl rfl⟩
  · exact ⟨_, hstarted, .inr (.started _)⟩

theorem workers_answer (store : Store) (request : Request) :
    store.workers ≤ (store.answer request).2.workers := by
  rcases request.start_or_not with ⟨scope, name, rfl⟩ | hstart
  · exact store.workers_startAsync scope name
  · exact Nat.le_of_eq (store.cells_answer hstart).1.symm

/-- A running cell runs on whatever is requested. -/
theorem Runs.answer (h : store.Runs id) (request : Request) :
    (store.answer request).2.Runs id := by
  rcases h with ⟨name, owner, worker, hcell⟩
  rcases getElem?_answer hcell request with hsame | ⟨_, _, heq, _⟩
  · exact ⟨name, owner, worker, hsame⟩
  · cases heq

/-! ## Demands -/

/-- What comes of a demand: the work begins, if nobody has taken it up yet, and otherwise the store
is left as it is.  Work that was started for a worker is not begun by the worker itself. -/
theorem claim_cases (store : Store) (me : EvaluationId) (id : CellId) :
    (∃ name work worker, store.claim me id =
        (.run work worker, store.replaceCell id ⟨name, .running me worker⟩) ∧
      ((store.cells[id]? = some ⟨name, .pending work⟩ ∧ worker = none) ∨
        ∃ started, started ≠ me ∧ worker = some started ∧
          store.cells[id]? = some ⟨name, .started started work⟩)) ∨
      ∃ claim, store.claim me id = (claim, store) ∧ ∀ work worker, claim ≠ .run work worker := by
  cases hcell : store.cells[id]? with
  | none => exact .inr ⟨.wait, claim_of_none hcell, fun _ _ heq => by cases heq⟩
  | some cell =>
      rcases cell with ⟨name, ⟨work⟩ | ⟨started, work⟩ | ⟨owner, running⟩ | ⟨result⟩⟩
      · exact .inl ⟨name, work, none, claim_of_pending hcell, .inl ⟨rfl, rfl⟩⟩
      · by_cases hme : started = me
        · subst hme
          exact .inr ⟨_, claim_of_started_self hcell, fun _ _ heq => by cases heq⟩
        · exact .inl ⟨name, work, some started, claim_of_started hcell hme,
            .inr ⟨started, hme, rfl, rfl⟩⟩
      · by_cases hme : owner = me ∨ running = some me
        · exact .inr ⟨_, claim_of_running_self hcell hme, fun _ _ heq => by cases heq⟩
        · exact .inr ⟨_, claim_of_running hcell hme, fun _ _ heq => by cases heq⟩
      · exact .inr ⟨_, claim_of_settled hcell, fun _ _ heq => by cases heq⟩

/-- A demand begins work that nobody has taken up yet: pending work, or work that was started for a
worker other than the one who demands it. -/
theorem claim_run {work : Suspension} {worker : Option EvaluationId}
    (h : store.claim me id = (.run work worker, store')) :
    ∃ name, store' = store.replaceCell id ⟨name, .running me worker⟩ ∧
      ((store.cells[id]? = some ⟨name, .pending work⟩ ∧ worker = none) ∨
        ∃ started, started ≠ me ∧ worker = some started ∧
          store.cells[id]? = some ⟨name, .started started work⟩) := by
  rcases store.claim_cases me id with ⟨name, work', worker', hclaim, hcell⟩ | ⟨claim, hclaim, hrun⟩
  · rw [hclaim] at h
    cases h
    exact ⟨name, rfl, hcell⟩
  · rw [hclaim] at h
    cases h
    exact (hrun work worker rfl).elim

/-- A demand that does not begin work leaves the store as it is. -/
theorem claim_store {claim : Claim} (h : store.claim me id = (claim, store'))
    (hrun : ∀ work worker, claim ≠ .run work worker) : store' = store := by
  rcases store.claim_cases me id with ⟨_, work, worker, hclaim, _⟩ | ⟨_, hclaim, _⟩
  · rw [hclaim] at h
    cases h
    exact (hrun work worker rfl).elim
  · rw [hclaim] at h
    cases h
    rfl

/-- A demand that comes to an outcome at once has found the cell settled. -/
theorem claim_settled {result : Result} (h : store.claim me id = (.settled result, store')) :
    ∃ name, store.cells[id]? = some ⟨name, .settled result⟩ := by
  rcases hcell : store.cells[id]? with
    _ | ⟨name, ⟨work⟩ | ⟨started, work⟩ | ⟨owner, running⟩ | ⟨outcome⟩⟩
  · cases (claim_of_none hcell).symm.trans h
  · cases (claim_of_pending hcell).symm.trans h
  · by_cases hme : started = me
    · subst hme
      cases (claim_of_started_self hcell).symm.trans h
    · cases (claim_of_started hcell hme).symm.trans h
  · by_cases hme : owner = me ∨ running = some me
    · cases (claim_of_running_self hcell hme).symm.trans h
    · cases (claim_of_running hcell hme).symm.trans h
  · cases (claim_of_settled hcell).symm.trans h
    exact ⟨name, rfl⟩

/-- A demand is refused only if the evaluation resolves the cell itself. -/
theorem claim_selfDependent {name : String}
    (h : store.claim me id = (.selfDependent name, store')) :
    ∃ cell, store.cells[id]? = some cell ∧ cell.name = name ∧ cell.ResolvedBy me := by
  rcases hcell : store.cells[id]? with
    _ | ⟨bound, ⟨work⟩ | ⟨started, work⟩ | ⟨owner, running⟩ | ⟨outcome⟩⟩
  · cases (claim_of_none hcell).symm.trans h
  · cases (claim_of_pending hcell).symm.trans h
  · by_cases hme : started = me
    · subst hme
      cases (claim_of_started_self hcell).symm.trans h
      exact ⟨_, rfl, rfl, rfl⟩
    · cases (claim_of_started hcell hme).symm.trans h
  · by_cases hme : owner = me ∨ running = some me
    · cases (claim_of_running_self hcell hme).symm.trans h
      exact ⟨_, rfl, rfl, hme⟩
    · cases (claim_of_running hcell hme).symm.trans h
  · cases (claim_of_settled hcell).symm.trans h

theorem ages_claim {work : Suspension} {worker : Option EvaluationId}
    (h : store.claim me id = (.run work worker, store')) : store.Ages store' := by
  rcases claim_run h with ⟨name, rfl, ⟨hcell, rfl⟩ | ⟨started, _, rfl, hcell⟩⟩
  · exact ages_replaceCell hcell (.claimed me)
  · exact ages_replaceCell hcell (.taken me)

/-- An evaluation that has begun the work of a cell and demands the cell before it is settled is
refused. -/
theorem claim_of_enteredBy (hcell : store.cells[id]? = some cell) (hentered : cell.EnteredBy me)
    (hsettled : ∀ result, cell.state ≠ .settled result) :
    store.claim me id = (.selfDependent cell.name, store) := by
  rcases cell with ⟨name, ⟨pending⟩ | ⟨started, pending⟩ | ⟨owner, none | worker⟩ | ⟨result⟩⟩
  · exact hentered.elim
  · have hme : started = me := hentered
    subst hme
    exact claim_of_started_self hcell
  · exact claim_of_running_self hcell (.inl hentered)
  · have hme : worker = me := hentered
    exact claim_of_running_self hcell (.inr (by rw [hme]))
  · exact (hsettled result rfl).elim

/-! ## Outcomes -/

/-- Settling a running cell stores the outcome under the name of the cell. -/
theorem getElem?_settle {name : String} {owner : EvaluationId} {helper : Option EvaluationId}
    (hcell : store.cells[id]? = some ⟨name, .running owner helper⟩) (result : Result) :
    (store.settle id result).cells[id]? = some ⟨name, .settled result⟩ := by
  rw [settle_eq hcell]
  exact getElem?_replaceCell_self hcell

/-- Only a running cell is settled, so that no outcome is ever replaced. -/
theorem ages_settle (h : store.Runs id) (result : Result) :
    store.Ages (store.settle id result) := by
  rcases h with ⟨name, owner, worker, hcell⟩
  rw [settle_eq hcell]
  exact ages_replaceCell hcell (.settled result)

/-- Other cells run on when one is settled. -/
theorem Runs.settle {other : CellId} (h : store.Runs other) (hne : id ≠ other) (result : Result) :
    (store.settle id result).Runs other := by
  rcases h with ⟨name, owner, worker, hother⟩
  refine ⟨name, owner, worker, ?_⟩
  simp only [Store.settle, modifyCell, Array.getElem?_modify, if_neg hne]
  exact hother

/-- Other cells run on when one begins to. -/
theorem Runs.claim {work : Suspension} {worker : Option EvaluationId}
    (h : store.claim me id = (.run work worker, store')) :
    store'.Runs id ∧ ¬ store.Runs id ∧ ∀ other, store.Runs other → store'.Runs other := by
  rcases claim_run h with ⟨name, rfl, hcell⟩
  -- Whoever was to do the work, the cell did not run.
  have hbefore : ∃ state, store.cells[id]? = some ⟨name, state⟩ ∧
      ∀ owner running, state ≠ .running owner running := by
    rcases hcell with ⟨hcell, _⟩ | ⟨_, _, _, hcell⟩
    · exact ⟨_, hcell, fun _ _ heq => by cases heq⟩
    · exact ⟨_, hcell, fun _ _ heq => by cases heq⟩
  rcases hbefore with ⟨state, hcell, hstate⟩
  have hself : (store.replaceCell id ⟨name, .running me worker⟩).Runs id :=
    ⟨name, me, worker, getElem?_replaceCell_self hcell⟩
  refine ⟨hself, ?_, fun other hother => ?_⟩
  · rintro ⟨bound, owner, running, hruns⟩
    rw [hcell] at hruns
    cases hruns
    exact hstate owner running rfl
  · by_cases heq : id = other
    · subst heq
      exact hself
    · rcases hother with ⟨bound, owner, running, hruns⟩
      exact ⟨bound, owner, running, by rw [getElem?_replaceCell_of_ne heq, hruns]⟩

end Store
end LazyLisp
