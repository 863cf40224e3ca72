import LazyLisp.Proofs.Async.Fate
import LazyLisp.Proofs.Store.Resolution

/-!
# Handles — a handle stands for the work that it was made with

A lazy binding ties a name to a cell, and a handle is the cell without the name.  The name may be bound
again or deleted at any time, even while the work of the cell is being done; the cell goes its own way,
and nothing that happens to it touches other names.  This file defines:

* `Async.Activity.Wants`, a thread that is at nothing but a demand for the cell;
* `Async.Defines`, the steps that change bindings, and `Async.Calmly`, the runs without such steps;
* `Async.Unbound`, the cells that no name is bound to.

Main results: `Async.comesTo_of_demand`, that a demand comes to what the cell is settled with,
`Async.calm_of_step` and `Async.calm_of_run`, what steps and runs mean for names, and
`Async.handle_isolated`, which puts this together for handles.
-/

namespace LazyLisp

/-- The request changes what names are bound to. -/
def Request.Defines : Request → Prop
  | .bind _ _ _ | .bindLazy _ _ _ | .unbind _ _ => True
  | _ => False

namespace Async

open Machine

variable {host : Host} {first begun system system' last : System} {log entries : Log}
  {thread worker evaluation : EvaluationId} {rest stack : List Pending} {cell : CellId}
  {name : String} {work : Suspension} {result : Result}

/-! ## Demands -/

/-- The thread is at nothing but a demand for the cell, by the given evaluation and for what waits on
the stack. -/
inductive Activity.Wants (cell : CellId) (stack : List Pending) (evaluation : EvaluationId) :
    Activity → Prop where
  | demands : Wants cell stack evaluation (.working (.resume (.binding cell)) stack evaluation)
  | works {activity : Activity} :
      activity.Serves (.settle cell evaluation :: stack) → Wants cell stack evaluation activity
  | has {result : Result} {activity : Activity} :
      activity.Brings (.settle cell evaluation :: stack) result →
        Wants cell stack evaluation activity
  | receives {worker : EvaluationId} :
      Wants cell stack evaluation (.receiving cell worker stack evaluation)

/-- What a demand comes to: the outcome of the cell, or a refusal for an evaluation that resolves the
cell itself. -/
def Answers (system system' : System) (cell : CellId) (evaluation : EvaluationId)
    (result : Result) : Prop :=
  (∃ name, system'.store.cells[cell]? = some ⟨name, .settled result⟩) ∨
    ∃ content, system.store.cells[cell]? = some content ∧ content.ResolvedBy evaluation ∧
      result = .error (Cell.selfDependence content.name)

/-- The first step of a demand. -/
theorem wants_of_demand {state' : State}
    (hnext : Machine.step host ⟨.resume (.binding cell), stack, evaluation, system.store⟩ =
      .next state') (hactivity : system'.threads thread = activityOf state')
    (hstore : system'.store = state'.store) :
    (system'.threads thread).Wants cell stack evaluation ∨
      ∃ result, (system'.threads thread).Brings stack result ∧
        Answers system system' cell evaluation result := by
  rw [hactivity]
  simp only [Machine.step, demand] at hnext
  split at hnext
  · next result claimed hclaim =>
      cases hnext
      obtain ⟨name, hcell⟩ := Store.claim_settled hclaim
      have hsame := Store.claim_store hclaim fun _ _ heq => by cases heq
      refine .inr ⟨result, ⟨_, rfl⟩, .inl ⟨name, ?_⟩⟩
      rw [hstore]
      exact hsame.symm ▸ hcell
  · next work helper claimed hclaim =>
      cases hnext
      refine .inl (.works (.working (List.suffix_cons _ _) fun heq => ?_))
      have hlength := congrArg List.length heq
      simp at hlength
  · next name claimed hclaim =>
      cases hnext
      obtain ⟨content, hcell, rfl, hresolved⟩ := Store.claim_selfDependent hclaim
      exact .inr ⟨_, ⟨_, rfl⟩, .inr ⟨content, hcell, hresolved, rfl⟩⟩
  · cases hnext

/-- A thread is at nothing but its demand until it has what the demand comes to. -/
theorem wants_of_step (hsound : Sound system log) (hstep : Step host system entries system')
    (h : (system.threads thread).Wants cell stack evaluation) :
    (system'.threads thread).Wants cell stack evaluation ∨
      ∃ result, (system'.threads thread).Brings stack result ∧
        Answers system system' cell evaluation result := by
  have hmoves := moves_of_step hsound hstep thread
  generalize hactivity : system.threads thread = activity at h
  cases h with
  | demands =>
      cases hmoves with
      | stays same => exact .inl (same.trans hactivity ▸ .demands)
      | begins free => exact (free.not_working hactivity).elim
      | @thinks state state' hat next activity store =>
          obtain ⟨control, stack', evaluation', before⟩ := state
          obtain ⟨hthread, rfl⟩ := hat
          cases hactivity.symm.trans hthread
          exact wants_of_demand next activity store
      | @asks state other _ _ hat control _ _ activity =>
          obtain ⟨_, stack', evaluation', before⟩ := state
          cases control
          cases hactivity.symm.trans hat.1
          exact .inl (activity ▸ .receives)
      | receives receiving _ _ _ => cases hactivity.symm.trans receiving
      | @halts state _ hat control _ _ _ =>
          obtain ⟨_, stack', evaluation', before⟩ := state
          cases control
          cases hactivity.symm.trans hat.1
  | works hserves =>
      rw [← hactivity] at hserves
      rcases serves_of_moves hmoves hserves with hserves' | ⟨result, hbrings⟩
      · exact .inl (.works hserves')
      · exact .inl (.has hbrings)
  | @has result _ hbrings =>
      rw [← hactivity] at hbrings
      rcases brings_of_moves hmoves hbrings with
        hbrings' | ⟨_, state', hyield, hactivity', hstore⟩ | ⟨hnil, -⟩
      · exact .inl (.has hbrings')
      · -- The cell is settled, and the outcome goes on to what waits below.
        cases hyield
        obtain ⟨_, hworking⟩ := hbrings
        obtain ⟨name, owner, helper, hcell⟩ := hsound.runs_of_settling hworking
        have hsettled := Store.getElem?_settle hcell result
        exact .inr ⟨result, ⟨_, hactivity'⟩, .inl ⟨name, hstore ▸ hsettled⟩⟩
      · cases hnil
  | @receives worker =>
      cases hmoves with
      | stays same => exact .inl (same.trans hactivity ▸ .receives)
      | begins free => exact (free.not_receiving hactivity).elim
      | thinks hat _ _ _ => cases hactivity.symm.trans hat.1
      | asks hat _ _ _ _ => cases hactivity.symm.trans hat.1
      | @receives _ _ _ _ result receiving _ activity store =>
          cases hactivity.symm.trans receiving
          obtain ⟨name, owner, helper, hcell⟩ := hsound.runs_of_receiving hactivity
          refine .inr ⟨result, ⟨_, activity⟩, .inl ⟨name, ?_⟩⟩
          rw [store]
          exact Store.getElem?_settle hcell result
      | halts hat _ _ _ _ => cases hactivity.symm.trans hat.1

/-- Whoever wants the outcome of a cell does not have it yet. -/
theorem Activity.Wants.serves {activity : Activity} (h : activity.Wants cell stack evaluation) :
    activity.Serves stack := by
  have hbelow : stack <:+ .settle cell evaluation :: stack := List.suffix_cons _ _
  have hlonger : ∀ {other : List Pending}, .settle cell evaluation :: stack <:+ other →
      other ≠ stack := by
    rintro other hsuffix rfl
    exact Nat.not_succ_le_self _ hsuffix.length_le
  cases h with
  | demands => exact .working List.suffix_rfl fun _ _ heq => by cases heq
  | works hserves =>
      cases hserves with
      | working hsuffix _ =>
          exact .working (hbelow.trans hsuffix) fun heq => (hlonger hsuffix heq).elim
      | receiving hsuffix => exact .receiving (hbelow.trans hsuffix)
  | has hbrings =>
      obtain ⟨_, rfl⟩ := hbrings
      exact .working hbelow fun heq => (hlonger List.suffix_rfl heq).elim
  | receives => exact .receiving List.suffix_rfl

theorem Activity.Serves.not_brings {activity : Activity} (h : activity.Serves rest) :
    ¬ activity.Brings rest result := by
  rintro ⟨_, rfl⟩
  cases h with
  | working _ hbusy => exact hbusy rfl result rfl

theorem Pursuit.sound (hsound : Sound first log) (h : Pursuit host thread rest first system) :
    ∃ later, Sound system later := by
  induction h with
  | begin => exact ⟨log, hsound⟩
  | step _ hstep _ ih =>
      obtain ⟨later, hlater⟩ := ih
      exact ⟨_, sound_of_step hlater hstep⟩

/-- During a demand the thread is at nothing else. -/
theorem wants_of_pursuit (hsound : Sound first log)
    (hwants : (first.threads thread).Wants cell stack evaluation)
    (h : Pursuit host thread stack first system) :
    (system.threads thread).Wants cell stack evaluation := by
  induction h with
  | begin => exact hwants
  | step hbefore hstep hserves ih =>
      obtain ⟨later, hlater⟩ := hbefore.sound hsound
      rcases wants_of_step hlater hstep ih with hwants' | ⟨result, hbrings, -⟩
      · exact hwants'
      · exact (hserves.not_brings hbrings).elim

/-- A demand comes to what the cell is settled with, unless the evaluation resolves the cell itself. -/
theorem comesTo_of_demand (hsound : Sound first log)
    (hwants : (first.threads thread).Wants cell stack evaluation)
    (h : ComesTo host thread stack first result last) :
    ∃ system, Pursuit host thread stack first system ∧
      Answers system last cell evaluation result := by
  obtain ⟨system, entries, hpursuit, hstep, hbrings⟩ := h
  obtain ⟨later, hlater⟩ := hpursuit.sound hsound
  refine ⟨system, hpursuit, ?_⟩
  rcases wants_of_step hlater hstep (wants_of_pursuit hsound hwants hpursuit) with
    hwants' | ⟨outcome, hbrings', hanswers⟩
  · exact (hwants'.serves.not_brings hbrings).elim
  · obtain ⟨_, hactivity⟩ := hbrings
    obtain ⟨_, hactivity'⟩ := hbrings'
    cases hactivity.symm.trans hactivity'
    exact hanswers

/-- A demand for a settled cell is answered at once. -/
theorem comesTo_of_settled (hsettled : system.store.cells[cell]? = some ⟨name, .settled result⟩)
    (hdemand : system.threads thread = .working (.resume (.binding cell)) stack evaluation) :
    ∃ last, ComesTo host thread stack system result last := by
  have hclaim : system.store.claim evaluation cell = (.settled result, system.store) :=
    Store.claim_of_settled hsettled
  have hnext : Machine.step host ⟨.resume (.binding cell), stack, evaluation, system.store⟩ =
      .next ⟨.run (.done result), stack, evaluation, system.store⟩ := by
    simp only [Machine.step, Machine.demand, hclaim]
  have hserves : (system.threads thread).Serves stack :=
    hdemand ▸ .working List.suffix_rfl fun _ _ heq => by cases heq
  refine ⟨_, system, _, .begin hserves, .turn (.think ⟨hdemand, rfl⟩ hnext ?_ (not_hires rfl)),
    evaluation, System.threads_put ..⟩
  rintro worker ⟨_, _, _, hcontrol, hrun⟩
  cases hcontrol
  cases hclaim.symm.trans hrun

/-! ## Names -/

section Names

variable {store later : Store} {id : CellId} {scope : Scope}

/-- No name is bound to the cell. -/
def Unbound (store : Store) (cell : CellId) : Prop :=
  ∀ name frame, store.bindingIn name frame ≠ some (.lazy cell)

/-- The cell has been settled in between. -/
def Settles (store later : Store) (cell : CellId) : Prop :=
  (∀ name result, store.cells[cell]? ≠ some ⟨name, .settled result⟩) ∧
    ∃ name result, later.cells[cell]? = some ⟨name, .settled result⟩

/-- Names are bound as they were.  Of lazy bindings the same is read, or else just one cell has been
settled and nothing else has changed. -/
inductive Calm (store later : Store) : Prop where
  | still (bindings : ∀ name frame, later.bindingIn name frame = store.bindingIn name frame)
      (reads : ∀ id, later.read (.lazy id) = store.read (.lazy id))
  | settles {cell : CellId} {result : Result} (runs : store.Runs cell)
      (settled : later = store.settle cell result)

theorem owner?_of_bindings
    (h : ∀ name frame, later.bindingIn name frame = store.bindingIn name frame) (scope : Scope)
    (name : String) : later.owner? scope name = store.owner? scope name := by
  rw [Store.owner?, Store.owner?]
  generalize scope.frames = ids
  induction ids with
  | nil => rfl
  | cons frame ids ih => rw [Store.ownerAmong_cons, Store.ownerAmong_cons, h, ih]

theorem calm_of_cells_eq (hframes : later.frames = store.frames)
    (hcells : later.cells = store.cells) : Calm store later := by
  refine .still (fun name frame => ?_) fun id => ?_
  · rw [Store.bindingIn, Store.bindingIn, Store.frame, Store.frame, hframes]
  · rw [Store.read, Store.read, hcells]

/-- A cell that is replaced by another one without a value reads as before. -/
theorem calm_of_replaceCell {before : Cell} (after : Cell)
    (hbefore : store.cells[cell]? = some before) (hvalue : after.value? = before.value?)
    (hframes : later.frames = store.frames)
    (hcells : later.cells = (store.replaceCell cell after).cells) : Calm store later := by
  refine .still (fun name frame => ?_) fun id => ?_
  · rw [Store.bindingIn, Store.bindingIn, Store.frame, Store.frame, hframes]
  · rw [Store.read, Store.read, hcells, Store.getElem?_replaceCell hbefore]
    split
    · next heq =>
        subst heq
        rw [hbefore, Option.bind_some, Option.bind_some, hvalue]
    · rfl

theorem calm_startAsync (store : Store) (scope : Scope) (name : String) :
    Calm store (store.startAsync scope name).2 := by
  have hframes : (store.startAsync scope name).2.frames = store.frames := by
    rw [Store.startAsync_by_owner]
    split <;> rfl
  rcases store.cells_startAsync scope name with
    hcells | ⟨_, id, bound, work, -, hpending, -, hcells⟩
  · exact calm_of_cells_eq hframes hcells
  · exact calm_of_replaceCell ⟨bound, .started (store.workers + 1) work⟩ hpending rfl hframes hcells

/-- Requests that define nothing. -/
theorem calm_answer (store : Store) {request : Request} (h : ¬ request.Defines) :
    Calm store (store.answer request).2 := by
  cases request with
  | bind scope name value => exact (h trivial).elim
  | bindLazy scope name work => exact (h trivial).elim
  | unbind scope name => exact (h trivial).elim
  | start scope name => exact calm_startAsync store scope name
  | openScope outer =>
      refine .still (fun name frame => ?_) fun id => rfl
      exact congrArg (Frame.get? · name) (Store.frame_push store frame)
  | _ => exact calm_of_cells_eq rfl rfl

theorem calm_claim {me : EvaluationId} {helper : Option EvaluationId}
    (h : store.claim me cell = (.run work helper, later)) : Calm store later := by
  obtain ⟨name, rfl, ⟨hcell, -⟩ | ⟨started, -, -, hcell⟩⟩ := Store.claim_run h
  · exact calm_of_replaceCell ⟨name, .running me helper⟩ hcell rfl rfl rfl
  · exact calm_of_replaceCell ⟨name, .running me helper⟩ hcell rfl rfl rfl

theorem settles_of_runs (h : store.Runs cell) (result : Result) :
    Settles store (store.settle cell result) cell := by
  obtain ⟨name, owner, helper, hcell⟩ := h
  refine ⟨fun _ _ hsettled => ?_, name, result, Store.getElem?_settle hcell result⟩
  cases hcell.symm.trans hsettled

/-- What is read of a settled store differs for names of the cell only. -/
theorem read_settle (h : store.Runs cell) (result : Result) {binding : Binding}
    (hne : binding ≠ .lazy cell) : (store.settle cell result).read binding = store.read binding := by
  obtain ⟨name, owner, helper, hcell⟩ := h
  refine Store.read_congr fun other heq => ?_
  have hother : cell ≠ other := by
    rintro rfl
    exact hne heq
  rw [Store.settle_eq hcell, Store.getElem?_replaceCell_of_ne hother]

theorem Calm.bindings (h : Calm store later) (name : String) (frame : FrameId) :
    later.bindingIn name frame = store.bindingIn name frame := by
  cases h with
  | still bindings _ => exact bindings name frame
  | settles _ settled =>
      rw [settled]
      rfl

/-- A name that reads differently is bound to a cell that has been settled. -/
theorem Calm.get (h : Calm store later) (scope : Scope) (name : String) :
    later.get scope name = store.get scope name ∨
      ∃ frame id, store.owner? scope name = some (frame, .lazy id) ∧ Settles store later id := by
  have howner := owner?_of_bindings h.bindings scope name
  cases hold : store.owner? scope name with
  | none =>
      rw [hold] at howner
      exact .inl (by rw [Store.get_by_owner, Store.get_by_owner, howner, hold])
  | some owner =>
      obtain ⟨frame, binding⟩ := owner
      rw [hold] at howner
      have hget : later.read binding = store.read binding →
          later.get scope name = store.get scope name := by
        intro hread
        simp only [Store.get_by_owner, howner, hold, hread]
      cases h with
      | still _ reads =>
          cases binding with
          | value value => exact .inl (hget rfl)
          | lazy id => exact .inl (hget (reads id))
      | @settles cell result runs settled =>
          subst settled
          by_cases heq : binding = .lazy cell
          · subst heq
            exact .inr ⟨frame, cell, rfl, settles_of_runs runs result⟩
          · exact .inl (hget (read_settle runs result heq))

end Names

/-! ## Steps and names -/

/-- The main thread begins with an evaluation, and the host program has changed something before. -/
def Begun (system system' : System) : Prop :=
  ∃ state : State, state.Begins ∧ state.store.cells = system.store.cells ∧
    system' = system.put mainEvaluation (activityOf state) state.store

/-- The step changes bindings: the host program does before an evaluation begins, or a program asks for
it. -/
inductive Defines (system system' : System) : Prop where
  | host : Begun system system' → Defines system system'
  | program {thread evaluation : EvaluationId} {request : Request}
      {next : request.Answer → Script Value} {stack : List Pending} :
      system.threads thread = .working (.run (.ask request next)) stack evaluation →
      request.Defines → system'.store = (system.store.answer request).2 → Defines system system'

/-- A step that defines nothing is calm. -/
theorem calm_of_step (hsound : Sound system log) (hstep : Step host system entries system') :
    Defines system system' ∨ Calm system.store system'.store := by
  have hmachine : ∀ {thread : EvaluationId} {state state' : State}, system.At thread state →
      Effect state state' → system'.store = state'.store →
      Defines system system' ∨ Calm system.store system'.store := by
    intro thread state state' hat heffect hstore
    have hruns := hsound.runs_of_at hat
    rw [hstore, hat.2]
    cases heffect with
    | still hsame _ _ => exact .inr (calm_of_cells_eq (by rw [hsame]) (by rw [hsame]))
    | @answered request next stack evaluation store =>
        by_cases hdefines : request.Defines
        · refine .inl (.program hat.1 hdefines ?_)
          rw [hstore, hat.2]
        · exact .inr (calm_answer _ hdefines)
    | entered hclaim => exact .inr (calm_claim hclaim)
    | settled => exact .inr (.settles (hruns _ List.mem_cons_self) rfl)
  cases hstep with
  | begin _ hbegins hcells _ => exact .inl (.host ⟨_, hbegins, hcells, rfl⟩)
  | @turn _ _ thread hturn =>
      cases hturn with
      | think hat hnext _ _ => exact hmachine hat (effect_of_step hnext) rfl
      | spawn hat hnext _ _ => exact hmachine hat (effect_of_step hnext) rfl
      | receive hat _ hclaim _ =>
          rw [← hat.2] at hclaim
          exact .inr (calm_claim hclaim)
      | @deliver cell _ _ _ result hreceiving _ =>
          exact .inr (.settles (hsound.runs_of_receiving hreceiving) rfl)
      | halt hat hhalt =>
          obtain ⟨-, -, hstore⟩ := halt_of_step hhalt
          exact .inr (calm_of_cells_eq (by rw [hstore, hat.2]; rfl) (by rw [hstore, hat.2]; rfl))

/-- Steps that define nothing. -/
abbrev Calmly (host : Host) : System → System → Prop :=
  Relation.ReflTransGen fun system system' =>
    ∃ entries, Step host system entries system' ∧ ¬ Defines system system'

/-- As long as nothing is defined, names are bound as they were, and what is read of them differs only
where the cell that a name is bound to has been settled. -/
theorem calm_of_run (hsound : Sound first log) (h : Calmly host first last) :
    (∃ later, Sound last later) ∧
      (∀ (id : CellId) bound result, first.store.cells[id]? = some ⟨bound, .settled result⟩ →
        last.store.cells[id]? = some ⟨bound, .settled result⟩) ∧
      (∀ scope sought, last.store.owner? scope sought = first.store.owner? scope sought) ∧
      ∀ scope sought, last.store.get scope sought = first.store.get scope sought ∨
        ∃ frame id, first.store.owner? scope sought = some (frame, .lazy id) ∧
          Settles first.store last.store id := by
  induction h with
  | refl => exact ⟨⟨log, hsound⟩, fun _ _ _ h => h, fun _ _ => rfl, fun _ _ => .inl rfl⟩
  | tail _ hnext ih =>
      obtain ⟨⟨later, hlater⟩, hkept, howner, hget⟩ := ih
      obtain ⟨entries, hstep, hdefines⟩ := hnext
      have hages := ages_of_step hlater hstep
      have hcalm := (calm_of_step hlater hstep).resolve_left hdefines
      refine ⟨⟨_, sound_of_step hlater hstep⟩, ?_, ?_, ?_⟩
      · exact fun id bound result hsettled => hages.settled (hkept id bound result hsettled)
      · intro scope sought
        exact (owner?_of_bindings hcalm.bindings scope sought).trans (howner scope sought)
      · intro scope sought
        rcases hget scope sought with hsame | ⟨frame, id, hbound, hopen, bound, result, hsettled⟩
        · rcases hcalm.get scope sought with hsame' | ⟨frame, id, hbound, hopen, hsettled⟩
          · exact .inl (hsame'.trans hsame)
          · refine .inr ⟨frame, id, (howner scope sought).symm.trans hbound, ?_, hsettled⟩
            exact fun bound result hbefore => hopen bound result (hkept id bound result hbefore)
        · exact .inr ⟨frame, id, hbound, hopen, bound, result, hages.settled hsettled⟩

/-! ## Cells that no name is bound to -/

/-- Steps in between which the host program lets the store grow, as all operations on scopes do. -/
abbrev Growing (host : Host) : System → System → Prop :=
  Relation.ReflTransGen fun system system' =>
    ∃ entries, Step host system entries system' ∧
      (Begun system system' → system.store.Grows system'.store)

/-- Programs can only let the store grow. -/
theorem grows_of_step (hstep : Step host system entries system') :
    Begun system system' ∨ system.store.Grows system'.store := by
  have hmachine : ∀ {thread : EvaluationId} {state state' : State}, system.At thread state →
      Machine.step host state = .next state' → system.store.Grows state'.store := by
    intro thread state state' hat hnext
    have hgrows := Machine.grows_of_step hnext
    rwa [← hat.2] at hgrows
  cases hstep with
  | begin _ hbegins hcells _ => exact .inl ⟨_, hbegins, hcells, rfl⟩
  | turn hturn =>
      cases hturn with
      | think hat hnext _ _ => exact .inr (hmachine hat hnext)
      | spawn hat hnext _ _ => exact .inr (hmachine hat hnext)
      | receive hat _ hclaim _ =>
          rw [← hat.2] at hclaim
          obtain ⟨name, rfl, -⟩ := Store.claim_run hclaim
          exact .inr (.of_frames_eq rfl (Nat.le_of_eq Store.size_replaceCell.symm))
      | deliver _ _ =>
          exact .inr (.of_frames_eq rfl (by simp [System.put, Store.settle, Store.modifyCell]))
      | halt hat hhalt =>
          obtain ⟨-, -, hstore⟩ := halt_of_step hhalt
          rw [← hat.2] at hstore
          subst hstore
          exact .inr (.refl _)

/-- No name is ever bound to a cell that it was not made for. -/
theorem unbound_of_growing (hcell : cell < system.store.cells.size)
    (hunbound : Unbound system.store cell) (h : Growing host system last) :
    cell < last.store.cells.size ∧ Unbound last.store cell := by
  induction h with
  | refl => exact ⟨hcell, hunbound⟩
  | tail _ hnext ih =>
      obtain ⟨entries, hstep, hbegun⟩ := hnext
      obtain ⟨hlt, hnone⟩ := ih
      have hgrows := (grows_of_step hstep).elim hbegun id
      refine ⟨Nat.lt_of_lt_of_le hlt hgrows.cells, fun name frame hbinding => ?_⟩
      rcases hgrows.bound name frame cell hbinding with hbefore | ⟨hnew, -⟩
      · exact hnone name frame hbefore
      · exact Nat.not_lt_of_le hnew hlt

/-- Definitions do nothing to the cells that there are. -/
theorem getElem?_of_defines {request : Request} (store : Store) (hcell : cell < store.cells.size)
    (h : request.Defines) : (store.answer request).2.cells[cell]? = store.cells[cell]? := by
  cases request with
  | bind scope name value => rfl
  | bindLazy scope name work =>
      have hpush : (store.answer (.bindLazy scope name work)).2.cells =
          store.cells.push ⟨name, .pending work⟩ := rfl
      rw [hpush, Array.getElem?_push, if_neg (Nat.ne_of_lt hcell)]
  | unbind scope name =>
      rw [Store.answer, Store.delete_by_owner]
      split <;> rfl
  | _ => exact h.elim

/-- Whatever happens to a cell that no name is bound to, all names resolve as before. -/
theorem sameAt_of_unbound (hsound : Sound system log) (hcell : cell < system.store.cells.size)
    (hunbound : Unbound system.store cell) (hstep : Step host system entries system')
    (hchange : system'.store.cells[cell]? ≠ system.store.cells[cell]?) (scope : Scope)
    (sought : String) : system.store.SameAt system'.store scope sought := by
  rcases calm_of_step hsound hstep with (⟨_, -, hcells, rfl⟩ | ⟨-, hdefines, hstore⟩) | hcalm
  · refine (hchange ?_).elim
    rw [System.put, hcells]
  · refine (hchange ?_).elim
    rw [hstore, getElem?_of_defines _ hcell hdefines]
  · refine Store.sameAt_of_owner? (owner?_of_bindings hcalm.bindings scope sought) ?_
    intro frame binding howner
    cases hcalm with
    | still _ reads =>
        cases binding with
        | value value => rfl
        | lazy id => exact reads id
    | @settles settled result runs hstore =>
        rw [hstore]
        refine read_settle runs result ?_
        rintro rfl
        -- The settled cell is another one, which the step would have left as it is.
        have hne : settled ≠ cell := by
          rintro rfl
          exact hunbound sought frame (Store.getsTo_of_ownerAmong howner).2
        obtain ⟨name, owner, helper, hother⟩ := runs
        rw [hstore, Store.settle_eq hother, Store.getElem?_replaceCell_of_ne hne] at hchange
        exact hchange rfl

/-! ## Handles -/

theorem Pursuit.later (h : Pursuit host thread rest first system) : Later host first system := by
  induction h with
  | begin => exact .refl host first
  | step _ hstep _ ih => exact ih.step hstep

theorem ComesTo.later (h : ComesTo host thread rest first result last) : Later host first last := by
  obtain ⟨system, entries, hpursuit, hstep, -⟩ := h
  exact hpursuit.later.step hstep

theorem later_of_growing (h : Growing host first last) : Later host first last := by
  induction h with
  | refl => exact .refl host first
  | tail _ hnext ih =>
      obtain ⟨entries, hstep, -⟩ := hnext
      exact ih.step hstep

/-- What is read of a name that is bound to a cell is a handle of the cell, or the value that the cell
has been settled with. -/
theorem get_of_bound {store : Store} {scope : Scope} {sought : String} {frame : FrameId}
    (howner : store.owner? scope sought = some (frame, .lazy cell)) :
    store.get scope sought = .ok (.suspended (.binding cell)) ∨
      ∃ bound value, store.cells[cell]? = some ⟨bound, .settled (.ok value)⟩ ∧
        store.get scope sought = .ok value := by
  have hget : store.get scope sought = .ok (store.read (.lazy cell)) := by
    rw [Store.get_by_owner, howner]
  rw [hget, Store.read]
  cases hcell : store.cells[cell]? with
  | none => exact .inl rfl
  | some content =>
      obtain ⟨bound, _ | _ | _ | ⟨_ | value⟩⟩ := content
      · exact .inl rfl
      · exact .inl rfl
      · exact .inl rfl
      · exact .inl rfl
      · exact .inr ⟨bound, value, rfl, rfl⟩

/-- Let a cell be made for some work, and let anything happen from then on: names are bound, deleted and
started, programs are evaluated, and handles are resolved, on any thread and in any order.

* If the cell is settled, then with what its own work has come to, it stays settled with that, and a
  thread that resolves a handle gets it at once.
* Reading a name that is bound to the cell yields a handle of it, or what it is settled with.  And a
  thread that resolves a handle comes to what the cell is settled with, unless it is refused because the
  evaluation resolves the cell itself.
* As long as nothing is defined, names are bound as they were, and are read as they were unless the cell
  that they are bound to has been settled.
* If no name is bound to the cell, then no name will be, and whatever happens to the cell changes nothing
  that any name resolves to. -/
theorem handle_isolated {start : System} (hstart : start.Fresh)
    (hbefore : Execution host start log first)
    (hcell : first.store.cells[cell]? = some ⟨name, .pending work⟩)
    (hlater : Later host first system) :
    (∀ result, system.store.cells[cell]? = some ⟨name, .settled result⟩ →
      CameTo host first cell work result system ∧
        (∀ last, Later host system last →
          last.store.cells[cell]? = some ⟨name, .settled result⟩) ∧
        ∀ thread stack evaluation,
          system.threads thread = .working (.resume (.binding cell)) stack evaluation →
            ∃ last, ComesTo host thread stack system result last) ∧
    (∀ scope sought frame, system.store.owner? scope sought = some (frame, .lazy cell) →
      system.store.get scope sought = .ok (.suspended (.binding cell)) ∨
        ∃ value, system.store.cells[cell]? = some ⟨name, .settled (.ok value)⟩ ∧
          system.store.get scope sought = .ok value) ∧
    (∀ thread stack evaluation result last,
      system.threads thread = .working (.resume (.binding cell)) stack evaluation →
      ComesTo host thread stack system result last →
        last.store.cells[cell]? = some ⟨name, .settled result⟩ ∨
          result = .error (Cell.selfDependence name) ∧
            ∃ middle content, Pursuit host thread stack system middle ∧
              middle.store.cells[cell]? = some content ∧ content.ResolvedBy evaluation) ∧
    (∀ last, Calmly host system last → ∀ scope sought,
      last.store.owner? scope sought = system.store.owner? scope sought ∧
        (last.store.get scope sought = system.store.get scope sought ∨
          ∃ frame id, system.store.owner? scope sought = some (frame, .lazy id) ∧
            Settles system.store last.store id)) ∧
    (Unbound system.store cell → ∀ last, Growing host system last →
      Unbound last.store cell ∧
        ∀ entries next, Step host last entries next →
          next.store.cells[cell]? ≠ last.store.cells[cell]? →
            ∀ scope sought, last.store.SameAt next.store scope sought) := by
  have hfirst := sound_of_execution (sound_of_fresh hstart) hbefore
  have hfate : ∀ {last : System}, Later host system last →
      Fate host first cell name work last ∧ ∃ later, Sound last later :=
    fun hlast => fate_of_later hfirst hcell (hlater.trans hlast)
  obtain ⟨hnow, later, hsound⟩ := hfate (.refl host system)
  refine ⟨?_, ?_, ?_, ?_, ?_⟩
  · intro result hsettled
    refine ⟨?_, fun last hlast => ?_, fun _ _ _ => comesTo_of_settled hsettled⟩
    · cases hnow with
      | settled hown hcame =>
          cases hsettled.symm.trans hown
          exact hcame
      | pending hopen | started hopen | demanded hopen | left hopen =>
          cases hsettled.symm.trans hopen
    · obtain ⟨_, hexecution⟩ := hlast
      exact (settled_of_execution hsound hexecution hsettled).1
  · intro scope sought frame howner
    refine (get_of_bound howner).imp_right ?_
    rintro ⟨bound, value, hsettled, hget⟩
    obtain rfl : bound = name := hnow.name_eq hsettled
    exact ⟨value, hsettled, hget⟩
  · intro thread stack evaluation result last hdemand hcomes
    have hwants : (system.threads thread).Wants cell stack evaluation := hdemand ▸ .demands
    obtain ⟨middle, hpursuit, ⟨bound, hsettled⟩ | ⟨content, hcontent, hresolved, rfl⟩⟩ :=
      comesTo_of_demand hsound hwants hcomes
    · obtain rfl : bound = name := (hfate hcomes.later).1.name_eq hsettled
      exact .inl hsettled
    · obtain rfl : content.name = name := (hfate hpursuit.later).1.name_eq hcontent
      exact .inr ⟨rfl, middle, content, hpursuit, hcontent, hresolved⟩
  · intro last hcalm scope sought
    obtain ⟨-, -, howner, hget⟩ := calm_of_run hsound hcalm
    exact ⟨howner scope sought, hget scope sought⟩
  · intro hunbound last hgrowing
    have hmade : cell < system.store.cells.size := by
      cases hnow with
      | pending hown | started hown | demanded hown | left hown | settled hown =>
          exact (Array.getElem?_eq_some_iff.mp hown).1
    obtain ⟨hlt, hnone⟩ := unbound_of_growing hmade hunbound hgrowing
    obtain ⟨-, _, hlast⟩ := hfate (later_of_growing hgrowing)
    exact ⟨hnone, fun entries next hstep => sameAt_of_unbound hlast hlt hnone hstep⟩

/-- A thread goes on with a demand that begins pending work. -/
theorem Execution.demand {start : System} {state state' : State}
    (h : Execution host start log system) (hat : system.At thread state)
    (hcontrol : state.control = .resume (.binding cell))
    (hcell : state.store.cells[cell]? = some ⟨name, .pending work⟩)
    (hnext : Machine.step host state = .next state')
    (hworkers : state'.store.workers = state.store.workers) :
    Execution host start (log ++ entriesOf state state')
      (system.put thread (activityOf state') state'.store) := by
  refine h.step (.turn (.think hat hnext ?_ (not_hires hworkers)))
  rintro worker ⟨other, _, _, hother, hclaim⟩
  cases hcontrol.symm.trans hother
  rw [Store.claim_of_pending hcell] at hclaim
  cases hclaim

/-- `x` is bound to work that comes to one, and then to two.  The handle of the first binding comes to one
all the same. -/
theorem handle_isolated_redefined :
    ∃ first system, Execution Host.standard ⟨Store.base, fun _ => .idle⟩ [] first ∧
      first.store.cells[0]? = some ⟨"x", .pending (.given none (.ok (.int 1)))⟩ ∧
      Later .standard first system ∧ system.store.get .base "x" = .ok (.int 2) ∧
      CameTo .standard first 0 (.given none (.ok (.int 1))) (.ok (.int 1)) system := by
  let script : Script Value :=
    .ask (.bindLazy .base "x" (.given none (.ok (.int 1)))) fun _ =>
      .ask (.bind .base "x" (.int 2)) fun _ => .done (.ok .nil)
  have hstart : System.Fresh ⟨Store.base, fun _ => .idle⟩ := ⟨rfl, fun _ => rfl⟩
  have hbegun : Execution Host.standard ⟨Store.base, fun _ => .idle⟩ [] _ :=
    Execution.refl.still (.begin (.inl rfl) (.script script .base) rfl rfl)
  have hbound := hbegun.think (show System.At _ 0 ⟨_, _, _, _⟩ from ⟨rfl, rfl⟩) rfl rfl
    fun _ heq => by cases heq
  -- From here on the name is bound again, and the handle is resolved.
  have hfrom : ∀ {log : Log} {system : System},
      Execution Host.standard ⟨Store.base, fun _ => .idle⟩ log system →
        Execution Host.standard system [] system := fun _ => .refl
  have hagain := (hfrom hbound).think (show System.At _ 0 ⟨_, _, _, _⟩ from ⟨rfl, rfl⟩) rfl rfl
    fun _ heq => by cases heq
  have hdone := hagain.still
    (.turn (.halt (show System.At _ 0 ⟨_, _, _, _⟩ from ⟨rfl, rfl⟩) rfl))
  have hforced := hdone.force (.inr ⟨_, rfl⟩) (.binding 0)
  have hdemanded := hforced.think (show System.At _ 0 ⟨_, _, _, _⟩ from ⟨rfl, rfl⟩) rfl rfl
    fun _ heq => by cases heq
  have hentered := hdemanded.demand (show System.At _ 0 ⟨_, _, _, _⟩ from ⟨rfl, rfl⟩) rfl rfl rfl
    rfl
  have hsettled := hentered.advance (show System.At _ 0 ⟨_, _, _, _⟩ from ⟨rfl, rfl⟩)
    (show Async.advance _ 4 _ = some ⟨_, _, _, _⟩ from rfl)
  refine ⟨_, _, hbound, rfl, ⟨_, hsettled⟩, rfl, ?_⟩
  exact ((handle_isolated hstart hbound rfl ⟨_, hsettled⟩).1 _ rfl).1

end Async
end LazyLisp
