import LazyLisp.Proofs.Alike.Cell
import LazyLisp.Proofs.Alike.Same
import LazyLisp.Proofs.Alike.Store

/-!
# Store — stores that stay alike

Two evaluations that take the same steps make the same frames and the same cells, so their stores
can be compared entry by entry.  Such stores are *alike* if corresponding frames bind the same names
to alike things, corresponding cells are in alike states, and everything else is the same.  This
file defines:

* `Entrywise`, arrays with related entries at the same indices;
* `Cell.Alike` and `Claim.Alike`, for cells in whatever state and for what comes of a demand;
* `Store.Alike`.

Main results: `Store.Alike.answer`, `Store.Alike.claim` and `Store.Alike.settle`, that the
operations of the store give alike answers and leave alike stores, and `Store.base_alike`.
-/

namespace LazyLisp

variable {likeness : Likeness}

/-! ## Arrays -/

/-- Entries at the same indices are related, and where there is none in the one array, there is none
in the other. -/
def Entrywise {α : Type} (related : α → α → Prop) (entries entries' : Array α) : Prop :=
  ∀ id : Nat, Option.Rel related entries[id]? entries'[id]?

namespace Entrywise

variable {α : Type} {related : α → α → Prop} {entries entries' : Array α}

theorem none_iff (h : Entrywise related entries entries') (id : Nat) :
    entries[id]? = none ↔ entries'[id]? = none := by
  have hentry := h id
  generalize entries[id]? = entry at hentry ⊢
  generalize entries'[id]? = entry' at hentry ⊢
  cases hentry with
  | some _ => simp
  | none => simp

theorem size_eq (h : Entrywise related entries entries') : entries.size = entries'.size := by
  have hiff : ∀ id : Nat, entries.size ≤ id ↔ entries'.size ≤ id := by
    intro id
    simpa only [Array.getElem?_eq_none_iff] using h.none_iff id
  apply Nat.le_antisymm
  · exact (hiff entries'.size).mpr (Nat.le_refl _)
  · exact (hiff entries.size).mp (Nat.le_refl _)

theorem push (h : Entrywise related entries entries') {entry entry' : α}
    (hentry : related entry entry') :
    Entrywise related (entries.push entry) (entries'.push entry') := by
  intro id
  simp only [Array.getElem?_push, h.size_eq]
  split
  · exact .some hentry
  · exact h id

theorem modify (h : Entrywise related entries entries') (id : Nat) {change change' : α → α}
    (hchange : ∀ entry entry', related entry entry' → related (change entry) (change' entry')) :
    Entrywise related (entries.modify id change) (entries'.modify id change') := by
  intro other
  simp only [Array.getElem?_modify]
  split
  · exact optionRel_map hchange (h other)
  · exact h other

theorem getD (h : Entrywise related entries entries') (id : Nat) {default : α}
    (hdefault : related default default) :
    related (entries.getD id default) (entries'.getD id default) := by
  have hentry := h id
  simp only [Array.getD_eq_getD_getElem?]
  generalize entries[id]? = entry at hentry ⊢
  generalize entries'[id]? = entry' at hentry ⊢
  cases hentry with
  | some hentry => exact hentry
  | none => exact hdefault

end Entrywise

/-! ## Cells -/

inductive Cell.State.Alike (likeness : Likeness) : Cell.State → Cell.State → Prop where
  | pending {work work' : Suspension} :
      work.Alike likeness .same work' → Cell.State.Alike likeness (.pending work) (.pending work')
  | started (worker : EvaluationId) {work work' : Suspension} :
      work.Alike likeness .same work' →
        Cell.State.Alike likeness (.started worker work) (.started worker work')
  | running (owner : EvaluationId) (worker : Option EvaluationId) :
      Cell.State.Alike likeness (.running owner worker) (.running owner worker)
  | settled {result result' : Result} :
      Result.Alike likeness .same result result' →
        Cell.State.Alike likeness (.settled result) (.settled result')

/-- Cells of the same name in alike states. -/
structure Cell.Alike (likeness : Likeness) (cell cell' : Cell) : Prop where
  name : cell.name = cell'.name
  state : cell.state.Alike likeness cell'.state

inductive Claim.Alike (likeness : Likeness) : Claim → Claim → Prop where
  | settled {result result' : Result} :
      Result.Alike likeness .same result result' →
        Claim.Alike likeness (.settled result) (.settled result')
  | run {work work' : Suspension} (worker : Option EvaluationId) :
      work.Alike likeness .same work' →
        Claim.Alike likeness (.run work worker) (.run work' worker)
  | selfDependent (name : String) :
      Claim.Alike likeness (.selfDependent name) (.selfDependent name)
  | wait : Claim.Alike likeness .wait .wait

theorem Cell.alike_iff {cell cell' : Cell} :
    cell.Alike likeness cell' ↔ cell.Corresponds likeness .same cell' := by
  rcases cell with ⟨name, state⟩
  rcases cell' with ⟨name', state'⟩
  constructor
  · rintro ⟨hname, hstate⟩
    refine ⟨hname, ?_⟩
    cases hstate with
    | pending hwork => exact .pending hwork
    | started worker hwork => exact .started worker hwork
    | running owner worker => exact .running owner worker
    | settled hresult => exact .settled hresult
  · rintro ⟨hname, hstate⟩
    refine ⟨hname, ?_⟩
    cases hstate with
    | pending hwork => exact .pending hwork
    | started worker hwork => exact .started worker hwork
    | running owner worker => exact .running owner worker
    | settled hresult => exact .settled hresult

theorem Claim.Corresponds.alike {claim claim' : Claim}
    (h : claim.Corresponds likeness .same claim') : claim.Alike likeness claim' := by
  cases h with
  | settled hresult => exact .settled hresult
  | run worker hwork => exact .run worker hwork
  | selfDependent name => exact .selfDependent name
  | wait => exact .wait

namespace Cell.Alike

variable {cell cell' : Cell}

theorem value? (h : cell.Alike likeness cell') :
    Option.Rel (Value.Alike likeness .same) cell.value? cell'.value? :=
  (alike_iff.mp h).value?

theorem claim (me : EvaluationId) (h : cell.Alike likeness cell') :
    (cell.claim me).1.Alike likeness (cell'.claim me).1 ∧
      (cell.claim me).2.Alike likeness (cell'.claim me).2 := by
  have hclaim := (alike_iff.mp h).claim me
  exact ⟨hclaim.1.alike, alike_iff.mpr hclaim.2⟩

theorem start (worker : EvaluationId) (h : cell.Alike likeness cell') :
    (cell.start worker).Alike likeness (cell'.start worker) :=
  alike_iff.mpr ((alike_iff.mp h).start worker)

theorem settle {result result' : Result} (hresult : Result.Alike likeness .same result result')
    (h : cell.Alike likeness cell') :
    (cell.settle result).Alike likeness (cell'.settle result') :=
  ⟨h.name, .settled hresult⟩

end Cell.Alike

/-! ## Stores -/

/-- The same frames and cells with alike contents, and the same of everything else. -/
structure Store.Alike (likeness : Likeness) (store store' : Store) : Prop where
  frames : Entrywise (Frame.Alike likeness .same) store.frames store'.frames
  cells : Entrywise (Cell.Alike likeness) store.cells store'.cells
  workers : store.workers = store'.workers
  output : store.output = store'.output
  world : store.world = store'.world

namespace Store.Alike

variable {store store' : Store}

theorem frame (h : store.Alike likeness store') (id : FrameId) :
    (store.frame id).Alike likeness .same (store'.frame id) :=
  h.frames.getD id .nil

theorem modifyFrame (h : store.Alike likeness store') (id : FrameId)
    {change change' : Frame → Frame}
    (hchange : ∀ frame frame' : Frame, frame.Alike likeness .same frame' →
      (change frame).Alike likeness .same (change' frame')) :
    (store.modifyFrame id change).Alike likeness (store'.modifyFrame id change') :=
  { h with frames := h.frames.modify id hchange }

theorem modifyCell (h : store.Alike likeness store') (id : CellId) {change change' : Cell → Cell}
    (hchange : ∀ cell cell', cell.Alike likeness cell' →
      (change cell).Alike likeness (change' cell')) :
    (store.modifyCell id change).Alike likeness (store'.modifyCell id change') :=
  { h with cells := h.cells.modify id hchange }

/-! ### Lookups -/

/-- A name has the same owner in both stores, and is bound to alike things. -/
theorem owner? (h : store.Alike likeness store') (scope : Scope) (name : String) :
    Option.Rel (fun owner owner' => owner.1 = owner'.1 ∧ owner.2.Alike likeness .same owner'.2)
      (store.owner? scope name) (store'.owner? scope name) := by
  refine Store.owner?_alike name (fun frame frame' hframe => ?_) (Scope.alike_same scope)
  cases hframe
  exact (h.frame frame).get? name

theorem get (h : store.Alike likeness store') (scope : Scope) (name : String) :
    Except.Alike likeness (Value.StepAlike likeness .same) (store.get scope name)
      (store'.get scope name) := by
  refine Store.get_alike name (fun frame frame' hframe => ?_) (fun cell cell' hcell => ?_)
    (Scope.alike_same scope)
  · cases hframe
    exact (h.frame frame).get? name
  · cases hcell
    exact optionRel_bind (fun _ _ hcell => hcell.value?) (h.cells cell)

/-! ### Changes -/

theorem child (h : store.Alike likeness store') (outer : Scope) :
    (store.child outer).1 = (store'.child outer).1 ∧
      (store.child outer).2.Alike likeness (store'.child outer).2 := by
  have hsize := h.frames.size_eq
  refine ⟨?_, { h with frames := h.frames.push .nil }⟩
  simp only [Store.child, hsize]

theorem set (h : store.Alike likeness store') (scope : Scope) (name : String) {value value' : Value}
    (hvalue : value.Alike likeness .same value') :
    (store.set scope name value).Alike likeness (store'.set scope name value') :=
  h.modifyFrame _ fun _ _ hframe => hframe.insert name (.value hvalue)

theorem setLazy (h : store.Alike likeness store') (scope : Scope) (name : String)
    {work work' : Suspension} (hwork : work.Alike likeness .same work') :
    (store.setLazy scope name work).1 = (store'.setLazy scope name work').1 ∧
      (store.setLazy scope name work).2.Alike likeness (store'.setLazy scope name work').2 := by
  have hsize := h.cells.size_eq
  have hcells : Store.Alike likeness
      { store with cells := store.cells.push ⟨name, .pending work⟩ }
      { store' with cells := store'.cells.push ⟨name, .pending work'⟩ } :=
    { h with cells := h.cells.push ⟨rfl, .pending hwork⟩ }
  refine ⟨hsize, ?_⟩
  exact hcells.modifyFrame _ fun _ _ hframe => hframe.insert name (.lazy hsize)

theorem delete (h : store.Alike likeness store') (scope : Scope) (name : String) :
    Except.Alike likeness Eq (store.delete scope name).1 (store'.delete scope name).1 ∧
      (store.delete scope name).2.Alike likeness (store'.delete scope name).2 := by
  have howner := h.owner? scope name
  simp only [Store.delete_by_owner]
  generalize store.owner? scope name = owner at howner ⊢
  generalize store'.owner? scope name = owner' at howner ⊢
  cases howner with
  | @some owner owner' howner =>
      rcases owner with ⟨id, binding⟩
      rcases owner' with ⟨id', binding'⟩
      cases howner.1
      exact ⟨.ok rfl, h.modifyFrame id fun _ _ hframe => hframe.erase name⟩
  | none => exact ⟨.error (Failure.alike_refl _), h⟩

theorem startAsync (h : store.Alike likeness store') (scope : Scope) (name : String) :
    Except.Alike likeness Eq (store.startAsync scope name).1 (store'.startAsync scope name).1 ∧
      (store.startAsync scope name).2.Alike likeness (store'.startAsync scope name).2 := by
  have howner := h.owner? scope name
  have hworkers := h.workers
  simp only [Store.startAsync_by_owner]
  generalize store.owner? scope name = owner at howner ⊢
  generalize store'.owner? scope name = owner' at howner ⊢
  cases howner with
  | @some owner owner' howner =>
      rcases owner with ⟨id, binding⟩
      rcases owner' with ⟨id', binding'⟩
      cases howner.2 with
      | value _ => exact ⟨.ok rfl, h⟩
      | lazy hcell =>
          cases hcell
          have hcounted : Store.Alike likeness { store with workers := store.workers + 1 }
              { store' with workers := store'.workers + 1 } :=
            { h with workers := congrArg (· + 1) hworkers }
          refine ⟨.ok rfl, hcounted.modifyCell _ fun _ _ hcell => ?_⟩
          rw [hworkers]
          exact hcell.start _
  | none => exact ⟨.error (Failure.alike_refl _), h⟩

/-- Alike requests are answered alike, and leave alike stores. -/
theorem answer (h : store.Alike likeness store') {request request' : Request}
    (hrequest : request.Alike likeness .same request') :
    Request.AnswerAlike likeness .same request request' (store.answer request).1
        (store'.answer request').1 ∧
      (store.answer request).2.Alike likeness (store'.answer request').2 := by
  have hworld := h.world
  cases hrequest with
  | lookup name hscope =>
      cases hscope.eq
      exact ⟨h.get _ name, h⟩
  | @openScope outer outer' houter =>
      cases houter.eq
      have hchild := h.child outer
      refine ⟨?_, hchild.2⟩
      simp only [Store.answer, hchild.1]
      exact Scope.alike_same _
  | bind name hscope hvalue =>
      cases hscope.eq
      exact ⟨trivial, h.set _ name hvalue⟩
  | bindLazy name hscope hwork =>
      cases hscope.eq
      exact h.setLazy _ name hwork
  | unbind name hscope =>
      cases hscope.eq
      exact h.delete _ name
  | start name hscope =>
      cases hscope.eq
      exact h.startAsync _ name
  | print line => exact ⟨trivial, { h with output := congrArg (· ++ line ++ "\n") h.output }⟩
  | pause milliseconds =>
      have hlater : ({ store.world with clock := store.world.clock + milliseconds } : World) =
          { store'.world with clock := store'.world.clock + milliseconds } := by rw [hworld]
      exact ⟨trivial, { h with world := hlater }⟩
  | environmentVariable name =>
      refine ⟨?_, h⟩
      simp only [Request.AnswerAlike, Store.answer, hworld]
  | clock => exact ⟨congrArg World.clock hworld, h⟩
  | tally =>
      have hcounted : store.world.tally + 1 = store'.world.tally + 1 := by rw [hworld]
      have hlater : ({ store.world with tally := store.world.tally + 1 } : World) =
          { store'.world with tally := store'.world.tally + 1 } := by rw [hworld]
      exact ⟨hcounted, { h with world := hlater }⟩

/-- Demands for the same cell come to alike things, and leave alike stores. -/
theorem claim (h : store.Alike likeness store') (me : EvaluationId) (id : CellId) :
    (store.claim me id).1.Alike likeness (store'.claim me id).1 ∧
      (store.claim me id).2.Alike likeness (store'.claim me id).2 := by
  have hcell := h.cells id
  have hmodified := h.modifyCell id fun _ _ hcell => (hcell.claim me).2
  simp only [Store.claim]
  generalize store.cells[id]? = cell at hcell ⊢
  generalize store'.cells[id]? = cell' at hcell ⊢
  cases hcell with
  | some hcell => exact ⟨(hcell.claim me).1, hmodified⟩
  | none => exact ⟨.wait, h⟩

theorem settle (h : store.Alike likeness store') (id : CellId) {result result' : Result}
    (hresult : Result.Alike likeness .same result result') :
    (store.settle id result).Alike likeness (store'.settle id result') :=
  h.modifyCell id fun _ _ hcell => hcell.settle hresult

end Store.Alike

/-! ## Likeness to itself -/

theorem Entrywise.self {α : Type} {related : α → α → Prop} (h : ∀ entry, related entry entry)
    (entries : Array α) : Entrywise related entries entries := by
  intro id
  cases entries[id]? with
  | none => exact .none
  | some entry => exact .some (h entry)

section Same

variable [likeness.Unrestricted]

theorem Frame.alike_same (frame : Frame) : frame.Alike likeness .same frame := by
  refine List.forall₂_same.mpr fun entry _ => ⟨rfl, ?_⟩
  cases entry.2 with
  | value value => exact .value (Value.alike_same value)
  | lazy cell => exact .lazy rfl

theorem Cell.alike_same (cell : Cell) : cell.Alike likeness cell := by
  refine ⟨rfl, ?_⟩
  cases cell.state with
  | pending work => exact .pending (Suspension.alike_same work)
  | started worker work => exact .started worker (Suspension.alike_same work)
  | running owner worker => exact .running owner worker
  | settled result => exact .settled (Result.alike_same result)

theorem Store.alike_same (store : Store) : store.Alike likeness store where
  frames := .self Frame.alike_same store.frames
  cells := .self Cell.alike_same store.cells
  workers := rfl
  output := rfl
  world := rfl

end Same

/-! ## Where stores begin -/

/-- The builtins are alike themselves, if they may occur. -/
theorem Builtin.frame_alike {link : Link}
    (h : ∀ entry ∈ Builtin.table, likeness.operations entry.2) :
    Frame.Alike likeness link Builtin.frame Builtin.frame := by
  refine List.forall₂_same.mpr fun entry hmem => ⟨rfl, ?_⟩
  rcases List.mem_append.mp hmem with hconstant | hbuiltin
  · simp only [Builtin.constants, List.map_cons, List.map_nil, List.mem_cons, List.not_mem_nil,
      or_false] at hconstant
    rcases hconstant with rfl | rfl | rfl
    · exact .value .nil
    · exact .value (.bool true)
    · exact .value (.bool false)
  · rcases List.mem_map.mp hbuiltin with ⟨builtin, htable, rfl⟩
    exact .value (.func (.native (h builtin htable)))

theorem Store.base_alike (h : ∀ entry ∈ Builtin.table, likeness.operations entry.2) :
    Store.base.Alike likeness Store.base := by
  have hempty : Entrywise (Frame.Alike likeness .same) #[] #[] := fun _ => .none
  exact ⟨hempty.push (Builtin.frame_alike h), fun _ => .none, rfl, rfl, rfl⟩

end LazyLisp
