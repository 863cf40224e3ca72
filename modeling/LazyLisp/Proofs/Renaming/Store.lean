import LazyLisp.Proofs.Lockstep.Store
import LazyLisp.Proofs.Renaming.Frame
import Mathlib.Algebra.Group.End

/-!
# Store — stores that differ in the names of cells

Programs cannot tell which number a cell has in the store.  Two stores are the same *up to renaming*
if one permutation of cells carries everything in the one store over to the other: a frame binds the
same names on both sides, and a cell is in the same state as the cell that it is renamed to.  Cells
that are not there yet keep their names, so cells that are made later have the same names on both
sides.  This file defines:

* `Store.linkBy`, how the frames and cells of a store correspond under a permutation of cells;
* `Store.Renamed`, stores that are the same up to renaming;
* `Value.Within` and `Scope.Within`, what refers to nothing but the frames and cells of a store;
* `Store.Closed`, a store in which everything refers to nothing but the store itself.

Main results: `Store.Renamed.answer`, `Store.Renamed.claim` and `Store.Renamed.settle`, that the
operations of the store go on alike; `Store.Renamed.comp`, one renaming after the other;
`Store.closed_iff_renamed`, that a closed store is the same as itself; and `Store.base_closed`.
-/

namespace LazyLisp

variable {π ρ : Equiv.Perm CellId}

/-! ## Links by renaming -/

/-- Frames correspond to themselves, and cells to what they are renamed to, as far as the store has
them. -/
def Store.linkBy (π : Equiv.Perm CellId) (store : Store) : Link :=
  ⟨fun (frame frame' : Nat) => frame = frame' ∧ frame < store.frames.size,
    fun (cell cell' : Nat) => π cell = cell' ∧ cell < store.cells.size⟩

theorem Store.linkBy_le {store later : Store} (hframes : store.frames.size ≤ later.frames.size)
    (hcells : store.cells.size ≤ later.cells.size) : store.linkBy π ≤ later.linkBy π :=
  ⟨fun _ _ h => ⟨h.1, Nat.lt_of_lt_of_le h.2 hframes⟩,
    fun _ _ h => ⟨h.1, Nat.lt_of_lt_of_le h.2 hcells⟩⟩

/-- If nothing in the store is renamed, everything in it corresponds to itself. -/
theorem Store.link_le_linkBy {store : Store} (hfixed : ∀ id < store.cells.size, π id = id) :
    store.link ≤ store.linkBy π :=
  ⟨fun _ _ h => h, fun cell _ h => ⟨(hfixed cell h.2).trans h.1, h.2⟩⟩

theorem Scope.Alike.eq_of_linkBy {store : Store} {scope scope' : Scope}
    (h : scope.Alike (store.linkBy π) scope') : scope = scope' := by
  have hframes : ∀ frame frame', (store.linkBy π).frames frame frame' → frame = frame' :=
    fun _ _ hframe => hframe.1
  exact Scope.Alike.eq ⟨hframes _ _ h.1, h.2.imp hframes⟩

/-! ## Stores -/

/-- The same frames, cells that are the same under other names, and the same of everything else. -/
structure Store.Renamed (π : Equiv.Perm CellId) (store store' : Store) : Prop where
  frames : Entrywise (Frame.Agrees (store.linkBy π)) store.frames store'.frames
  cells : ∀ id : Nat,
    Option.Rel (Cell.Corresponds .exact (store.linkBy π)) store.cells[id]? store'.cells[π id]?
  size : store.cells.size = store'.cells.size
  /-- Cells that are not there yet keep their names. -/
  fresh : ∀ id : Nat, store.cells.size ≤ id → π id = id
  workers : store.workers = store'.workers
  output : store.output = store'.output
  world : store.world = store'.world

namespace Store

variable {store store' store'' : Store}

/-! ### How stores grow -/

theorem linkBy_modifyFrame (store : Store) (id : FrameId) (change : Frame → Frame) :
    (store.modifyFrame id change).linkBy π = store.linkBy π := by
  simp [linkBy, modifyFrame]

theorem linkBy_modifyCell (store : Store) (id : CellId) (change : Cell → Cell) :
    (store.modifyCell id change).linkBy π = store.linkBy π := by
  simp [linkBy, modifyCell]

theorem linkBy_le_child (store : Store) (outer : Scope) :
    store.linkBy π ≤ (store.child outer).2.linkBy π :=
  linkBy_le (by simp [child]) le_rfl

theorem linkBy_le_setLazy (store : Store) (scope : Scope) (name : String) (work : Suspension) :
    store.linkBy π ≤ (store.setLazy scope name work).2.linkBy π :=
  linkBy_le (by rw [size_setLazy]) (by simp [cells_setLazy])

theorem linkBy_startAsync (store : Store) (scope : Scope) (name : String) :
    (store.startAsync scope name).2.linkBy π = store.linkBy π := by
  simp only [startAsync_by_owner]
  split
  · exact linkBy_modifyCell _ _ _
  · rfl
  · rfl

theorem linkBy_delete (store : Store) (scope : Scope) (name : String) :
    (store.delete scope name).2.linkBy π = store.linkBy π := by
  simp only [delete_by_owner]
  split
  · exact linkBy_modifyFrame _ _ _
  · rfl

theorem linkBy_claim (store : Store) (me : EvaluationId) (id : CellId) :
    (store.claim me id).2.linkBy π = store.linkBy π := by
  simp only [claim]
  split
  · exact linkBy_modifyCell _ _ _
  · rfl

/-- A request may add to a store, but takes nothing away. -/
theorem linkBy_le_answer (store : Store) (request : Request) :
    store.linkBy π ≤ (store.answer request).2.linkBy π := by
  cases request with
  | openScope outer => exact linkBy_le_child store outer
  | bindLazy scope name work => exact linkBy_le_setLazy store scope name work
  | bind scope name value => exact (linkBy_modifyFrame store _ _).ge
  | unbind scope name => exact (linkBy_delete store scope name).ge
  | start scope name => exact (linkBy_startAsync store scope name).ge
  | lookup | print | pause | environmentVariable | clock | tally => exact le_rfl

namespace Renamed

/-! ### Changes of frames and cells -/

theorem modifyFrame (h : store.Renamed π store') (id : FrameId) {change change' : Frame → Frame}
    (hchange : ∀ frame frame' : Frame, frame.Agrees (store.linkBy π) frame' →
      (change frame).Agrees (store.linkBy π) (change' frame')) :
    (store.modifyFrame id change).Renamed π (store'.modifyFrame id change') where
  __ := h
  frames := by
    rw [linkBy_modifyFrame]
    exact h.frames.modify id hchange
  cells := by
    rw [linkBy_modifyFrame]
    exact h.cells

theorem modifyCell (h : store.Renamed π store') (id : CellId) {change change' : Cell → Cell}
    (hchange : ∀ cell cell', cell.Corresponds .exact (store.linkBy π) cell' →
      (change cell).Corresponds .exact (store.linkBy π) (change' cell')) :
    (store.modifyCell id change).Renamed π (store'.modifyCell (π id) change') where
  __ := h
  frames := by
    rw [linkBy_modifyCell]
    exact h.frames
  cells := by
    rw [linkBy_modifyCell]
    intro other
    have hcell := h.cells other
    -- The one cell is changed exactly if the other one is.
    simp only [Store.modifyCell, Array.getElem?_modify, π.injective.eq_iff]
    split
    · exact optionRel_map hchange hcell
    · exact hcell
  size := by simpa [Store.modifyCell] using h.size
  fresh := by simpa [Store.modifyCell] using h.fresh

/-- A new cell is added on both sides, under the same name. -/
theorem pushCell (h : store.Renamed π store') {cell cell' : Cell}
    (hcell : cell.Corresponds .exact (store.linkBy π) cell') :
    Renamed π { store with cells := store.cells.push cell }
      { store' with cells := store'.cells.push cell' } := by
  have hle : store.linkBy π ≤
      Store.linkBy π { store with cells := store.cells.push cell } :=
    linkBy_le le_rfl (by simp)
  have hlast : π store.cells.size = store'.cells.size := (h.fresh _ le_rfl).trans h.size
  have hnew : ∀ id : Nat, π id = store'.cells.size ↔ id = store.cells.size := by
    intro id
    rw [← hlast, π.injective.eq_iff]
  refine { h with frames := fun id => ?_, cells := fun id => ?_, size := ?_, fresh := ?_ }
  · exact optionRel_imp (fun _ _ hframe => hframe.mono hle) (h.frames id)
  · simp only [Array.getElem?_push, hnew]
    split
    · exact .some (hcell.mono hle)
    · exact optionRel_imp (fun _ _ hcell => hcell.mono hle) (h.cells id)
  · simp [h.size]
  · intro id hid
    rw [Array.size_push] at hid
    exact h.fresh id (Nat.le_of_succ_le hid)

/-! ### Lookups -/

theorem frame (h : store.Renamed π store') (frame frame' : FrameId)
    (hframe : (store.linkBy π).frames frame frame') :
    (store.frame frame).Agrees (store.linkBy π) (store'.frame frame') := by
  rw [← hframe.1]
  exact h.frames.getD frame .nil

/-- A name has the same owner in both stores, and is bound to alike things. -/
theorem owner? (h : store.Renamed π store') {scope scope' : Scope}
    (hscope : scope.Alike (store.linkBy π) scope') (name : String) :
    Option.Rel (fun owner owner' => (store.linkBy π).frames owner.1 owner'.1 ∧
        owner.2.Alike .exact (store.linkBy π) owner'.2)
      (store.owner? scope name) (store'.owner? scope' name) :=
  owner?_alike name (fun frame frame' hframe => h.frame frame frame' hframe name) hscope

theorem get (h : store.Renamed π store') {scope scope' : Scope}
    (hscope : scope.Alike (store.linkBy π) scope') (name : String) :
    Except.Alike .exact (Value.StepAlike .exact (store.linkBy π)) (store.get scope name)
      (store'.get scope' name) := by
  refine get_alike name (fun frame frame' hframe => h.frame frame frame' hframe name)
    (fun cell cell' hcell => ?_) hscope
  rw [← hcell.1]
  exact optionRel_bind (fun _ _ hcell => hcell.value?) (h.cells cell)

/-! ### Requests -/

theorem child (h : store.Renamed π store') {outer : Scope}
    (houter : outer.Alike (store.linkBy π) outer) :
    Scope.Alike ((store.child outer).2.linkBy π) (store.child outer).1 (store'.child outer).1 ∧
      (store.child outer).2.Renamed π (store'.child outer).2 := by
  have hle : store.linkBy π ≤ (store.child outer).2.linkBy π := linkBy_le_child store outer
  have hsize := h.frames.size_eq
  have hinner := houter.mono hle
  refine ⟨⟨⟨hsize, by simp [Store.child]⟩, .cons hinner.1 hinner.2⟩, ?_⟩
  have hframes : Entrywise (Frame.Agrees ((store.child outer).2.linkBy π)) store.frames
      store'.frames := fun id => optionRel_imp (fun _ _ hframe => hframe.mono hle) (h.frames id)
  exact
    { h with
      frames := hframes.push .nil
      cells := fun id => optionRel_imp (fun _ _ hcell => hcell.mono hle) (h.cells id) }

theorem set (h : store.Renamed π store') (scope : Scope) (name : String) {value value' : Value}
    (hvalue : value.Alike .exact (store.linkBy π) value') :
    (store.set scope name value).Renamed π (store'.set scope name value') :=
  h.modifyFrame _ fun _ _ hframe => hframe.insert name (.value hvalue)

theorem setLazy (h : store.Renamed π store') (scope : Scope) (name : String)
    {work work' : Suspension} (hwork : work.Alike .exact (store.linkBy π) work') :
    ((store.setLazy scope name work).2.linkBy π).cells (store.setLazy scope name work).1
        (store'.setLazy scope name work').1 ∧
      (store.setLazy scope name work).2.Renamed π (store'.setLazy scope name work').2 := by
  have hnew : π store.cells.size = store'.cells.size := (h.fresh _ le_rfl).trans h.size
  have hlt : store.cells.size < (store.setLazy scope name work).2.cells.size := by
    simp [cells_setLazy]
  have hcell : Cell.Corresponds .exact (store.linkBy π) ⟨name, .pending work⟩ ⟨name, .pending work'⟩ :=
    ⟨rfl, .pending hwork⟩
  have hpushed := h.pushCell hcell
  refine ⟨⟨hnew, hlt⟩, hpushed.modifyFrame scope.frame fun _ _ hframe => ?_⟩
  exact hframe.insert name (.lazy ⟨hnew, hlt⟩)

theorem delete (h : store.Renamed π store') {scope : Scope}
    (hscope : scope.Alike (store.linkBy π) scope) (name : String) :
    Except.Alike .exact Eq (store.delete scope name).1 (store'.delete scope name).1 ∧
      (store.delete scope name).2.Renamed π (store'.delete scope name).2 := by
  have howner := h.owner? hscope name
  simp only [Store.delete_by_owner]
  generalize store.owner? scope name = owner at howner ⊢
  generalize store'.owner? scope name = owner' at howner ⊢
  cases howner with
  | @some owner owner' howner =>
      rcases owner with ⟨id, binding⟩
      rcases owner' with ⟨id', binding'⟩
      cases howner.1.1
      exact ⟨.ok rfl, h.modifyFrame id fun _ _ hframe => hframe.erase name⟩
  | none => exact ⟨.error (Failure.alike_refl _), h⟩

theorem startAsync (h : store.Renamed π store') {scope : Scope}
    (hscope : scope.Alike (store.linkBy π) scope) (name : String) :
    Except.Alike .exact Eq (store.startAsync scope name).1 (store'.startAsync scope name).1 ∧
      (store.startAsync scope name).2.Renamed π (store'.startAsync scope name).2 := by
  have howner := h.owner? hscope name
  have hworkers := h.workers
  simp only [Store.startAsync_by_owner]
  generalize store.owner? scope name = owner at howner ⊢
  generalize store'.owner? scope name = owner' at howner ⊢
  cases howner with
  | @some owner owner' howner =>
      rcases owner with ⟨id, binding⟩
      rcases owner' with ⟨id', binding'⟩
      cases howner.2 with
      | value _ => exact ⟨.ok rfl, h⟩
      | lazy hcell =>
          cases hcell.1
          have hcounted : Renamed π { store with workers := store.workers + 1 }
              { store' with workers := store'.workers + 1 } :=
            { h with workers := congrArg (· + 1) hworkers }
          refine ⟨.ok rfl, hcounted.modifyCell _ fun _ _ hcell => ?_⟩
          rw [hworkers]
          exact hcell.start _
  | none => exact ⟨.error (Failure.alike_refl _), h⟩

/-- Alike requests are answered alike, and leave stores that are the same up to renaming. -/
theorem answer (h : store.Renamed π store') {request request' : Request}
    (hrequest : request.Alike .exact (store.linkBy π) request') :
    Request.AnswerAlike .exact ((store.answer request).2.linkBy π) request request'
        (store.answer request).1 (store'.answer request').1 ∧
      (store.answer request).2.Renamed π (store'.answer request').2 := by
  have hworld := h.world
  cases hrequest with
  | lookup name hscope =>
      cases hscope.eq_of_linkBy
      exact ⟨h.get hscope name, h⟩
  | openScope houter =>
      cases houter.eq_of_linkBy
      exact h.child houter
  | bind name hscope hvalue =>
      cases hscope.eq_of_linkBy
      exact ⟨trivial, h.set _ name hvalue⟩
  | bindLazy name hscope hwork =>
      cases hscope.eq_of_linkBy
      exact h.setLazy _ name hwork
  | unbind name hscope =>
      cases hscope.eq_of_linkBy
      exact h.delete hscope name
  | start name hscope =>
      cases hscope.eq_of_linkBy
      exact h.startAsync hscope name
  | print line => exact ⟨trivial, { h with output := congrArg (· ++ line ++ "\n") h.output }⟩
  | pause milliseconds =>
      have hlater : ({ store.world with clock := store.world.clock + milliseconds } : World) =
          { store'.world with clock := store'.world.clock + milliseconds } := by rw [hworld]
      exact ⟨trivial, { h with world := hlater }⟩
  | environmentVariable name =>
      refine ⟨?_, h⟩
      simp only [Request.AnswerAlike, Store.answer, hworld]
  | clock => exact ⟨congrArg World.clock hworld, h⟩
  | tally =>
      have hcounted : store.world.tally + 1 = store'.world.tally + 1 := by rw [hworld]
      have hlater : ({ store.world with tally := store.world.tally + 1 } : World) =
          { store'.world with tally := store'.world.tally + 1 } := by rw [hworld]
      exact ⟨hcounted, { h with world := hlater }⟩

/-! ### Demands -/

/-- Demands for a cell and for the one that it is renamed to come to alike things. -/
theorem claim (h : store.Renamed π store') (me : EvaluationId) (id : CellId) :
    (store.claim me id).1.Corresponds .exact (store.linkBy π) (store'.claim me (π id)).1 ∧
      (store.claim me id).2.Renamed π (store'.claim me (π id)).2 := by
  have hcell := h.cells id
  have hmodified := h.modifyCell id fun _ _ hcell => (hcell.claim me).2
  simp only [Store.claim]
  generalize store.cells[id]? = cell at hcell ⊢
  generalize store'.cells[π id]? = cell' at hcell ⊢
  cases hcell with
  | some hcell => exact ⟨(hcell.claim me).1, hmodified⟩
  | none => exact ⟨.wait, h⟩

theorem settle (h : store.Renamed π store') (id : CellId) {result result' : Result}
    (hresult : Result.Alike .exact (store.linkBy π) result result') :
    (store.settle id result).Renamed π (store'.settle (π id) result') :=
  h.modifyCell id fun _ _ hcell => hcell.settle hresult

/-! ### One renaming after the other -/

theorem comp (h : store.Renamed π store') (h' : store'.Renamed ρ store'') :
    store.Renamed (ρ * π) store'' := by
  have hsize := h.frames.size_eq
  have hle : (store.linkBy π).comp (store'.linkBy ρ) ≤ store.linkBy (ρ * π) := by
    refine ⟨fun frame frame'' hframe => ?_, fun cell cell'' hcell => ?_⟩
    · rcases hframe with ⟨frame', hfirst, hsecond⟩
      exact ⟨hfirst.1.trans hsecond.1, hfirst.2⟩
    · rcases hcell with ⟨cell', hfirst, hsecond⟩
      exact ⟨(congrArg ρ hfirst.1).trans hsecond.1, hfirst.2⟩
  refine ⟨fun id => ?_, fun id => ?_, h.size.trans h'.size, fun id hid => ?_,
    h.workers.trans h'.workers, h.output.trans h'.output, h.world.trans h'.world⟩
  · exact optionRel_comp (fun _ _ _ hfirst hsecond => (hfirst.comp hsecond).mono hle)
      (h.frames id) (h'.frames id)
  · exact optionRel_comp (fun _ _ _ hfirst hsecond => (hfirst.comp hsecond).mono hle)
      (h.cells id) (h'.cells (π id))
  · rw [Equiv.Perm.mul_apply, h.fresh id hid, h'.fresh id (h.size ▸ hid)]

end Renamed

/-! ## Closed stores -/

end Store

/-- Everything that the value refers to is in the store. -/
abbrev Value.Within (store : Store) (value : Value) : Prop :=
  value.Alike .exact store.link value

/-- All frames of the scope are in the store. -/
abbrev Scope.Within (store : Store) (scope : Scope) : Prop :=
  scope.Alike store.link scope

namespace Store

variable {store : Store}

/-- Everything that the store holds refers to frames and cells of the store. -/
structure Closed (store : Store) : Prop where
  frames : ∀ frame ∈ store.frames, frame.Agrees store.link frame
  cells : ∀ cell ∈ store.cells, cell.Corresponds .exact store.link cell

/-- A closed store is the same as itself, and no other store is. -/
theorem closed_iff_renamed : store.Closed ↔ store.Renamed 1 store := by
  constructor
  · intro h
    refine ⟨fun id => ?_, fun id => ?_, rfl, fun _ _ => rfl, rfl, rfl, rfl⟩
    · cases hframe : store.frames[id]? with
      | none => exact .none
      | some frame => exact .some (h.frames frame (Array.mem_of_getElem? hframe))
    · rw [Equiv.Perm.one_apply]
      cases hcell : store.cells[id]? with
      | none => exact .none
      | some cell => exact .some (h.cells cell (Array.mem_of_getElem? hcell))
  · intro h
    refine ⟨fun frame hmem => ?_, fun cell hmem => ?_⟩
    · rcases Array.mem_iff_getElem?.mp hmem with ⟨id, hframe⟩
      have hself := h.frames id
      rw [hframe] at hself
      cases hself with
      | some hself => exact hself
    · rcases Array.mem_iff_getElem?.mp hmem with ⟨id, hcell⟩
      have hself := h.cells id
      rw [Equiv.Perm.one_apply, hcell] at hself
      cases hself with
      | some hself => exact hself

theorem Closed.child (h : store.Closed) {outer : Scope} (houter : outer.Within store) :
    (store.child outer).1.Within (store.child outer).2 ∧ (store.child outer).2.Closed := by
  have hchild := (closed_iff_renamed.mp h).child houter
  exact ⟨hchild.1, closed_iff_renamed.mpr hchild.2⟩

theorem Closed.setLazy (h : store.Closed) (scope : Scope) (name : String) {work : Suspension}
    (hwork : work.Alike .exact store.link work) : (store.setLazy scope name work).2.Closed :=
  closed_iff_renamed.mpr ((closed_iff_renamed.mp h).setLazy scope name hwork).2

theorem base_closed : base.Closed := by
  refine ⟨fun frame hmem => ?_, fun cell hmem => ?_⟩
  · have hframe : frame = Builtin.frame := by simpa [base] using hmem
    subst hframe
    have halike : Frame.Alike .exact base.link Builtin.frame Builtin.frame :=
      Builtin.frame_alike fun _ _ => trivial
    exact halike.get?
  · simp [base] at hmem

end Store
end LazyLisp
