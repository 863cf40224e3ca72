import LazyLisp.Proofs.Machine.Effect
import Mathlib.Data.List.Infix

/-!
# Resolution — names are resolved along chains of frames

A scope is a chain of frames, and a name resolves to the binding in the first frame of the chain that
binds it.  Scopes share frames, a frame can bind a name that frames around it bind, and a binding that
is deleted leaves the one behind it to be seen again.  This file defines:

* `Store.GetsTo`, the frames that a lookup gets to;
* `Store.SameAt`, the names that resolve as before;
* `Forest`, the stores and scopes that come about by making scopes, changing their bindings and
  evaluating programs.

Main results: `Forest.grown`, that the scopes of a forest are chains that end in common or nowhere, and
`Forest.resolution`, what it means for names that a binding is made or deleted.
-/

namespace LazyLisp
namespace Store

variable {store later : Store} {scope : Scope} {name other : String} {id : FrameId}
  {ids : List FrameId} {change : Frame → Frame} {binding : Binding}

/-! ## Chains -/

/-- The binding of `name` in a frame. -/
def bindingIn (store : Store) (name : String) (id : FrameId) : Option Binding :=
  (store.frame id).get? name

/-- A lookup of `name` that goes through these frames gets to `id`: no nearer one binds the name. -/
def GetsTo (store : Store) (name : String) (ids : List FrameId) (id : FrameId) : Prop :=
  ∃ nearer farther, ids = nearer ++ id :: farther ∧
    ∀ frame ∈ nearer, store.bindingIn name frame = none

theorem GetsTo.head (store : Store) (name : String) (id : FrameId) (ids : List FrameId) :
    store.GetsTo name (id :: ids) id :=
  ⟨[], ids, rfl, fun _ hmem => nomatch hmem⟩

theorem GetsTo.cons {frame : FrameId} (hframe : store.bindingIn name frame = none)
    (h : store.GetsTo name ids id) : store.GetsTo name (frame :: ids) id := by
  obtain ⟨nearer, farther, rfl, hnearer⟩ := h
  exact ⟨frame :: nearer, farther, rfl, List.forall_mem_cons.mpr ⟨hframe, hnearer⟩⟩

theorem ownerAmong_cons (store : Store) (name : String) (id : FrameId) (ids : List FrameId) :
    store.ownerAmong name (id :: ids) =
      ((store.bindingIn name id).map (Prod.mk id)).or (store.ownerAmong name ids) := by
  rw [ownerAmong, bindingIn]
  split <;> next hbinding => simp [hbinding]

/-- Frames that do not bind the name are passed by. -/
theorem ownerAmong_append {nearer : List FrameId}
    (h : ∀ frame ∈ nearer, store.bindingIn name frame = none) (farther : List FrameId) :
    store.ownerAmong name (nearer ++ farther) = store.ownerAmong name farther := by
  induction nearer with
  | nil => rfl
  | cons frame nearer ih =>
      have hfirst := h frame List.mem_cons_self
      have hrest := ih fun frame hmem => h frame (List.mem_cons_of_mem _ hmem)
      rw [List.cons_append, ownerAmong_cons, hfirst, hrest]
      rfl

/-- A lookup gets to the owner of the name. -/
theorem getsTo_of_ownerAmong (h : store.ownerAmong name ids = some (id, binding)) :
    store.GetsTo name ids id ∧ store.bindingIn name id = some binding := by
  induction ids with
  | nil => cases h
  | cons frame ids ih =>
      rw [ownerAmong_cons] at h
      cases hframe : store.bindingIn name frame with
      | some bound =>
          rw [hframe] at h
          cases h
          exact ⟨.head _ _ _ _, hframe⟩
      | none =>
          rw [hframe] at h
          obtain ⟨⟨nearer, farther, rfl, hnearer⟩, hbinding⟩ := ih h
          exact ⟨.cons hframe ⟨nearer, farther, rfl, hnearer⟩, hbinding⟩

/-! ## Changes of a frame -/

theorem frame_modifyFrame (store : Store) (id : FrameId) (change : Frame → Frame)
    (frame : FrameId) :
    (store.modifyFrame id change).frame frame =
      if id = frame ∧ id < store.frames.size then change (store.frame id) else store.frame frame := by
  simp only [modifyFrame, Store.frame, Array.getD_eq_getD_getElem?, Array.getElem?_modify]
  by_cases heq : id = frame
  · subst heq
    by_cases hlt : id < store.frames.size
    · simp [hlt]
    · simp [hlt]
  · simp [heq]

/-- A change of what one frame binds one name to changes nothing for other names, nor for lookups that
do not get to the frame. -/
theorem ownerAmong_modifyFrame
    (hchange : ∀ (frame : Frame) (other : String), other ≠ name →
      (change frame).get? other = frame.get? other)
    (h : other = name → ¬ store.GetsTo name ids id) :
    (store.modifyFrame id change).ownerAmong other ids = store.ownerAmong other ids := by
  induction ids with
  | nil => rfl
  | cons frame ids ih =>
      have hsame : store.bindingIn other frame = (store.modifyFrame id change).bindingIn other frame := by
        rw [bindingIn, bindingIn, frame_modifyFrame]
        split
        · next heq =>
            obtain ⟨rfl, -⟩ := heq
            refine (hchange _ _ ?_).symm
            rintro rfl
            exact h rfl (.head _ _ _ _)
        · rfl
      rw [ownerAmong_cons, ownerAmong_cons, ← hsame]
      cases hbinding : store.bindingIn other frame with
      | some binding => rfl
      | none =>
          rw [ih]
          rintro rfl hgets
          exact h rfl (.cons hbinding hgets)

/-- A lookup that gets to a changed frame finds what the frame now binds the name to, or else looks
behind it. -/
theorem ownerAmong_modifyFrame_self (hid : id < store.frames.size) {nearer farther : List FrameId}
    (hnearer : ∀ frame ∈ nearer, store.bindingIn name frame = none)
    (hnodup : (nearer ++ id :: farther).Nodup) :
    (store.modifyFrame id change).ownerAmong name (nearer ++ id :: farther) =
      (((change (store.frame id)).get? name).map (Prod.mk id)).or
        (store.ownerAmong name farther) := by
  have hother : ∀ frame ∈ nearer ++ farther,
      (store.modifyFrame id change).bindingIn name frame = store.bindingIn name frame := by
    intro frame hmem
    have hne : id ≠ frame := by
      rintro rfl
      exact (List.nodup_cons.mp (List.perm_middle.nodup_iff.mp hnodup)).1 hmem
    rw [bindingIn, frame_modifyFrame, if_neg fun heq => hne heq.1, bindingIn]
  have hself : (store.modifyFrame id change).bindingIn name id =
      (change (store.frame id)).get? name := by
    rw [bindingIn, frame_modifyFrame, if_pos ⟨rfl, hid⟩]
  have hfarther : ∀ frames ⊆ farther, (store.modifyFrame id change).ownerAmong name frames =
      store.ownerAmong name frames := by
    intro frames hsubset
    induction frames with
    | nil => rfl
    | cons frame frames ih =>
        have hmem := hsubset List.mem_cons_self
        rw [ownerAmong_cons, ownerAmong_cons, hother frame (List.mem_append_right _ hmem),
          ih fun other hother => hsubset (List.mem_cons_of_mem _ hother)]
  rw [ownerAmong_append, ownerAmong_cons, hself, hfarther farther (List.Subset.refl _)]
  intro frame hmem
  rw [hother frame (List.mem_append_left _ hmem), hnearer frame hmem]

/-! ## What is read -/

/-- `name` resolves as it did before: to the same binding in the same frame, of which the same is
read. -/
def SameAt (store later : Store) (scope : Scope) (name : String) : Prop :=
  later.owner? scope name = store.owner? scope name ∧ later.get scope name = store.get scope name

theorem read_congr
    (h : ∀ cell, binding = .lazy cell → later.cells[cell]? = store.cells[cell]?) :
    later.read binding = store.read binding := by
  cases binding with
  | value value => rfl
  | lazy cell => rw [read, read, h cell rfl]

theorem sameAt_of_owner? (howner : later.owner? scope name = store.owner? scope name)
    (hread : ∀ id binding, store.owner? scope name = some (id, binding) →
      later.read binding = store.read binding) : store.SameAt later scope name := by
  refine ⟨howner, ?_⟩
  rw [Store.get_by_owner, Store.get_by_owner, howner]
  cases hold : store.owner? scope name with
  | none => rfl
  | some owner => exact congrArg Except.ok (hread owner.1 owner.2 hold)

/-- A name is found, deleted and started where some frame binds it, and nowhere else. -/
theorem unresolved_iff (store : Store) (scope : Scope) (name : String) :
    (store.get scope name = .error (unresolved name) ↔ store.contains scope name = false) ∧
      ((∃ failure, (store.delete scope name).1 = .error failure) ↔
        store.contains scope name = false) ∧
      ((store.startAsync scope name).1 = .error (unresolved name) ↔
        store.contains scope name = false) := by
  cases howner : store.owner? scope name with
  | none => simp [get_by_owner, contains_by_owner, delete_by_owner, startAsync_by_owner, howner]
  | some owner =>
      obtain ⟨id, value | cell⟩ := owner
      · simp [get_by_owner, contains_by_owner, delete_by_owner, startAsync_by_owner, howner]
      · simp [get_by_owner, contains_by_owner, delete_by_owner, startAsync_by_owner, howner]

/-! ## Bindings that are made and deleted -/

theorem ownerAmong_of_frames_eq (h : later.frames = store.frames) (name : String)
    (ids : List FrameId) : later.ownerAmong name ids = store.ownerAmong name ids := by
  induction ids with
  | nil => rfl
  | cons id ids ih => rw [ownerAmong, ownerAmong, Store.frame, Store.frame, h, ih]

/-- `name` is bound in the innermost frame of a scope, to a value or to a new cell. -/
inductive Binds (store : Store) (scope : Scope) (name : String) : Store → Binding → Prop where
  | value (value : Value) : Binds store scope name (store.set scope name value) (.value value)
  | lazy (work : Suspension) :
      Binds store scope name (store.setLazy scope name work).2 (.lazy store.cells.size)

theorem Binds.ownerAmong (h : store.Binds scope name later binding) (other : String)
    (ids : List FrameId) :
    later.ownerAmong other ids =
      (store.modifyFrame scope.frame fun frame => frame.insert name binding).ownerAmong other ids := by
  cases h with
  | value value => rfl
  | lazy work =>
      have hframes : (store.setLazy scope name work).2.frames = (store.modifyFrame scope.frame
          fun frame => frame.insert name (.lazy store.cells.size)).frames := rfl
      exact ownerAmong_of_frames_eq hframes other ids

/-- A new binding is read in the same way as before where it is not read at all. -/
theorem Binds.read (h : store.Binds scope name later binding) {bound : Binding}
    (hbound : ∀ cell, bound = .lazy cell → cell < store.cells.size) :
    later.read bound = store.read bound := by
  cases h with
  | value value => exact read_congr fun _ _ => rfl
  | lazy work =>
      refine read_congr fun cell heq => ?_
      have hpush : (store.setLazy scope name work).2.cells =
          store.cells.push ⟨name, .pending work⟩ := rfl
      rw [hpush, Array.getElem?_push, if_neg (Nat.ne_of_lt (hbound cell heq))]

/-- A binding matters to lookups of its name that get to its frame, and to no others. -/
theorem Binds.sameAt (h : store.Binds scope name later binding) {seen : Scope}
    (hbound : ∀ name frame cell, store.bindingIn name frame = some (.lazy cell) →
      cell < store.cells.size)
    (hgets : other = name → ¬ store.GetsTo name seen.frames scope.frame) :
    store.SameAt later seen other := by
  refine sameAt_of_owner? ?_ fun id bound howner => h.read ?_
  · rw [owner?, h.ownerAmong, owner?]
    refine ownerAmong_modifyFrame (fun frame other hne => ?_) hgets
    rw [Frame.get?_insert, if_neg hne]
  · rintro cell rfl
    exact hbound other id cell (getsTo_of_ownerAmong howner).2

/-- A lookup that gets to the frame of a new binding finds it. -/
theorem Binds.owner? (h : store.Binds scope name later binding) {seen : Scope}
    (hmade : scope.frame < store.frames.size) (hnodup : seen.frames.Nodup)
    (hgets : store.GetsTo name seen.frames scope.frame) :
    later.owner? seen name = some (scope.frame, binding) := by
  obtain ⟨nearer, farther, hframes, hnearer⟩ := hgets
  rw [hframes] at hnodup
  rw [Store.owner?, h.ownerAmong, hframes, ownerAmong_modifyFrame_self hmade hnearer hnodup,
    Frame.get?_insert, if_pos rfl]
  rfl

theorem delete_eq (howner : store.owner? scope name = some (id, binding)) :
    (store.delete scope name).2 = store.modifyFrame id fun frame => frame.erase name := by
  rw [delete_by_owner, howner]

theorem delete_of_none (howner : store.owner? scope name = none) :
    (store.delete scope name).2 = store := by
  rw [delete_by_owner, howner]

/-- The binding that goes is the nearest one, and no other. -/
theorem bindingIn_delete (howner : store.owner? scope name = some (id, binding))
    (hmade : id < store.frames.size) (bound : String) (frame : FrameId) :
    (store.delete scope name).2.bindingIn bound frame =
      if frame = id ∧ bound = name then none else store.bindingIn bound frame := by
  rw [delete_eq howner, bindingIn, frame_modifyFrame, bindingIn]
  by_cases heq : id = frame
  · subst heq
    rw [if_pos ⟨rfl, hmade⟩, Frame.get?_erase]
    simp
  · rw [if_neg fun h => heq h.1, if_neg fun h => heq h.1.symm]

theorem read_delete (store : Store) (scope : Scope) (name : String) (bound : Binding) :
    (store.delete scope name).2.read bound = store.read bound := by
  refine read_congr fun cell _ => ?_
  rw [delete_by_owner]
  split <;> rfl

/-- A lookup that did not stop at the deleted binding is not changed. -/
theorem sameAt_delete (howner : store.owner? scope name = some (id, binding)) {seen : Scope}
    (hstops : other = name → ∀ bound, store.owner? seen name ≠ some (id, bound)) :
    store.SameAt (store.delete scope name).2 seen other := by
  refine sameAt_of_owner? ?_ fun _ _ _ => read_delete store scope name _
  rw [delete_eq howner, owner?, owner?]
  have herase : ∀ (frame : Frame) (other : String), other ≠ name →
      (frame.erase name).get? other = frame.get? other := by
    intro frame other hne
    rw [Frame.get?_erase, if_neg hne]
  refine ownerAmong_modifyFrame herase ?_
  -- A lookup that gets to the frame stops there.
  rintro rfl ⟨nearer, farther, hframes, hnearer⟩
  refine hstops rfl binding ?_
  rw [owner?, hframes, ownerAmong_append hnearer, ownerAmong_cons, (getsTo_of_ownerAmong howner).2]
  rfl

/-- A lookup that stopped at the deleted binding goes on behind it. -/
theorem owner?_delete (howner : store.owner? scope name = some (id, binding)) {seen : Scope}
    (hmade : id < store.frames.size) (hnodup : seen.frames.Nodup) {bound : Binding}
    (hstops : store.owner? seen name = some (id, bound)) :
    ∃ nearer farther, seen.frames = nearer ++ id :: farther ∧
      (store.delete scope name).2.owner? seen name = store.ownerAmong name farther ∧
      (store.delete scope name).2.get seen name = store.getAmong name farther := by
  obtain ⟨⟨nearer, farther, hframes, hnearer⟩, -⟩ := getsTo_of_ownerAmong hstops
  rw [hframes] at hnodup
  have hfarther : (store.delete scope name).2.owner? seen name = store.ownerAmong name farther := by
    rw [delete_eq howner, owner?, hframes, ownerAmong_modifyFrame_self hmade hnearer hnodup,
      Frame.get?_erase, if_pos rfl]
    rfl
  refine ⟨nearer, farther, hframes, hfarther, ?_⟩
  rw [get_by_owner, hfarther, getAmong_by_owner]
  cases store.ownerAmong name farther with
  | none => rfl
  | some owner => exact congrArg Except.ok (read_delete store scope name owner.2)

/-! ## Growth -/

/-- Frames and cells are only ever added, and names are bound to cells only as these are made. -/
structure Grows (store later : Store) : Prop where
  frames : store.frames.size ≤ later.frames.size
  cells : store.cells.size ≤ later.cells.size
  bound : ∀ name frame cell, later.bindingIn name frame = some (.lazy cell) →
    store.bindingIn name frame = some (.lazy cell) ∨
      store.cells.size ≤ cell ∧ cell < later.cells.size

namespace Grows

theorem of_frames_eq (hframes : later.frames = store.frames)
    (hcells : store.cells.size ≤ later.cells.size) : store.Grows later where
  frames := Nat.le_of_eq (congrArg Array.size hframes).symm
  cells := hcells
  bound name frame cell hbinding := by
    rw [bindingIn, Store.frame, hframes] at hbinding
    exact .inl hbinding

theorem refl (store : Store) : store.Grows store :=
  of_frames_eq rfl (Nat.le_refl _)

end Grows

theorem frame_push (store : Store) (id : FrameId) :
    ({ store with frames := store.frames.push [] } : Store).frame id = store.frame id := by
  simp only [Store.frame, Array.getD_eq_getD_getElem?, Array.getElem?_push]
  split
  · next heq => simp [heq]
  · rfl

theorem grows_push (store : Store) :
    store.Grows { store with frames := store.frames.push [] } where
  frames := by simp
  cells := Nat.le_refl _
  bound name frame cell hbinding := by
    rw [bindingIn, frame_push] at hbinding
    exact .inl hbinding

/-- A change of a frame that binds no name to a cell. -/
theorem grows_modifyFrame (store : Store) (id : FrameId)
    (hchange : ∀ (frame : Frame) (name : String) (cell : CellId),
      (change frame).get? name = some (.lazy cell) → frame.get? name = some (.lazy cell)) :
    store.Grows (store.modifyFrame id change) where
  frames := by simp [modifyFrame]
  cells := Nat.le_refl _
  bound name frame cell hbinding := by
    rw [bindingIn, frame_modifyFrame] at hbinding
    split at hbinding
    · next heq =>
        obtain ⟨rfl, -⟩ := heq
        exact .inl (hchange _ _ _ hbinding)
    · exact .inl hbinding

theorem grows_set (store : Store) (scope : Scope) (name : String) (value : Value) :
    store.Grows (store.set scope name value) := by
  refine grows_modifyFrame store _ fun frame other cell hbinding => ?_
  rw [Frame.get?_insert] at hbinding
  split at hbinding
  · cases hbinding
  · exact hbinding

theorem grows_setLazy (store : Store) (scope : Scope) (name : String) (work : Suspension) :
    store.Grows (store.setLazy scope name work).2 where
  frames := by simp [setLazy, modifyFrame]
  cells := by simp [setLazy, modifyFrame]
  bound other frame cell hbinding := by
    have hsize : (store.setLazy scope name work).2.cells.size = store.cells.size + 1 := by
      simp [setLazy, modifyFrame]
    rw [bindingIn, setLazy, frame_modifyFrame] at hbinding
    split at hbinding
    · next heq =>
        obtain ⟨rfl, -⟩ := heq
        rw [Frame.get?_insert] at hbinding
        split at hbinding
        · cases hbinding
          exact .inr ⟨Nat.le_refl _, by rw [hsize]; exact Nat.lt_succ_self _⟩
        · exact .inl hbinding
    · exact .inl hbinding

theorem grows_delete (store : Store) (scope : Scope) (name : String) :
    store.Grows (store.delete scope name).2 := by
  rw [delete_by_owner]
  split
  · refine grows_modifyFrame store _ fun frame other cell hbinding => ?_
    rw [Frame.get?_erase] at hbinding
    split at hbinding
    · cases hbinding
    · exact hbinding
  · exact .refl store

theorem grows_startAsync (store : Store) (scope : Scope) (name : String) :
    store.Grows (store.startAsync scope name).2 := by
  rw [startAsync_by_owner]
  split
  · exact .of_frames_eq rfl (by simp [modifyCell])
  · exact .refl store
  · exact .refl store

theorem grows_answer (store : Store) (request : Request) :
    store.Grows (store.answer request).2 := by
  cases request with
  | openScope outer => exact grows_push store
  | bind scope name value => exact grows_set store scope name value
  | bindLazy scope name work => exact grows_setLazy store scope name work
  | unbind scope name => exact grows_delete store scope name
  | start scope name => exact grows_startAsync store scope name
  | _ => exact .of_frames_eq rfl (Nat.le_refl _)

end Store

/-- No step of the machine does more. -/
theorem Machine.grows_of_step {host : Host} {state state' : Machine.State}
    (h : Machine.step host state = .next state') : state.store.Grows state'.store := by
  cases Machine.effect_of_step h with
  | still hstore _ _ =>
      rw [hstore]
      exact .refl _
  | answered => exact Store.grows_answer _ _
  | entered hclaim =>
      obtain ⟨name, rfl, -⟩ := Store.claim_run hclaim
      exact .of_frames_eq rfl (Nat.le_of_eq Store.size_replaceCell.symm)
  | settled => exact .of_frames_eq rfl (by simp [Store.settle, Store.modifyCell])

/-! ## Forests -/

/-- The stores that come about by making scopes, changing bindings in them and evaluating programs,
each with the scopes that have been made.  A program that opens a scope in one of the forest makes a
child like any other, and a demand is made by steps of the machine, be it on the main thread or on that
of a worker. -/
inductive Forest (host : Host) : Store → List Scope → Prop where
  | empty : Forest host {} []
  | base : Forest host .base [.base]
  | root {store : Store} {scopes : List Scope} :
      Forest host store scopes → Forest host store.root.2 (store.root.1 :: scopes)
  | child {store : Store} {scopes : List Scope} {scope : Scope} :
      Forest host store scopes → scope ∈ scopes →
        Forest host (store.child scope).2 ((store.child scope).1 :: scopes)
  | set {store : Store} {scopes : List Scope} {scope : Scope} (name : String) (value : Value) :
      Forest host store scopes → scope ∈ scopes → Forest host (store.set scope name value) scopes
  | setLazy {store : Store} {scopes : List Scope} {scope : Scope} (name : String)
      (work : Suspension) :
      Forest host store scopes → scope ∈ scopes →
        Forest host (store.setLazy scope name work).2 scopes
  | delete {store : Store} {scopes : List Scope} {scope : Scope} (name : String) :
      Forest host store scopes → scope ∈ scopes → Forest host (store.delete scope name).2 scopes
  | startAsync {store : Store} {scopes : List Scope} {scope : Scope} (name : String) :
      Forest host store scopes → scope ∈ scopes →
        Forest host (store.startAsync scope name).2 scopes
  | step {state state' : Machine.State} {scopes : List Scope} :
      Forest host state.store scopes → Machine.step host state = .next state' →
        Forest host state'.store scopes

namespace Forest

variable {host : Host} {store later : Store} {scopes : List Scope}

/-- Scopes are chains of frames, each made after those around it.  Where a scope goes through the
frame of another one, it goes on as that one does. -/
structure Grown (store : Store) (scopes : List Scope) : Prop where
  bound : ∀ name frame cell, store.bindingIn name frame = some (.lazy cell) →
    cell < store.cells.size
  made : ∀ scope ∈ scopes, scope.frame < store.frames.size
  chain : ∀ scope ∈ scopes, scope.frames.Pairwise fun inner outer => outer < inner
  shared : ∀ inner ∈ scopes, ∀ outer ∈ scopes, outer.frame ∈ inner.frames →
    outer.frames <:+ inner.frames

namespace Grown

theorem grows (h : Grown store scopes) (hgrows : store.Grows later) : Grown later scopes where
  bound name frame cell hbinding := by
    rcases hgrows.bound name frame cell hbinding with hbefore | ⟨-, hnew⟩
    · exact Nat.lt_of_lt_of_le (h.bound name frame cell hbefore) hgrows.cells
    · exact hnew
  made scope hscope := Nat.lt_of_lt_of_le (h.made scope hscope) hgrows.frames
  chain := h.chain
  shared := h.shared

/-- All frames of a scope have been made. -/
theorem lt_size (h : Grown store scopes) {scope : Scope} (hscope : scope ∈ scopes) :
    ∀ frame ∈ scope.frames, frame < store.frames.size := by
  intro frame hframe
  rcases List.mem_cons.mp hframe with rfl | houter
  · exact h.made scope hscope
  · have hchain := (List.pairwise_cons.mp (h.chain scope hscope)).1 frame houter
    exact Nat.lt_trans hchain (h.made scope hscope)

theorem nodup (h : Grown store scopes) {scope : Scope} (hscope : scope ∈ scopes) :
    scope.frames.Nodup :=
  (h.chain scope hscope).imp fun hlt => (Nat.ne_of_lt hlt).symm

/-- A new frame is made, in front of the frames of some scope or of none. -/
theorem push (h : Grown store scopes) (outer : List FrameId)
    (houter : outer = [] ∨ ∃ scope ∈ scopes, outer = scope.frames) :
    Grown { store with frames := store.frames.push [] }
      (⟨store.frames.size, outer⟩ :: scopes) := by
  have hgrown := h.grows store.grows_push
  have hlt : ∀ frame ∈ outer, frame < store.frames.size := by
    rcases houter with rfl | ⟨scope, hscope, rfl⟩
    · simp
    · exact h.lt_size hscope
  have hchain : outer.Pairwise fun inner outer => outer < inner := by
    rcases houter with rfl | ⟨scope, hscope, rfl⟩
    · exact .nil
    · exact h.chain scope hscope
  refine ⟨hgrown.bound, ?_, ?_, ?_⟩
  · refine List.forall_mem_cons.mpr ⟨?_, hgrown.made⟩
    simp
  · exact List.forall_mem_cons.mpr ⟨List.pairwise_cons.mpr ⟨hlt, hchain⟩, h.chain⟩
  · intro inner hinner around haround hmem
    rcases List.mem_cons.mp hinner with rfl | hinner
    · rcases List.mem_cons.mp haround with rfl | hbefore
      · exact List.suffix_rfl
      · -- The other scope was there before, so the new frame is none of its frames.
        have hne : around.frame ≠ store.frames.size := Nat.ne_of_lt (h.made around hbefore)
        have hscoped : around.frame ∈ outer := (List.mem_cons.mp hmem).resolve_left hne
        rcases houter with rfl | ⟨scope, hscope, rfl⟩
        · cases hscoped
        · exact (h.shared scope hscope around hbefore hscoped).trans (List.suffix_cons _ _)
    · rcases List.mem_cons.mp haround with rfl | haround
      · exact (Nat.lt_irrefl _ (h.lt_size hinner _ hmem)).elim
      · exact h.shared inner hinner around haround hmem

end Grown

theorem grown_base : Grown Store.base [Scope.base] where
  bound name frame cell hbinding := by
    -- The outermost frame binds constants and builtins.
    have hvalue : ∀ entry ∈ Builtin.frame, ∃ value, entry.2 = .value value := by
      intro entry hentry
      rcases List.mem_append.mp hentry with hmem | hmem
      · obtain ⟨constant, -, rfl⟩ := List.mem_map.mp hmem
        exact ⟨_, rfl⟩
      · obtain ⟨native, -, rfl⟩ := List.mem_map.mp hmem
        exact ⟨_, rfl⟩
    obtain ⟨front, behind, hsplit, -⟩ := List.lookup_eq_some_iff.mp hbinding
    have hentry : (name, Binding.lazy cell) ∈ Store.base.frame frame := by
      rw [hsplit]
      simp
    rcases frame with _ | frame
    · obtain ⟨value, heq⟩ := hvalue _ hentry
      cases heq
    · cases hentry
  made scope hscope := by
    cases List.mem_singleton.mp hscope
    decide
  chain scope hscope := by
    cases List.mem_singleton.mp hscope
    exact List.pairwise_singleton _ _
  shared inner hinner outer houter _ := by
    cases List.mem_singleton.mp hinner
    cases List.mem_singleton.mp houter
    exact List.suffix_rfl

/-- The scopes of a forest are chains that end in common or nowhere. -/
theorem grown (h : Forest host store scopes) : Grown store scopes := by
  induction h with
  | empty =>
      refine ⟨?_, ?_, ?_, ?_⟩
      · intro name frame cell hbinding
        cases hbinding
      all_goals
        intro scope hscope
        cases hscope
  | base => exact grown_base
  | root _ ih => exact ih.push [] (.inl rfl)
  | child _ hscope ih => exact ih.push _ (.inr ⟨_, hscope, rfl⟩)
  | set name value _ _ ih => exact ih.grows (Store.grows_set _ _ name value)
  | setLazy name work _ _ ih => exact ih.grows (Store.grows_setLazy _ _ name work)
  | delete name _ _ ih => exact ih.grows (Store.grows_delete _ _ name)
  | startAsync name _ _ ih => exact ih.grows (Store.grows_startAsync _ _ name)
  | step _ hstep ih => exact ih.grows (Machine.grows_of_step hstep)

/-! ## The result -/

/-- In every forest, and for all its scopes `f`, `g` and `h`:

* a name is read, deleted and started in `f` if some frame of `f` binds it, and otherwise all of this
  fails because the name is not resolved;
* binding a name in `g` changes what `h` resolves only for that name, and only if `h` goes on as `g`
  from some frame on and none of its nearer frames binds the name; there it is the new binding;
* deleting a name in `f` takes the nearest binding of the name away and no other.  Lookups that
  stopped there go on to the next binding behind it, or find none, and all others are as before. -/
theorem resolution (hforest : Forest host store scopes) {f g h : Scope} (hf : f ∈ scopes)
    (hg : g ∈ scopes) (hh : h ∈ scopes) (name other : String) :
    ((store.get f name = .error (Store.unresolved name) ↔ store.contains f name = false) ∧
      ((∃ failure, (store.delete f name).1 = .error failure) ↔ store.contains f name = false) ∧
      ((store.startAsync f name).1 = .error (Store.unresolved name) ↔
        store.contains f name = false)) ∧
    (∀ later binding, store.Binds g name later binding →
      (¬ store.SameAt later h other →
        other = name ∧ g.frames <:+ h.frames ∧ store.GetsTo name h.frames g.frame) ∧
      (store.GetsTo name h.frames g.frame →
        later.owner? h name = some (g.frame, binding))) ∧
    (store.owner? f name = none → (store.delete f name).2 = store) ∧
    ∀ id binding, store.owner? f name = some (id, binding) →
      (∀ bound frame, (store.delete f name).2.bindingIn bound frame =
        if frame = id ∧ bound = name then none else store.bindingIn bound frame) ∧
      (∀ bound, store.owner? h name = some (id, bound) →
        ∃ nearer farther, h.frames = nearer ++ id :: farther ∧
          (store.delete f name).2.owner? h name = store.ownerAmong name farther ∧
          (store.delete f name).2.get h name = store.getAmong name farther) ∧
      ((other = name → ∀ bound, store.owner? h name ≠ some (id, bound)) →
        store.SameAt (store.delete f name).2 h other) := by
  have hgrown := hforest.grown
  refine ⟨store.unresolved_iff f name, ?_, Store.delete_of_none, ?_⟩
  · intro later binding hbinds
    constructor
    · intro hchanged
      have hgets : other = name ∧ store.GetsTo name h.frames g.frame := by
        by_contra hnot
        exact hchanged (hbinds.sameAt hgrown.bound fun heq hgets => hnot ⟨heq, hgets⟩)
      obtain ⟨heq, nearer, farther, hframes, hnearer⟩ := hgets
      have hmem : g.frame ∈ h.frames := by
        rw [hframes]
        simp
      exact ⟨heq, hgrown.shared h hh g hg hmem, nearer, farther, hframes, hnearer⟩
    · exact hbinds.owner? (hgrown.made g hg) (hgrown.nodup hh)
  · intro id binding howner
    have hmem : id ∈ f.frames := by
      obtain ⟨⟨nearer, farther, hframes, -⟩, -⟩ := Store.getsTo_of_ownerAmong howner
      rw [hframes]
      simp
    have hmade := hgrown.lt_size hf id hmem
    refine ⟨Store.bindingIn_delete howner hmade, ?_, Store.sameAt_delete howner⟩
    intro bound hstops
    exact Store.owner?_delete howner hmade (hgrown.nodup hh) hstops

/-- `x` is bound in a scope and in another one inside it.  Deleting it there lets the outer binding be
seen again, and the outer scope does not change. -/
theorem resolution_shadowed :
    let outer : Scope := ⟨0, []⟩
    let inner : Scope := ⟨1, [0]⟩
    let store : Store :=
      { frames := #[[("x", .value (.int 1))], [("x", .value (.int 2))]] }
    Forest .empty store [inner, outer] ∧ store.SameAt (store.delete inner "x").2 outer "x" ∧
      ∃ nearer farther, inner.frames = nearer ++ 1 :: farther ∧
        (store.delete inner "x").2.get inner "x" = store.getAmong "x" farther := by
  intro outer inner store
  have hroot : Forest .empty _ [outer] := .root .empty
  have houter := hroot.set "x" (.int 1) List.mem_cons_self
  have hchild : Forest .empty _ [inner, outer] := houter.child List.mem_cons_self
  have hforest : Forest .empty store [inner, outer] :=
    hchild.set "x" (.int 2) List.mem_cons_self
  have hinner : inner ∈ [inner, outer] := by simp
  have hother : outer ∈ [inner, outer] := by simp
  have howner : store.owner? inner "x" = some (1, .value (.int 2)) := rfl
  have hfar := (hforest.resolution hinner hinner hother "x" "x").2.2.2 _ _ howner
  have hnear := (hforest.resolution hinner hinner hinner "x" "x").2.2.2 _ _ howner
  refine ⟨hforest, hfar.2.2 fun _ bound heq => ?_, ?_⟩
  · have hfirst : store.owner? outer "x" = some (0, .value (.int 1)) := rfl
    rw [hfirst] at heq
    cases heq
  · obtain ⟨nearer, farther, hframes, -, hget⟩ := hnear.2.1 _ howner
    exact ⟨nearer, farther, hframes, hget⟩

end Forest

end LazyLisp
