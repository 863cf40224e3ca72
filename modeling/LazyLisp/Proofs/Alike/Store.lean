import LazyLisp.Proofs.Alike.Link

/-!
# Store — stores that hold alike bindings

Two stores mirror each other along a link if corresponding frames bind the same names to alike
things, and corresponding cells are pending with alike work.  Nothing is said about frames and cells
that correspond to nothing.  This file defines:

* `Binding.Alike` and `Frame.Alike`;
* `Store.Keeps`, a store and a later one in which everything is as it was;
* `Store.Mirrors`, and `Store.WellFormed` for a store that mirrors itself.

Main results: `Store.get_alike`, that lookups go alike where frames and cells hold alike things;
`Store.Mirrors.get` for mirroring stores; and `Store.Mirrors.child` and `Store.Mirrors.setLazy`, that
stores go on mirroring each other when a new frame is made and filled on both sides.
-/

namespace LazyLisp

variable {likeness : Likeness} {link link' : Link}

/-! ## Options -/

theorem optionRel_imp {α β : Type} {related related' : α → β → Prop}
    (himp : ∀ a b, related a b → related' a b) {a : Option α} {b : Option β}
    (h : Option.Rel related a b) : Option.Rel related' a b := by
  cases h with
  | some h => exact .some (himp _ _ h)
  | none => exact .none

theorem optionRel_map {α β γ δ : Type} {related : α → β → Prop} {related' : γ → δ → Prop}
    {f : α → γ} {g : β → δ} (hmap : ∀ a b, related a b → related' (f a) (g b)) {a : Option α}
    {b : Option β} (h : Option.Rel related a b) : Option.Rel related' (a.map f) (b.map g) := by
  cases h with
  | some h => exact .some (hmap _ _ h)
  | none => exact .none

theorem optionRel_bind {α β γ δ : Type} {related : α → β → Prop} {related' : γ → δ → Prop}
    {f : α → Option γ} {g : β → Option δ}
    (hbind : ∀ a b, related a b → Option.Rel related' (f a) (g b)) {a : Option α} {b : Option β}
    (h : Option.Rel related a b) : Option.Rel related' (a.bind f) (b.bind g) := by
  cases h with
  | some h => exact hbind _ _ h
  | none => exact .none

theorem optionRel_comp {α β γ : Type} {related : α → β → Prop} {related' : β → γ → Prop}
    {related'' : α → γ → Prop} (hcomp : ∀ a b c, related a b → related' b c → related'' a c)
    {a : Option α} {b : Option β} {c : Option γ} (h : Option.Rel related a b)
    (h' : Option.Rel related' b c) : Option.Rel related'' a c := by
  cases h with
  | some h =>
      cases h' with
      | some h' => exact .some (hcomp _ _ _ h h')
  | none =>
      cases h'
      exact .none

/-! ## Frames -/

inductive Binding.Alike (likeness : Likeness) (link : Link) : Binding → Binding → Prop where
  | value {value value' : Value} :
      value.Alike likeness link value' → Binding.Alike likeness link (.value value) (.value value')
  | lazy {cell cell' : CellId} :
      link.cells cell cell' → Binding.Alike likeness link (.lazy cell) (.lazy cell')

/-- The same name, bound to alike things. -/
def Binding.EntryAlike (likeness : Likeness) (link : Link) (entry entry' : String × Binding) :
    Prop :=
  entry.1 = entry'.1 ∧ entry.2.Alike likeness link entry'.2

/-- The same names, bound to alike things in the same order. -/
abbrev Frame.Alike (likeness : Likeness) (link : Link) (frame frame' : Frame) : Prop :=
  List.Forall₂ (Binding.EntryAlike likeness link) frame frame'

namespace Binding.Alike

variable {binding binding' binding'' : Binding}

theorem mono (hle : link ≤ link') (h : binding.Alike likeness link binding') :
    binding.Alike likeness link' binding' := by
  cases h with
  | value h => exact .value (h.mono hle)
  | lazy h => exact .lazy (hle.2 _ _ h)

theorem flip (h : binding.Alike likeness link binding') :
    binding'.Alike likeness link.flip binding := by
  cases h with
  | value h => exact .value h.flip
  | lazy h => exact .lazy h

theorem comp (h : binding.Alike likeness link binding')
    (h' : binding'.Alike likeness link' binding'') :
    binding.Alike likeness (link.comp link') binding'' := by
  cases h with
  | value h =>
      cases h' with
      | value h' => exact .value (h.comp h')
  | lazy h =>
      cases h' with
      | lazy h' => exact .lazy ⟨_, h, h'⟩

end Binding.Alike

namespace Frame.Alike

variable {frame frame' frame'' : Frame}

theorem mono (hle : link ≤ link') (h : frame.Alike likeness link frame') :
    frame.Alike likeness link' frame' :=
  h.imp fun _ _ hentry => ⟨hentry.1, hentry.2.mono hle⟩

theorem flip (h : frame.Alike likeness link frame') : frame'.Alike likeness link.flip frame :=
  List.Forall₂.flip (h.imp fun _ _ hentry => ⟨hentry.1.symm, hentry.2.flip⟩)

theorem comp (h : frame.Alike likeness link frame') (h' : frame'.Alike likeness link' frame'') :
    frame.Alike likeness (link.comp link') frame'' :=
  forall₂_comp (fun _ _ _ hfirst hsecond => ⟨hfirst.1.trans hsecond.1, hfirst.2.comp hsecond.2⟩)
    h h'

theorem get? (h : frame.Alike likeness link frame') (name : String) :
    Option.Rel (Binding.Alike likeness link) (frame.get? name) (frame'.get? name) := by
  induction h with
  | nil => exact .none
  | cons hentry _ ih =>
      rw [Frame.get?_cons, Frame.get?_cons, hentry.1]
      split
      · exact .some hentry.2
      · exact ih

theorem erase (h : frame.Alike likeness link frame') (name : String) :
    (frame.erase name).Alike likeness link (frame'.erase name) := by
  induction h with
  | nil => exact .nil
  | @cons entry entry' rest rest' hentry _ ih =>
      simp only [Frame.erase, List.filter_cons, hentry.1]
      split
      · exact .cons hentry ih
      · exact ih

theorem insert (h : frame.Alike likeness link frame') (name : String) {binding binding' : Binding}
    (hbinding : binding.Alike likeness link binding') :
    (frame.insert name binding).Alike likeness link (frame'.insert name binding') :=
  .cons ⟨rfl, hbinding⟩ (h.erase name)

end Frame.Alike

/-! ## Later stores -/

namespace Store

/-- Everything in the store is as it was in the later one, which may hold more. -/
structure Keeps (store later : Store) : Prop where
  size : store.frames.size ≤ later.frames.size
  frame : ∀ id : Nat, id < store.frames.size → later.frame id = store.frame id
  cell : ∀ (id : Nat) (cell : Cell), store.cells[id]? = some cell → later.cells[id]? = some cell

theorem Keeps.refl (store : Store) : store.Keeps store :=
  ⟨Nat.le_refl _, fun _ _ => rfl, fun _ _ h => h⟩

theorem Keeps.trans {first second third : Store} (h : first.Keeps second)
    (h' : second.Keeps third) : first.Keeps third :=
  ⟨Nat.le_trans h.size h'.size,
    fun id hid => (h'.frame id (Nat.lt_of_lt_of_le hid h.size)).trans (h.frame id hid),
    fun id cell hcell => h'.cell id cell (h.cell id cell hcell)⟩

theorem Keeps.link_le {store later : Store} (h : store.Keeps later) : store.link ≤ later.link := by
  refine ⟨fun frame frame' hframe => ⟨hframe.1, Nat.lt_of_lt_of_le hframe.2 h.size⟩,
    fun cell cell' hcell => ?_⟩
  have hlater := h.cell cell _ (Array.getElem?_eq_getElem hcell.2)
  exact ⟨hcell.1, (Array.getElem?_eq_some_iff.mp hlater).1⟩

/-! ## Lookups in two stores -/

section Lookup

variable {store store' : Store}

/-- If corresponding frames agree on a name, then a name has corresponding owners in corresponding
scopes, or none. -/
theorem owner?_alike {alike : Binding → Binding → Prop} (name : String)
    (hframes : ∀ frame frame', link.frames frame frame' →
      Option.Rel alike ((store.frame frame).get? name) ((store'.frame frame').get? name))
    {scope scope' : Scope} (hscope : scope.Alike link scope') :
    Option.Rel (fun owner owner' => link.frames owner.1 owner'.1 ∧ alike owner.2 owner'.2)
      (store.owner? scope name) (store'.owner? scope' name) := by
  have hids : List.Forall₂ link.frames scope.frames scope'.frames := .cons hscope.1 hscope.2
  simp only [owner?]
  generalize scope.frames = ids at hids ⊢
  generalize scope'.frames = ids' at hids ⊢
  induction hids with
  | nil => exact .none
  | @cons id id' outer outer' hid _ ih =>
      have hbinding := hframes id id' hid
      simp only [ownerAmong]
      -- Either both frames bind the name, and both searches stop, or none does and both go on.
      generalize (store.frame id).get? name = binding at hbinding ⊢
      generalize (store'.frame id').get? name = binding' at hbinding ⊢
      cases hbinding with
      | some hbinding => exact .some ⟨hid, hbinding⟩
      | none => exact ih

/-- If moreover corresponding cells have alike values, or none, then lookups go alike. -/
theorem get_alike (name : String)
    (hframes : ∀ frame frame', link.frames frame frame' →
      Option.Rel (Binding.Alike likeness link) ((store.frame frame).get? name)
        ((store'.frame frame').get? name))
    (hcells : ∀ cell cell', link.cells cell cell' →
      Option.Rel (Value.Alike likeness link) ((store.cells[cell]?).bind Cell.value?)
        ((store'.cells[cell']?).bind Cell.value?))
    {scope scope' : Scope} (hscope : scope.Alike link scope') :
    Except.Alike likeness (Value.StepAlike likeness link) (store.get scope name)
      (store'.get scope' name) := by
  have howner := owner?_alike name hframes hscope
  simp only [get_by_owner]
  generalize store.owner? scope name = owner at howner ⊢
  generalize store'.owner? scope' name = owner' at howner ⊢
  cases howner with
  | none => exact .error (Failure.alike_refl _)
  | @some owner owner' howner =>
      rcases owner with ⟨id, binding⟩
      rcases owner' with ⟨id', binding'⟩
      cases howner.2 with
      | value hvalue => exact .ok (.value hvalue)
      | @lazy cell cell' hcell =>
          have hvalue := hcells cell cell' hcell
          simp only [read]
          -- A cell without a value is handed out suspended.
          generalize (store.cells[cell]?).bind Cell.value? = value at hvalue ⊢
          generalize (store'.cells[cell']?).bind Cell.value? = value' at hvalue ⊢
          cases hvalue with
          | some hvalue => exact .ok (.value hvalue)
          | none => exact .ok (.suspended (.binding hcell))

end Lookup

/-! ## Mirroring stores -/

/-- Corresponding frames bind the same names to alike things, and corresponding cells are pending
with alike work. -/
structure Mirrors (likeness : Likeness) (link : Link) (store store' : Store) : Prop where
  frames : ∀ frame frame' : Nat, link.frames frame frame' →
    frame < store.frames.size ∧ frame' < store'.frames.size ∧
      (store.frame frame).Alike likeness link (store'.frame frame')
  cells : ∀ cell cell', link.cells cell cell' → ∃ name work name' work',
    store.cells[cell]? = some ⟨name, .pending work⟩ ∧
      store'.cells[cell']? = some ⟨name', .pending work'⟩ ∧ work.Alike likeness link work'

/-- Everything that the store holds refers to frames and cells of the store, and all cells are
pending. -/
abbrev WellFormed (likeness : Likeness) (store : Store) : Prop :=
  Mirrors likeness store.link store store

namespace Mirrors

variable {store store' store'' : Store}

theorem flip (h : Mirrors likeness link store store') :
    Mirrors likeness link.flip store' store := by
  refine ⟨fun frame frame' hframe => ?_, fun cell cell' hcell => ?_⟩
  · rcases h.frames _ _ hframe with ⟨hlt, hlt', halike⟩
    exact ⟨hlt', hlt, halike.flip⟩
  · rcases h.cells _ _ hcell with ⟨name, work, name', work', hsome, hsome', halike⟩
    exact ⟨name', work', name, work, hsome', hsome, halike.flip⟩

theorem comp (h : Mirrors likeness link store store') (h' : Mirrors likeness link' store' store'') :
    Mirrors likeness (link.comp link') store store'' := by
  refine ⟨fun frame frame'' hframe => ?_, fun cell cell'' hcell => ?_⟩
  · rcases hframe with ⟨frame', hfirst, hsecond⟩
    rcases h.frames _ _ hfirst with ⟨hlt, _, halike⟩
    rcases h'.frames _ _ hsecond with ⟨_, hlt', halike'⟩
    exact ⟨hlt, hlt', halike.comp halike'⟩
  · rcases hcell with ⟨cell', hfirst, hsecond⟩
    rcases h.cells _ _ hfirst with ⟨name, work, _, work', hsome, hsome', halike⟩
    rcases h'.cells _ _ hsecond with ⟨_, _, name'', work'', hmiddle, hlast, halike'⟩
    -- It is one and the same cell in the store between.
    cases hsome'.symm.trans hmiddle
    exact ⟨name, work, name'', work'', hsome, hlast, halike.comp halike'⟩

theorem union (h : Mirrors likeness link store store') (h' : Mirrors likeness link' store store') :
    Mirrors likeness (link.union link') store store' := by
  have hle := link.le_union_left link'
  have hle' := link.le_union_right link'
  refine ⟨fun frame frame' hframe => ?_, fun cell cell' hcell => ?_⟩
  · rcases hframe with hframe | hframe
    · rcases h.frames _ _ hframe with ⟨hlt, hlt', halike⟩
      exact ⟨hlt, hlt', halike.mono hle⟩
    · rcases h'.frames _ _ hframe with ⟨hlt, hlt', halike⟩
      exact ⟨hlt, hlt', halike.mono hle'⟩
  · rcases hcell with hcell | hcell
    · rcases h.cells _ _ hcell with ⟨name, work, name', work', hsome, hsome', halike⟩
      exact ⟨name, work, name', work', hsome, hsome', halike.mono hle⟩
    · rcases h'.cells _ _ hcell with ⟨name, work, name', work', hsome, hsome', halike⟩
      exact ⟨name, work, name', work', hsome, hsome', halike.mono hle'⟩

/-- Stores that mirror each other do so ever after. -/
theorem later (h : Mirrors likeness link store store') {later later' : Store}
    (hkeeps : store.Keeps later) (hkeeps' : store'.Keeps later') :
    Mirrors likeness link later later' := by
  refine ⟨fun frame frame' hframe => ?_, fun cell cell' hcell => ?_⟩
  · rcases h.frames _ _ hframe with ⟨hlt, hlt', halike⟩
    rw [← hkeeps.frame _ hlt, ← hkeeps'.frame _ hlt'] at halike
    exact ⟨Nat.lt_of_lt_of_le hlt hkeeps.size, Nat.lt_of_lt_of_le hlt' hkeeps'.size, halike⟩
  · rcases h.cells _ _ hcell with ⟨name, work, name', work', hsome, hsome', halike⟩
    exact ⟨name, work, name', work', hkeeps.cell _ _ hsome, hkeeps'.cell _ _ hsome', halike⟩

/-- What corresponds to anything is there. -/
theorem covers (h : Mirrors likeness link store store') : store.link.Covers link := by
  refine ⟨fun frame frame' hframe => ⟨rfl, (h.frames _ _ hframe).1⟩, fun cell cell' hcell => ?_⟩
  rcases h.cells _ _ hcell with ⟨_, _, _, _, hsome, _⟩
  exact ⟨rfl, (Array.getElem?_eq_some_iff.mp hsome).1⟩

/-! ### Lookups -/

/-- Lookups in mirroring stores go alike: all lazy bindings are pending, and are handed out
suspended. -/
theorem get (h : Mirrors likeness link store store') {scope scope' : Scope}
    (hscope : scope.Alike link scope') (name : String) :
    Except.Alike likeness (Value.StepAlike likeness link) (store.get scope name)
      (store'.get scope' name) := by
  refine get_alike name (fun frame frame' hframe => ?_) (fun cell cell' hcell => ?_) hscope
  · exact (h.frames _ _ hframe).2.2.get? name
  · rcases h.cells _ _ hcell with ⟨_, _, _, _, hsome, hsome', _⟩
    rw [hsome, hsome']
    exact .none

end Mirrors

/-! ## New frames -/

theorem pair_lt_succ_iff {a b n : Nat} : a = b ∧ a < n + 1 ↔ a = b ∧ a < n ∨ a = n ∧ b = n := by
  omega

section Child

variable (store : Store) (outer : Scope)

theorem size_child : (store.child outer).2.frames.size = store.frames.size + 1 := by
  simp [Store.child]

theorem frame_child (id : FrameId) : (store.child outer).2.frame id = store.frame id := by
  simp only [Store.child, Store.frame, Array.getD_eq_getD_getElem?, Array.getElem?_push]
  split
  · next hid => simp [hid]
  · rfl

theorem keeps_child : store.Keeps (store.child outer).2 :=
  ⟨by simp [size_child], fun id _ => frame_child store outer id, fun _ _ h => h⟩

theorem link_child :
    (store.child outer).2.link = store.link.withFrame store.frames.size store.frames.size := by
  ext frame frame'
  · simp only [Store.link, Link.withFrame, size_child]
    exact pair_lt_succ_iff
  · rfl

end Child

/-! ## Filling new frames -/

section SetLazy

variable (store : Store) (scope : Scope) (name : String) (work : Suspension)

theorem size_setLazy :
    (store.setLazy scope name work).2.frames.size = store.frames.size := by
  simp [Store.setLazy, Store.modifyFrame]

theorem cells_setLazy :
    (store.setLazy scope name work).2.cells = store.cells.push ⟨name, .pending work⟩ := rfl

theorem frame_setLazy_of_ne {id : FrameId} (hid : id ≠ scope.frame) :
    (store.setLazy scope name work).2.frame id = store.frame id := by
  simp [Store.setLazy, Store.modifyFrame, Store.frame, Array.getD_eq_getD_getElem?,
    Array.getElem?_modify, hid.symm]

theorem frame_setLazy_self (hid : scope.frame < store.frames.size) :
    (store.setLazy scope name work).2.frame scope.frame =
      (store.frame scope.frame).insert name (.lazy store.cells.size) := by
  simp only [Store.setLazy, Store.modifyFrame, Store.frame, Array.getD_eq_getD_getElem?,
    Array.getElem?_modify, if_true, Array.getElem?_eq_getElem hid, Option.map_some,
    Option.getD_some]

theorem link_setLazy :
    (store.setLazy scope name work).2.link =
      store.link.withCell store.cells.size store.cells.size := by
  ext frame frame'
  · simp only [Store.link, Link.withCell, size_setLazy]
  · simp only [Store.link, Link.withCell, cells_setLazy, Array.size_push]
    exact pair_lt_succ_iff

end SetLazy

/-- Filling a frame that is new changes nothing that was there before. -/
theorem Keeps.setLazy {store store' : Store} (h : store.Keeps store') {scope : Scope}
    (hnew : store.frames.size ≤ scope.frame) (name : String) (work : Suspension) :
    store.Keeps (store'.setLazy scope name work).2 := by
  refine ⟨(size_setLazy store' scope name work).symm ▸ h.size, fun id hid => ?_,
    fun id cell hcell => ?_⟩
  · have hne : id ≠ scope.frame := by omega
    exact (frame_setLazy_of_ne store' scope name work hne).trans (h.frame id hid)
  · have hcell' := h.cell id cell hcell
    have hne := Nat.ne_of_lt (Array.getElem?_eq_some_iff.mp hcell').1
    rw [cells_setLazy, Array.getElem?_push, if_neg hne]
    exact hcell'

namespace Mirrors

variable {store store' : Store}

/-- New frames on both sides correspond. -/
theorem child (h : Mirrors likeness link store store') (outer outer' : Scope) :
    Mirrors likeness (link.withFrame store.frames.size store'.frames.size)
      (store.child outer).2 (store'.child outer').2 := by
  have hlater := h.later (store.keeps_child outer) (store'.keeps_child outer')
  refine ⟨fun frame frame' hframe => ?_, fun cell cell' hcell => ?_⟩
  · rcases hframe with hframe | ⟨rfl, rfl⟩
    · rcases hlater.frames _ _ hframe with ⟨hlt, hlt', halike⟩
      exact ⟨hlt, hlt', halike.mono (link.le_withFrame _ _)⟩
    -- The new frames bind nothing yet.
    · have hempty : ∀ store : Store, store.frame store.frames.size = [] := fun store => by
        simp [Store.frame]
      rw [frame_child, frame_child, hempty, hempty, size_child, size_child]
      exact ⟨Nat.lt_succ_self _, Nat.lt_succ_self _, .nil⟩
  · rcases hlater.cells _ _ hcell with ⟨name, work, name', work', hsome, hsome', halike⟩
    exact ⟨name, work, name', work', hsome, hsome', halike.mono (link.le_withFrame _ _)⟩

/-- New frames correspond to nothing but each other. -/
theorem withFrame_only (h : Mirrors likeness link store store') (outer outer' : Scope)
    (frame frame' : FrameId)
    (hframe : (link.withFrame store.frames.size store'.frames.size).frames frame frame') :
    frame = (store.child outer).1.frame ↔ frame' = (store'.child outer').1.frame := by
  rcases hframe with hframe | ⟨rfl, rfl⟩
  · rcases h.frames _ _ hframe with ⟨hlt, hlt', _⟩
    exact ⟨fun heq => absurd heq (Nat.ne_of_lt hlt), fun heq => absurd heq (Nat.ne_of_lt hlt')⟩
  · exact ⟨fun _ => rfl, fun _ => rfl⟩

/-- Binding a name lazily in corresponding frames that correspond to nothing else. -/
theorem setLazy (h : Mirrors likeness link store store') {scope scope' : Scope}
    (honly : ∀ frame frame', link.frames frame frame' →
      (frame = scope.frame ↔ frame' = scope'.frame))
    (name : String) {work work' : Suspension} (hwork : work.Alike likeness link work') :
    Mirrors likeness (link.withCell store.cells.size store'.cells.size)
      (store.setLazy scope name work).2 (store'.setLazy scope' name work').2 := by
  have hle := link.le_withCell store.cells.size store'.cells.size
  refine ⟨fun frame frame' hpair => ?_, fun cell cell' hpair => ?_⟩
  · rw [size_setLazy, size_setLazy]
    rcases h.frames _ _ hpair with ⟨hlt, hlt', halike⟩
    refine ⟨hlt, hlt', ?_⟩
    -- Either both frames are the ones that are filled, or none is.
    by_cases hscope : frame = scope.frame
    · have hscope' := (honly _ _ hpair).mp hscope
      subst hscope hscope'
      rw [frame_setLazy_self _ _ _ _ hlt, frame_setLazy_self _ _ _ _ hlt']
      exact (halike.mono hle).insert name (.lazy (.inr ⟨rfl, rfl⟩))
    · have hscope' := fun heq => hscope ((honly _ _ hpair).mpr heq)
      rw [frame_setLazy_of_ne _ _ _ _ hscope, frame_setLazy_of_ne _ _ _ _ hscope']
      exact halike.mono hle
  · rw [cells_setLazy, cells_setLazy, Array.getElem?_push, Array.getElem?_push]
    -- Cells that were there before are found as before; the last ones are new.
    rcases hpair with hpair | ⟨rfl, rfl⟩
    · rcases h.cells _ _ hpair with ⟨bound, task, bound', task', hsome, hsome', halike⟩
      have hne := Nat.ne_of_lt (Array.getElem?_eq_some_iff.mp hsome).1
      have hne' := Nat.ne_of_lt (Array.getElem?_eq_some_iff.mp hsome').1
      rw [if_neg hne, if_neg hne']
      exact ⟨bound, task, bound', task', hsome, hsome', halike.mono hle⟩
    · rw [if_pos rfl, if_pos rfl]
      exact ⟨name, work, name, work', rfl, rfl, hwork.mono hle⟩

end Mirrors

namespace WellFormed

variable {store : Store}

theorem pending (h : WellFormed likeness store) {id : CellId} (hid : id < store.cells.size) :
    ∃ name work, store.cells[id]? = some ⟨name, .pending work⟩ ∧
      work.Alike likeness store.link work := by
  rcases h.cells id id ⟨rfl, hid⟩ with ⟨name, work, _, _, hsome, hsome', halike⟩
  cases hsome.symm.trans hsome'
  exact ⟨name, work, hsome, halike⟩

theorem child (h : WellFormed likeness store) (outer : Scope) :
    WellFormed likeness (store.child outer).2 := by
  rw [WellFormed, link_child]
  exact Mirrors.child h outer outer

theorem setLazy (h : WellFormed likeness store) (scope : Scope) (name : String) {work : Suspension}
    (hwork : work.Alike likeness store.link work) :
    WellFormed likeness (store.setLazy scope name work).2 := by
  rw [WellFormed, link_setLazy]
  refine Mirrors.setLazy h (fun frame frame' hpair => ?_) name hwork
  rw [hpair.1]

end WellFormed

end Store
end LazyLisp
