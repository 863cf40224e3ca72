import LazyLisp.Proofs.Lockstep.Store

/-!
# Store — stores that differ in where constants wait

An operand of a call waits in a cell, together with the scope of the caller.  If the operand is a
constant, that scope makes no difference to what it comes to.  So two stores *match* if they are
equal but for the scopes beside constants in cells.  This file defines:

* `Value.isSelfEvaluating`, the constants;
* `Suspension.Matches`, `Cell.Matches` and `Claim.Matches`, for work, for cells and for what comes of
  a demand;
* `Store.Matches`, which also says that all cells before a given one are equal.

Main results: `Store.Matches.answer`, that a request is answered the same in stores that match, and
`Store.Matches.claim`, that a demand comes to the same but for the scope beside a constant.
-/

namespace LazyLisp

/-! ## Constants -/

/-- Whether a form comes to itself, wherever it is evaluated. -/
def Value.isSelfEvaluating : Value → Bool
  | .nil | .bool _ | .number _ | .text _ | .key _ | .func _ => true
  | .symbol _ | .list _ | .vector _ | .map _ | .suspended _ => false

theorem Form.step_of_isSelfEvaluating {form : Value} (h : form.isSelfEvaluating = true)
    (scope : Scope) : Form.step form scope = pure form := by
  cases form
  case symbol | list | vector | map | suspended => cases h
  all_goals rfl

/-! ## Cells -/

/-- The same work, or the same constant in whatever scopes. -/
inductive Suspension.Matches : Suspension → Suspension → Prop where
  | same (work : Suspension) : Suspension.Matches work work
  | constant {form : Value} (scope scope' : Scope) : form.isSelfEvaluating = true →
      Suspension.Matches (.form form scope) (.form form scope')

/-- The same cell, or cells of the same name with matching work that nobody has begun. -/
inductive Cell.Matches : Cell → Cell → Prop where
  | same (cell : Cell) : Cell.Matches cell cell
  | pending (name : String) {work work' : Suspension} : work.Matches work' →
      Cell.Matches ⟨name, .pending work⟩ ⟨name, .pending work'⟩
  | started (name : String) (worker : EvaluationId) {work work' : Suspension} : work.Matches work' →
      Cell.Matches ⟨name, .started worker work⟩ ⟨name, .started worker work'⟩

inductive Claim.Matches : Claim → Claim → Prop where
  | same (claim : Claim) : Claim.Matches claim claim
  | run {work work' : Suspension} (worker : Option EvaluationId) : work.Matches work' →
      Claim.Matches (.run work worker) (.run work' worker)

theorem Suspension.Matches.callSite? {work work' : Suspension} (h : work.Matches work') :
    work.callSite? = work'.callSite? := by
  cases h with
  | same _ => rfl
  | constant _ _ _ => rfl

namespace Cell.Matches

variable {cell cell' : Cell}

theorem value? (h : cell.Matches cell') : cell.value? = cell'.value? := by
  cases h with
  | same _ => rfl
  | pending _ _ => rfl
  | started _ _ _ => rfl

theorem claim (me : EvaluationId) (h : cell.Matches cell') :
    (cell.claim me).1.Matches (cell'.claim me).1 ∧
      (cell.claim me).2.Matches (cell'.claim me).2 := by
  cases h with
  | same _ => exact ⟨.same _, .same _⟩
  | pending name hwork => exact ⟨.run none hwork, .same _⟩
  | started name worker hwork =>
      simp only [Cell.claim]
      split
      · exact ⟨.same _, .started name worker hwork⟩
      · exact ⟨.run (some worker) hwork, .same _⟩

theorem start (worker : EvaluationId) (h : cell.Matches cell') :
    (cell.start worker).Matches (cell'.start worker) := by
  cases h with
  | same _ => exact .same _
  | pending name hwork => exact .started name worker hwork
  | started name other hwork => exact .started name other hwork

theorem settle (result : Result) (h : cell.Matches cell') :
    (cell.settle result).Matches (cell'.settle result) := by
  cases h with
  | same _ => exact .same _
  | pending _ _ => exact .same _
  | started _ _ _ => exact .same _

end Cell.Matches

/-! ## Stores -/

/-- The same frames, matching cells, and the same of everything else.  The cells before `first` are
the same, too. -/
structure Store.Matches (first : CellId) (store store' : Store) : Prop where
  frames : store.frames = store'.frames
  cells : Entrywise Cell.Matches store.cells store'.cells
  first_le : first ≤ store.cells.size
  before : ∀ id < first, store.cells[id]? = store'.cells[id]?
  workers : store.workers = store'.workers
  output : store.output = store'.output
  world : store.world = store'.world

namespace Store.Matches

variable {first : CellId} {store store' : Store}

theorem refl (h : first ≤ store.cells.size) : store.Matches first store where
  frames := rfl
  cells := .self .same store.cells
  first_le := h
  before _ _ := rfl
  workers := rfl
  output := rfl
  world := rfl

/-! ### Lookups -/

theorem owner? (h : store.Matches first store') (scope : Scope) (name : String) :
    store.owner? scope name = store'.owner? scope name :=
  Store.owner?_congr h.frames scope name

theorem read (h : store.Matches first store') (binding : Binding) :
    store.read binding = store'.read binding := by
  cases binding with
  | value value => rfl
  | lazy id =>
      have hcell := h.cells id
      simp only [Store.read]
      generalize store.cells[id]? = cell at hcell ⊢
      generalize store'.cells[id]? = cell' at hcell ⊢
      cases hcell with
      | some hcell => simp only [Option.bind_some, hcell.value?]
      | none => rfl

theorem get (h : store.Matches first store') (scope : Scope) (name : String) :
    store.get scope name = store'.get scope name := by
  simp only [Store.get_by_owner, h.owner? scope name, h.read]

/-! ### Changes -/

theorem modifyFrame (h : store.Matches first store') (id : FrameId) (change : Frame → Frame) :
    (store.modifyFrame id change).Matches first (store'.modifyFrame id change) :=
  { h with frames := congrArg (·.modify id change) h.frames }

theorem modifyCell (h : store.Matches first store') (id : CellId) {change : Cell → Cell}
    (hchange : ∀ cell cell', cell.Matches cell' → (change cell).Matches (change cell')) :
    (store.modifyCell id change).Matches first (store'.modifyCell id change) :=
  { h with
    cells := h.cells.modify id hchange
    first_le := by simpa only [Store.modifyCell, Array.size_modify] using h.first_le
    before := fun other hother => by
      simp only [Store.modifyCell, Array.getElem?_modify, h.before other hother] }

theorem child (h : store.Matches first store') (outer : Scope) :
    (store.child outer).1 = (store'.child outer).1 ∧
      (store.child outer).2.Matches first (store'.child outer).2 := by
  refine ⟨?_, { h with frames := congrArg (·.push []) h.frames }⟩
  simp only [Store.child, h.frames]

theorem setLazy (h : store.Matches first store') (scope : Scope) (name : String)
    {work work' : Suspension} (hwork : work.Matches work') :
    (store.setLazy scope name work).1 = (store'.setLazy scope name work').1 ∧
      (store.setLazy scope name work).2.Matches first (store'.setLazy scope name work').2 := by
  have hsize := h.cells.size_eq
  have hcells : Store.Matches first
      { store with cells := store.cells.push ⟨name, .pending work⟩ }
      { store' with cells := store'.cells.push ⟨name, .pending work'⟩ } :=
    { h with
      cells := h.cells.push (.pending name hwork)
      first_le := by
        rw [Array.size_push]
        exact Nat.le_succ_of_le h.first_le
      before := fun id hid => by
        -- The new cell comes after all cells that are equal.
        have hlt : id < store.cells.size := Nat.lt_of_lt_of_le hid h.first_le
        have hne : id ≠ store.cells.size := Nat.ne_of_lt hlt
        rw [Array.getElem?_push, Array.getElem?_push, if_neg hne, if_neg (hsize ▸ hne)]
        exact h.before id hid }
  refine ⟨hsize, ?_⟩
  have hbound := hcells.modifyFrame scope.frame fun frame => frame.insert name (.lazy store.cells.size)
  simpa only [Store.setLazy, hsize] using hbound

theorem delete (h : store.Matches first store') (scope : Scope) (name : String) :
    (store.delete scope name).1 = (store'.delete scope name).1 ∧
      (store.delete scope name).2.Matches first (store'.delete scope name).2 := by
  simp only [Store.delete_by_owner, h.owner? scope name]
  cases store'.owner? scope name with
  | some owner => exact ⟨rfl, h.modifyFrame _ _⟩
  | none => exact ⟨rfl, h⟩

theorem startAsync (h : store.Matches first store') (scope : Scope) (name : String) :
    (store.startAsync scope name).1 = (store'.startAsync scope name).1 ∧
      (store.startAsync scope name).2.Matches first (store'.startAsync scope name).2 := by
  have hcounted : Store.Matches first { store with workers := store.workers + 1 }
      { store' with workers := store'.workers + 1 } :=
    { h with workers := congrArg (· + 1) h.workers }
  simp only [Store.startAsync_by_owner, h.owner? scope name, h.workers] at hcounted ⊢
  cases store'.owner? scope name with
  | none => exact ⟨rfl, h⟩
  | some owner =>
      rcases owner with ⟨id, value | cell⟩
      · exact ⟨rfl, h⟩
      · exact ⟨rfl, hcounted.modifyCell cell fun _ _ hcell => hcell.start _⟩

/-- A request is answered the same, and leaves stores that match. -/
theorem answer (h : store.Matches first store') (request : Request) :
    (store.answer request).1 = (store'.answer request).1 ∧
      (store.answer request).2.Matches first (store'.answer request).2 := by
  have hworld := h.world
  cases request with
  | lookup scope name => exact ⟨h.get scope name, h⟩
  | openScope outer => exact h.child outer
  | bind scope name value => exact ⟨rfl, h.modifyFrame _ _⟩
  | bindLazy scope name work => exact h.setLazy scope name (.same work)
  | unbind scope name => exact h.delete scope name
  | start scope name => exact h.startAsync scope name
  | print line => exact ⟨rfl, { h with output := congrArg (· ++ line ++ "\n") h.output }⟩
  | pause milliseconds =>
      exact ⟨rfl, { h with
        world := congrArg (fun world : World =>
          { world with clock := world.clock + milliseconds }) hworld }⟩
  | environmentVariable name =>
      exact ⟨congrArg (fun world : World => world.environment.lookup name) hworld, h⟩
  | clock => exact ⟨congrArg World.clock hworld, h⟩
  | tally =>
      exact ⟨congrArg (fun world : World => world.tally + 1) hworld, { h with
        world := congrArg (fun world : World => { world with tally := world.tally + 1 }) hworld }⟩

/-! ### Demands -/

/-- A demand comes to the same, but for the scope beside a constant. -/
theorem claim (h : store.Matches first store') (me : EvaluationId) (id : CellId) :
    (store.claim me id).1.Matches (store'.claim me id).1 ∧
      (store.claim me id).2.Matches first (store'.claim me id).2 := by
  have hcell := h.cells id
  have hmodified := h.modifyCell id fun _ _ hcell => (hcell.claim me).2
  simp only [Store.claim]
  generalize store.cells[id]? = cell at hcell ⊢
  generalize store'.cells[id]? = cell' at hcell ⊢
  cases hcell with
  | some hcell => exact ⟨(hcell.claim me).1, hmodified⟩
  | none => exact ⟨.same _, h⟩

theorem settle (h : store.Matches first store') (id : CellId) (result : Result) :
    (store.settle id result).Matches first (store'.settle id result) :=
  h.modifyCell id fun _ _ hcell => hcell.settle result

end Store.Matches
end LazyLisp
