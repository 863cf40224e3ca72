import LazyLisp.Store.Cell

/-!
# Store — frames, cells and everything else that evaluation changes

An evaluation changes four things: the bindings in frames, the cells behind lazy bindings, the text
printed, and the world of the host program.  The store holds them.  A frame is a table of bindings;
which frames a form can see is said by its scope, so frames do not refer to each other.  This file
defines:

* `Binding` and `Frame`;
* `World`, what a host program's own functions look at;
* `Store`, with the operations on scopes: `get`, `contains`, `set`, `setLazy`, `delete`,
  `startAsync`, `localNames` and `child`;
* `Store.claim` and `Store.settle` for cells.

Reading a name goes through the frames of the scope one by one, and so does the search for the
*owner* of a name, the innermost frame that binds it.  `Store.get_by_owner` and the lemmas beside it
say that all operations on a name come to the same frame.  `Frame.get?_insert` and
`Frame.get?_erase` say what a change of a frame means to those who read it.
-/

namespace LazyLisp

/-! ## Frames -/

/-- What a name is bound to. -/
inductive Binding where
  | value (value : Value)
  | lazy (cell : CellId)

/-- A table of bindings, without a name twice. -/
abbrev Frame := List (String × Binding)

namespace Frame

def get? (frame : Frame) (name : String) : Option Binding :=
  frame.lookup name

def contains (frame : Frame) (name : String) : Bool :=
  (frame.get? name).isSome

def erase (frame : Frame) (name : String) : Frame :=
  frame.filter fun entry => entry.1 ≠ name

/-- Bind `name`, in place of an earlier binding. -/
def insert (frame : Frame) (name : String) (binding : Binding) : Frame :=
  (name, binding) :: frame.erase name

/-- The bound names, in order. -/
def names (frame : Frame) : List String :=
  (frame.map Prod.fst).mergeSort fun a b => decide (a ≤ b)

@[simp] theorem get?_nil (name : String) : Frame.get? [] name = none := rfl

theorem get?_cons (entry : String × Binding) (frame : Frame) (name : String) :
    Frame.get? (entry :: frame) name =
      if name = entry.1 then some entry.2 else frame.get? name := by
  obtain ⟨bound, binding⟩ := entry
  by_cases hname : name = bound
  · simp [Frame.get?, hname]
  · have hbeq : (name == bound) = false := by simp [hname]
    simp [Frame.get?, List.lookup_cons, hbeq, hname]

/-- Erasing a name takes away its binding, and no other. -/
theorem get?_erase (frame : Frame) (erased name : String) :
    (frame.erase erased).get? name = if name = erased then none else frame.get? name := by
  induction frame with
  | nil => simp [Frame.erase]
  | cons entry frame ih =>
      by_cases hentry : entry.1 = erased
      · have herase : Frame.erase (entry :: frame) erased = Frame.erase frame erased := by
          simp [Frame.erase, hentry]
        rw [herase, ih, get?_cons, hentry]
        split <;> rfl
      · have herase : Frame.erase (entry :: frame) erased = entry :: Frame.erase frame erased := by
          simp [Frame.erase, hentry]
        rw [herase, get?_cons, get?_cons, ih]
        by_cases hname : name = entry.1
        · simp [hname, hentry]
        · simp [hname]

/-- Binding a name changes what it is bound to, and nothing else. -/
theorem get?_insert (frame : Frame) (bound name : String) (binding : Binding) :
    (frame.insert bound binding).get? name =
      if name = bound then some binding else frame.get? name := by
  rw [Frame.insert, get?_cons, get?_erase]
  by_cases hname : name = bound <;> simp [hname]

end Frame

/-! ## The world of the host program -/

/-- What functions of the host program look at. -/
structure World where
  /-- Environment variables and their values. -/
  environment : List (String × String) := []
  /-- Milliseconds since 1970. -/
  clock : Nat := 0
  /-- Calls counted so far. -/
  tally : Nat := 0

/-! ## The store -/

/-- Everything that evaluation changes. -/
structure Store where
  frames : Array Frame := #[]
  cells : Array Cell := #[]
  /-- Workers started so far.  The main evaluation is number zero and workers follow it. -/
  workers : Nat := 0
  /-- Printed text that nobody has taken yet. -/
  output : String := ""
  world : World := {}

instance : Inhabited Store := ⟨{}⟩

namespace Store

/-- The bindings of a frame. -/
def frame (store : Store) (id : FrameId) : Frame :=
  store.frames.getD id []

/-- Change the bindings of a frame. -/
def modifyFrame (store : Store) (id : FrameId) (change : Frame → Frame) : Store :=
  { store with frames := store.frames.modify id change }

/-- Change a cell. -/
def modifyCell (store : Store) (id : CellId) (change : Cell → Cell) : Store :=
  { store with cells := store.cells.modify id change }

/-! ### Looking names up -/

/-- The innermost of the given frames that binds `name`, with the binding. -/
def ownerAmong (store : Store) (name : String) : List FrameId → Option (FrameId × Binding)
  | [] => none
  | id :: outer =>
      match (store.frame id).get? name with
      | some binding => some (id, binding)
      | none => store.ownerAmong name outer

/-- The innermost frame of `scope` that binds `name`, with the binding. -/
def owner? (store : Store) (scope : Scope) (name : String) : Option (FrameId × Binding) :=
  store.ownerAmong name scope.frames

/-- The owner of a name depends on the frames alone. -/
theorem owner?_congr {store store' : Store} (h : store.frames = store'.frames) (scope : Scope)
    (name : String) : store.owner? scope name = store'.owner? scope name := by
  have hframe : ∀ id, store.frame id = store'.frame id := fun id => by
    rw [frame, frame, h]
  have hamong : ∀ ids, store.ownerAmong name ids = store'.ownerAmong name ids := by
    intro ids
    induction ids with
    | nil => rfl
    | cons id outer ih => rw [ownerAmong, ownerAmong, hframe, ih]
  exact hamong scope.frames

/-- The failure to find `name`. -/
def unresolved (name : String) : Failure := { cause := .unresolvedSymbol name }

/-- What reading a binding yields.  A lazy binding that has no value yet is handed out suspended. -/
def read (store : Store) : Binding → Value
  | .value value => value
  | .lazy id => ((store.cells[id]?).bind Cell.value?).getD (.suspended (.binding id))

/-- What is read of `name` in the first of the given frames that binds it. -/
def getAmong (store : Store) (name : String) : List FrameId → Result
  | [] => .error (unresolved name)
  | id :: outer =>
      match (store.frame id).get? name with
      | some binding => .ok (store.read binding)
      | none => store.getAmong name outer

/-- The value of `name` in `scope`. -/
def get (store : Store) (scope : Scope) (name : String) : Result :=
  store.getAmong name scope.frames

/-- Whether some frame of `scope` binds `name`. -/
def contains (store : Store) (scope : Scope) (name : String) : Bool :=
  scope.frames.any fun id => (store.frame id).contains name

/-- The frame of `scope` that owns `name`. -/
def holder? (store : Store) (scope : Scope) (name : String) : Option FrameId :=
  scope.frames.find? fun id => (store.frame id).contains name

/-- The names bound in the innermost frame of `scope` itself, in order. -/
def localNames (store : Store) (scope : Scope) : List String :=
  (store.frame scope.frame).names

/-! ### Changing bindings -/

/-- A new scope with one empty frame of its own, and nothing around it. -/
def root (store : Store) : Scope × Store :=
  (⟨store.frames.size, []⟩, { store with frames := store.frames.push [] })

/-- A new scope with one empty frame of its own inside `scope`. -/
def child (store : Store) (scope : Scope) : Scope × Store :=
  (⟨store.frames.size, scope.frames⟩, { store with frames := store.frames.push [] })

/-- Bind `name` in the innermost frame of `scope`. -/
def set (store : Store) (scope : Scope) (name : String) (value : Value) : Store :=
  store.modifyFrame scope.frame fun frame => frame.insert name (.value value)

/-- Bind `name` in the innermost frame of `scope` to work that is done when it is first asked for.
The new cell is the work's only holder: binding the name again leaves it as it is. -/
def setLazy (store : Store) (scope : Scope) (name : String) (work : Suspension) : CellId × Store :=
  let id := store.cells.size
  let store := { store with cells := store.cells.push ⟨name, .pending work⟩ }
  (id, store.modifyFrame scope.frame fun frame => frame.insert name (.lazy id))

/-- Remove the binding of `name` from the frame that owns it. -/
def delete (store : Store) (scope : Scope) (name : String) : Except Failure Unit × Store :=
  match store.holder? scope name with
  | some id => (.ok (), store.modifyFrame id fun frame => frame.erase name)
  | none => (.error (unresolved name), store)

/-! ### Cells -/

/-- Hand the lazy binding of `name` to a new worker.  Nothing happens to a binding that holds a
value or is already being resolved.  The store notes whose work it is; `Async.System.after` makes the
thread on which the worker sets to it. -/
def startAsync (store : Store) (scope : Scope) (name : String) : Except Failure Unit × Store :=
  match store.holder? scope name with
  | none => (.error (unresolved name), store)
  | some frame =>
      match (store.frame frame).get? name with
      | some (.lazy id) =>
          let worker := store.workers + 1
          (.ok (), { store with workers := worker }.modifyCell id (Cell.start worker))
      | some (.value _) => (.ok (), store)
      | none => (.error (unresolved name), store)

/-- A demand for a cell by the evaluation `me`. -/
def claim (store : Store) (me : EvaluationId) (id : CellId) : Claim × Store :=
  match store.cells[id]? with
  | some cell => ((cell.claim me).1, store.modifyCell id fun cell => (cell.claim me).2)
  | none => (.wait, store)

/-- Store the outcome of a cell. -/
def settle (store : Store) (id : CellId) (result : Result) : Store :=
  store.modifyCell id (Cell.settle result)

/-! ### Printed text -/

/-- Print a line. -/
def print (store : Store) (line : String) : Store :=
  { store with output := store.output ++ line ++ "\n" }

/-- Take the printed text away. -/
def takeOutput (store : Store) : String × Store :=
  (store.output, { store with output := "" })

/-! ### Operations on a name

Each of them looks for the name by itself; all of them come to its owner. -/

/-- The owner is the first frame that binds the name, with the binding there. -/
theorem ownerAmong_eq_find? (store : Store) (name : String) (ids : List FrameId) :
    store.ownerAmong name ids =
      (ids.find? fun id => (store.frame id).contains name).bind fun id =>
        ((store.frame id).get? name).map (Prod.mk id) := by
  induction ids with
  | nil => rfl
  | cons id outer ih =>
      rw [ownerAmong, List.find?_cons, Frame.contains]
      cases hbinding : (store.frame id).get? name with
      | some binding => simp [hbinding]
      | none => simpa using ih

theorem getAmong_by_owner (store : Store) (name : String) (ids : List FrameId) :
    store.getAmong name ids =
      match store.ownerAmong name ids with
      | some (_, binding) => .ok (store.read binding)
      | none => .error (unresolved name) := by
  induction ids with
  | nil => rfl
  | cons id outer ih =>
      rw [getAmong, ownerAmong]
      cases (store.frame id).get? name with
      | some binding => rfl
      | none => exact ih

theorem get_by_owner (store : Store) (scope : Scope) (name : String) :
    store.get scope name =
      match store.owner? scope name with
      | some (_, binding) => .ok (store.read binding)
      | none => .error (unresolved name) :=
  store.getAmong_by_owner name scope.frames

theorem contains_by_owner (store : Store) (scope : Scope) (name : String) :
    store.contains scope name = (store.owner? scope name).isSome := by
  rw [contains, owner?]
  induction scope.frames with
  | nil => rfl
  | cons id outer ih =>
      rw [ownerAmong, List.any_cons, Frame.contains]
      cases (store.frame id).get? name with
      | some binding => rfl
      | none => exact ih

/-- Where there is an owner, it has a binding to be found. -/
theorem holder?_by_owner (store : Store) (scope : Scope) (name : String) :
    (store.holder? scope name = none ∧ store.owner? scope name = none) ∨
      ∃ id binding, store.holder? scope name = some id ∧
        (store.frame id).get? name = some binding ∧
          store.owner? scope name = some (id, binding) := by
  rw [holder?, owner?, ownerAmong_eq_find?]
  cases hfind : scope.frames.find? fun id => (store.frame id).contains name with
  | none => exact .inl ⟨rfl, rfl⟩
  | some id =>
      have hcontains : (store.frame id).contains name = true :=
        by simpa using List.find?_some hfind
      rcases Option.isSome_iff_exists.mp hcontains with ⟨binding, hbinding⟩
      refine .inr ⟨id, binding, rfl, hbinding, ?_⟩
      rw [Option.bind_some, hbinding, Option.map_some]

theorem delete_by_owner (store : Store) (scope : Scope) (name : String) :
    store.delete scope name =
      match store.owner? scope name with
      | some (id, _) => (.ok (), store.modifyFrame id fun frame => frame.erase name)
      | none => (.error (unresolved name), store) := by
  rw [delete]
  rcases store.holder?_by_owner scope name with ⟨hholder, howner⟩ | ⟨id, binding, hholder, -, howner⟩
  · rw [hholder, howner]
  · rw [hholder, howner]

theorem startAsync_by_owner (store : Store) (scope : Scope) (name : String) :
    store.startAsync scope name =
      match store.owner? scope name with
      | some (_, .lazy id) =>
          let worker := store.workers + 1
          (.ok (), { store with workers := worker }.modifyCell id (Cell.start worker))
      | some (_, .value _) => (.ok (), store)
      | none => (.error (unresolved name), store) := by
  rw [startAsync]
  rcases store.holder?_by_owner scope name with
    ⟨hholder, howner⟩ | ⟨id, binding, hholder, hbinding, howner⟩
  · rw [hholder, howner]
  · rw [hholder, howner]
    cases binding <;> simp only [hbinding]

end Store
end LazyLisp
