import LazyLisp.Proofs.Alike.Link
import LazyLisp.Store.Basic

/-!
# Cell — cells that hold alike things

What a cell holds is compared along a link, which says how the frames and cells that it refers to
correspond.  Cells correspond if they have the same name and are in alike states.  This file defines
`Cell.Corresponds` and `Claim.Corresponds`, for cells in whatever state and for what comes of a
demand.

Main result: `Cell.Corresponds.claim`, that demands for corresponding cells come to alike things.
-/

namespace LazyLisp

variable {likeness : Likeness} {link link' : Link}

/-! ## States and claims -/

inductive Cell.State.Corresponds (likeness : Likeness) (link : Link) :
    Cell.State → Cell.State → Prop where
  | pending {work work' : Suspension} :
      work.Alike likeness link work' →
        Cell.State.Corresponds likeness link (.pending work) (.pending work')
  | started (worker : EvaluationId) {work work' : Suspension} :
      work.Alike likeness link work' →
        Cell.State.Corresponds likeness link (.started worker work) (.started worker work')
  | running (owner : EvaluationId) (worker : Option EvaluationId) :
      Cell.State.Corresponds likeness link (.running owner worker) (.running owner worker)
  | settled {result result' : Result} :
      Result.Alike likeness link result result' →
        Cell.State.Corresponds likeness link (.settled result) (.settled result')

/-- Cells of the same name in alike states. -/
structure Cell.Corresponds (likeness : Likeness) (link : Link) (cell cell' : Cell) : Prop where
  name : cell.name = cell'.name
  state : cell.state.Corresponds likeness link cell'.state

inductive Claim.Corresponds (likeness : Likeness) (link : Link) : Claim → Claim → Prop where
  | settled {result result' : Result} :
      Result.Alike likeness link result result' →
        Claim.Corresponds likeness link (.settled result) (.settled result')
  | run {work work' : Suspension} (worker : Option EvaluationId) :
      work.Alike likeness link work' →
        Claim.Corresponds likeness link (.run work worker) (.run work' worker)
  | selfDependent (name : String) :
      Claim.Corresponds likeness link (.selfDependent name) (.selfDependent name)
  | wait : Claim.Corresponds likeness link .wait .wait

namespace Cell.Corresponds

variable {cell cell' cell'' : Cell}

theorem mono (hle : link ≤ link') (h : cell.Corresponds likeness link cell') :
    cell.Corresponds likeness link' cell' := by
  rcases cell with ⟨name, state⟩
  rcases cell' with ⟨name', state'⟩
  refine ⟨h.name, ?_⟩
  cases h.state with
  | pending hwork => exact .pending (hwork.mono hle)
  | started worker hwork => exact .started worker (hwork.mono hle)
  | running owner worker => exact .running owner worker
  | settled hresult => exact .settled (hresult.imp fun _ _ hvalue => hvalue.mono hle)

theorem comp (h : cell.Corresponds likeness link cell')
    (h' : cell'.Corresponds likeness link' cell'') :
    cell.Corresponds likeness (link.comp link') cell'' := by
  rcases cell with ⟨name, state⟩
  rcases cell' with ⟨name', state'⟩
  rcases cell'' with ⟨name'', state''⟩
  rcases h' with ⟨hname', hstate'⟩
  refine ⟨h.name.trans hname', ?_⟩
  cases h.state with
  | pending hwork =>
      cases hstate' with
      | pending hwork' => exact .pending (hwork.comp hwork')
  | started worker hwork =>
      cases hstate' with
      | started _ hwork' => exact .started worker (hwork.comp hwork')
  | running owner worker =>
      cases hstate'
      exact .running owner worker
  | settled hresult =>
      cases hstate' with
      | settled hresult' => exact .settled (hresult.comp hresult')

theorem value? (h : cell.Corresponds likeness link cell') :
    Option.Rel (Value.Alike likeness link) cell.value? cell'.value? := by
  rcases cell with ⟨name, state⟩
  rcases cell' with ⟨name', state'⟩
  cases h.state with
  | settled hresult =>
      cases hresult with
      | ok hvalue => exact .some hvalue
      | error _ => exact .none
  | pending _ => exact .none
  | started _ _ => exact .none
  | running _ _ => exact .none

theorem claim (me : EvaluationId) (h : cell.Corresponds likeness link cell') :
    (cell.claim me).1.Corresponds likeness link (cell'.claim me).1 ∧
      (cell.claim me).2.Corresponds likeness link (cell'.claim me).2 := by
  rcases cell with ⟨name, state⟩
  rcases cell' with ⟨name', state'⟩
  rcases h with ⟨hname, hstate⟩
  cases hname
  cases hstate with
  | pending hwork => exact ⟨.run none hwork, rfl, .running me none⟩
  | started worker hwork =>
      -- The worker itself is refused, and everybody else takes over its work.
      by_cases hworker : worker = me
      · simp only [Cell.claim, if_pos hworker]
        exact ⟨.selfDependent name, rfl, .started worker hwork⟩
      · simp only [Cell.claim, if_neg hworker]
        exact ⟨.run _ hwork, rfl, .running me _⟩
  | running owner worker =>
      by_cases hself : owner = me ∨ worker = some me
      · simp only [Cell.claim, if_pos hself]
        exact ⟨.selfDependent name, rfl, .running owner worker⟩
      · simp only [Cell.claim, if_neg hself]
        exact ⟨.wait, rfl, .running owner worker⟩
  | settled hresult => exact ⟨.settled hresult, rfl, .settled hresult⟩

theorem start (worker : EvaluationId) (h : cell.Corresponds likeness link cell') :
    (cell.start worker).Corresponds likeness link (cell'.start worker) := by
  rcases cell with ⟨name, state⟩
  rcases cell' with ⟨name', state'⟩
  rcases h with ⟨hname, hstate⟩
  cases hstate with
  | pending hwork => exact ⟨hname, .started worker hwork⟩
  | started other hwork => exact ⟨hname, .started other hwork⟩
  | running owner other => exact ⟨hname, .running owner other⟩
  | settled hresult => exact ⟨hname, .settled hresult⟩

theorem settle {result result' : Result} (hresult : Result.Alike likeness link result result')
    (h : cell.Corresponds likeness link cell') :
    (cell.settle result).Corresponds likeness link (cell'.settle result') :=
  ⟨h.name, .settled hresult⟩

end Cell.Corresponds
end LazyLisp
