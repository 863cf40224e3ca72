import LazyLisp.Proofs.Direct.ByName
import LazyLisp.Proofs.Store.Cells

/-!
# Sharing — a store of call by need and its image in call by name

Call by need resolves a cell once, and call by name does the same work again and again.  The two
meet in an *image* of the store of call by need: it has the same frames, and the same cells, but all
of them pending.  The image is never what call by name comes to, which has copies of its own of
everything that is evaluated twice; it is the store in which call by name reproduces what the
settled cells hold.  This file defines:

* `Direct.Reproduces`, that call by name comes to a given result;
* `Direct.Shares`, a store and its image;

and shows what operations on stores make of the two.
-/

namespace LazyLisp
namespace Direct

open Machine (Control mainEvaluation)

variable {host : Host}

/-! ## Results that call by name reproduces -/

/-- From the store `before`, call by name comes to a result like the given one.  The store `after`
holds what the given result refers to. -/
inductive Reproduces (host : Host) (before : Store) (control : Control) (after : Store)
    (result : Result) : Prop where
  | intro {fuel : Nat} {result' : Result} {later : Store} {link : Link}
      (outcome : outcome .byName host fuel mainEvaluation none control before =
        some (result', later))
      (le : before.link ≤ link) (keeps : before.Keeps later)
      (mirrors : after.Mirrors .quiet link later)
      (alike : Result.Alike .quiet link result result') :
      Reproduces host before control after result

/-- The task of resolving a cell with the given work. -/
abbrev resolving (work : Suspension) : Control :=
  .run (.done (.ok (.suspended work)))

namespace Reproduces

variable {before after now : Store} {control control' : Control} {result : Result}

/-- What has come out already. -/
theorem done (hwell : before.WellFormed .quiet)
    (halike : Result.Alike .quiet before.link result result) :
    Reproduces host before (.run (.done result)) before result := by
  exact ⟨outcome_done halike.ne_suspended 0 mainEvaluation before, le_rfl, .refl before, hwell,
    halike⟩

/-- What a later task reproduces, an earlier one does that leads to it. -/
theorem of_later {middle : Store} {count : Nat} (h : Reproduces host middle control' after result)
    (hkeeps : before.Keeps middle)
    (hlead : ∀ fuel, outcome .byName host (fuel + count) mainEvaluation none control before =
      outcome .byName host fuel mainEvaluation none control' middle) :
    Reproduces host before control after result := by
  rcases h with ⟨houtcome, hle, hlater, hmirrors, halike⟩
  exact ⟨(hlead _).trans houtcome, hkeeps.link_le.trans hle, hkeeps.trans hlater, hmirrors, halike⟩

theorem of_step (h : Reproduces host before control' after result)
    (hlead : ∀ fuel, outcome .byName host (fuel + 1) mainEvaluation none control before =
      outcome .byName host fuel mainEvaluation none control' before) :
    Reproduces host before control after result :=
  h.of_later (.refl before) hlead

/-- A demand reproduces what the work of the cell does. -/
theorem demand {cell : CellId} {name : String} {work : Suspension}
    (hcell : before.cells[cell]? = some ⟨name, .pending work⟩)
    (h : Reproduces host before (resolving work) after result) :
    Reproduces host before (.resume (.binding cell)) after result := by
  rcases h with @⟨fuel, result', later, link, houtcome, hle, hlater, hmirrors, halike⟩
  have hdemand : outcome .byName host (fuel + 2) mainEvaluation none (.resume (.binding cell))
      before = some (result', later) := by
    rw [outcome_demand hcell, outcome_succ houtcome]
    exact outcome_done_outcome houtcome fuel
  exact ⟨hdemand, hle, hlater, hmirrors, halike⟩

/-- What passes a caller is still alike. -/
theorem of_done {discipline : Discipline} {fuel : Nat} {caller : Option CallSite}
    {store store' : Store} {result' : Result} (h : Reproduces host before control after result)
    (hdone : outcome discipline host fuel mainEvaluation caller (.run (.done result)) store =
      some (result', store')) :
    store' = store ∧ Reproduces host before control after result' := by
  rcases h with ⟨houtcome, hle, hlater, hmirrors, halike⟩
  cases fuel with
  | zero => cases hdone
  | succ fuel =>
      cases halike with
      | error hfailure =>
          cases hdone
          refine ⟨rfl, houtcome, hle, hlater, hmirrors, .error ⟨?_, trivial⟩⟩
          cases caller <;> exact hfailure.1
      | ok hvalue =>
          cases hvalue with
          -- Nothing that is reproduced is suspended.
          | suspended hthunks _ => exact hthunks.elim
          | _ =>
              cases hdone
              refine ⟨rfl, houtcome, hle, hlater, hmirrors, .ok ?_⟩
              constructor <;> assumption

/-- The result is made of what is there. -/
theorem alike_self (h : Reproduces host before control after result) :
    Result.Alike .quiet after.link result result := by
  rcases h with ⟨_, _, _, hmirrors, halike⟩
  cases halike with
  | ok hvalue => exact .ok (hvalue.left hmirrors.covers)
  | error _ => exact .error (Failure.alike_refl _)

/-- Call by name still comes to the same result in a later store. -/
theorem later (h : Reproduces host before control after result) (hbefore : before.Keeps now)
    (hafter : after.Keeps now) (hwell : before.WellFormed .quiet) (hnow : now.WellFormed .quiet)
    (hcontrol : control.Alike .quiet before.link control) (hquiet : control.Quiet) :
    Reproduces host now control now result := by
  rcases h with @⟨_, _, _, link, houtcome, _, _, hmirrors, halike⟩
  rcases corresponds_of_mirrors houtcome (hwell.later (.refl before) hbefore) hcontrol hquiet hquiet
    with ⟨_, houtcome', @⟨_, _, _, _, link', _, _, hlater', hmirrors', halike'⟩⟩
  -- The copies that are made now, and what was there already.
  have hcopies := (hmirrors.comp hmirrors').later hafter (.refl _)
  have hpresent := hnow.later (.refl now) hlater'
  exact ⟨houtcome', (link.comp link').le_union_right now.link, hlater', hcopies.union hpresent,
    (halike.comp halike').imp fun _ _ h => h.mono ((link.comp link').le_union_left now.link)⟩

/-- What a script reproduces that goes on with the outcome of a form. -/
theorem eval {form : Value} {scope : Scope} {next : Result → Script Value} {middle : Store}
    {first : Result} (h : Reproduces host before (.run (Form.step form scope)) middle first)
    (h' : Reproduces host middle (.run (next first)) after result) (hkeeps : before.Keeps middle)
    (hnext : ∀ link, before.link ≤ link → ∀ result result',
      Result.Alike .quiet link result result' →
        Script.StepAlike .quiet link (next result) (next result'))
    (hquiet : ∀ result, (next result).Quiet) :
    Reproduces host before (.run (.eval form scope next)) after result := by
  rcases h with @⟨fuel, first', copied, link, houtcome, hle, hcopied, hmirrors, halike⟩
  rcases h' with @⟨fuel', result', later, link', houtcome', hle', hlater, hmirrors', halike'⟩
  -- Call by name goes on with a copy of the first outcome.
  have hscript := hnext link hle first first' halike
  rcases corresponds_of_mirrors houtcome' hmirrors (.run hscript) (hquiet _) (hquiet _) with
    ⟨_, hfinal, @⟨_, final, _, finalStore, link'', hle'', _, hkeeps'', hmirrors'', halike''⟩⟩
  have heval : outcome .byName host (max fuel fuel' + 1) mainEvaluation none
      (.run (.eval form scope next)) before = some (final, finalStore) := by
    rw [outcome, outcome_mono (Nat.le_max_left fuel fuel') houtcome]
    exact outcome_mono (Nat.le_max_right fuel fuel') hfinal
  exact ⟨heval, Store.link_le_comp (hkeeps.link_le.trans hle') (hle.trans hle''),
    hcopied.trans hkeeps'', hmirrors'.comp hmirrors'', halike'.comp halike''⟩

end Reproduces

/-! ## Images -/

/-- What a cell of call by need has to do with the work that is pending in its image.  A result has
been reproduced in the store `base`. -/
def Resolves (host : Host) (base : Store) (work : Suspension) : Cell.State → Prop
  | .pending task => task = work
  | .started _ _ => False
  | .running _ _ => True
  | .settled result =>
      work.Alike .quiet base.link work ∧ Reproduces host base (resolving work) base result

/-- The store of call by need has the given image: the same frames, and the same cells, but pending.
What has been settled is reproduced in the store `base`, which the image keeps. -/
structure Shares (host : Host) (base store image : Store) : Prop where
  frames : store.frames = image.frames
  size : store.cells.size = image.cells.size
  cells : ∀ (id : CellId) (cell : Cell), store.cells[id]? = some cell →
    ∃ name work, image.cells[id]? = some ⟨name, .pending work⟩ ∧ Resolves host base work cell.state
  wellBased : base.WellFormed .quiet
  keeps : base.Keeps image
  wellFormed : image.WellFormed .quiet

namespace Shares

variable {base store image : Store}

/-- What was reproduced in an earlier store is reproduced in the image itself. -/
theorem rebase (h : Shares host base store image) : Shares host image store image := by
  refine ⟨h.frames, h.size, fun id cell hcell => ?_, h.wellFormed, .refl image, h.wellFormed⟩
  rcases h.cells id cell hcell with ⟨name, work, himage, hresolves⟩
  refine ⟨name, work, himage, ?_⟩
  rcases cell with ⟨_, task | ⟨worker, task⟩ | ⟨owner, worker⟩ | result⟩
  · exact hresolves
  · exact hresolves
  · exact hresolves
  -- A settled cell: what was reproduced once is reproduced later too.
  · have hcontrol : (resolving work).Alike .quiet base.link (resolving work) :=
      .run (.done (.ok (.suspended hresolves.1)))
    exact ⟨hresolves.1.mono h.keeps.link_le,
      hresolves.2.later h.keeps h.keeps h.wellBased h.wellFormed hcontrol (.done _)⟩

/-- Every cell is pending in the image. -/
theorem pending (h : Shares host base store image) {id : CellId} {cell : Cell}
    (hcell : store.cells[id]? = some cell) :
    ∃ name work, image.cells[id]? = some ⟨name, .pending work⟩ :=
  let ⟨name, work, himage, _⟩ := h.cells id cell hcell
  ⟨name, work, himage⟩

/-- Every cell of the image is there. -/
theorem found (h : Shares host base store image) {id : CellId} {name : String} {work : Suspension}
    (hpending : image.cells[id]? = some ⟨name, .pending work⟩) :
    ∃ cell, store.cells[id]? = some cell ∧ Resolves host base work cell.state := by
  have hlt := (Array.getElem?_eq_some_iff.mp hpending).1
  rw [← h.size] at hlt
  have hcell := Array.getElem?_eq_getElem hlt
  rcases h.cells id _ hcell with ⟨_, _, hsame, hresolves⟩
  cases hpending.symm.trans hsame
  exact ⟨_, hcell, hresolves⟩

theorem owner?_eq (h : Shares host base store image) (scope : Scope) (name : String) :
    store.owner? scope name = image.owner? scope name := by
  have hamong : ∀ ids, store.ownerAmong name ids = image.ownerAmong name ids := by
    intro ids
    induction ids with
    | nil => rfl
    | cons id outer ih => simp only [Store.ownerAmong, Store.frame, h.frames, ih]
  exact hamong _

/-- Lookups differ only in that call by need hands out the value of a settled cell. -/
theorem get (h : Shares host base store image) (scope : Scope) (name : String) :
    store.get scope name = image.get scope name ∨
      ∃ id bound value, image.get scope name = .ok (.suspended (.binding id)) ∧
        store.get scope name = .ok value ∧
          store.cells[id]? = some ⟨bound, .settled (.ok value)⟩ := by
  simp only [Store.get_by_owner, h.owner?_eq]
  cases image.owner? scope name with
  | none => exact .inl rfl
  | some owner =>
      rcases owner with ⟨_, _ | id⟩
      · exact .inl rfl
      · simp only [Store.read]
        cases hcell : store.cells[id]? with
        | none =>
            have himage : image.cells[id]? = none := by
              rw [Array.getElem?_eq_none_iff] at hcell ⊢
              exact h.size ▸ hcell
            exact .inl (by rw [himage])
        | some cell =>
            rcases h.pending hcell with ⟨bound, work, himage⟩
            rcases cell with ⟨name, _ | _ | _ | (_ | value)⟩
            · exact .inl (by rw [himage]; rfl)
            · exact .inl (by rw [himage]; rfl)
            · exact .inl (by rw [himage]; rfl)
            · exact .inl (by rw [himage]; rfl)
            -- Only a cell that is settled with a value is read differently in the image.
            · exact .inr ⟨id, name, value, by rw [himage]; rfl, rfl, hcell⟩

theorem replaceCell (h : Shares host base store image) {id : CellId} {cell : Cell}
    (hcell : ∀ name work, image.cells[id]? = some ⟨name, .pending work⟩ →
      Resolves host base work cell.state) :
    Shares host base (store.replaceCell id cell) image := by
  refine ⟨h.frames, Store.size_replaceCell.trans h.size, fun other found hfound => ?_, h.wellBased,
    h.keeps, h.wellFormed⟩
  by_cases heq : id = other
  · subst heq
    cases hold : store.cells[id]? with
    | none =>
        rw [Array.getElem?_eq_none_iff] at hold
        have hlt := (Array.getElem?_eq_some_iff.mp hfound).1
        rw [Store.size_replaceCell] at hlt
        exact absurd hlt (Nat.not_lt.mpr hold)
    | some old =>
        rw [Store.getElem?_replaceCell_self hold] at hfound
        cases hfound
        rcases h.pending hold with ⟨name, work, himage⟩
        exact ⟨name, work, himage, hcell name work himage⟩
  · rw [Store.getElem?_replaceCell_of_ne heq] at hfound
    exact h.cells other found hfound

/-- A cell is settled with what call by name makes of its work. -/
theorem settle (h : Shares host base store image) {id : CellId} {cell : Cell} {name : String}
    {work : Suspension} {result : Result} (hcell : store.cells[id]? = some cell)
    (hpending : image.cells[id]? = some ⟨name, .pending work⟩)
    (hwork : work.Alike .quiet base.link work)
    (hresult : Reproduces host base (resolving work) base result) :
    Shares host base (store.settle id result) image := by
  rw [Store.settle_eq hcell]
  refine h.replaceCell fun name' work' hpending' => ?_
  cases hpending.symm.trans hpending'
  exact ⟨hwork, hresult⟩

theorem child (h : Shares host base store image) (outer : Scope) :
    Shares host base (store.child outer).2 (image.child outer).2 :=
  ⟨congrArg (fun frames => frames.push []) h.frames, h.size, h.cells, h.wellBased,
    h.keeps.trans (image.keeps_child outer), h.wellFormed.child outer⟩

theorem setLazy (h : Shares host base store image) {scope : Scope}
    (hnew : base.frames.size ≤ scope.frame) (name : String) {work : Suspension}
    (hwork : work.Alike .quiet image.link work) :
    Shares host base (store.setLazy scope name work).2 (image.setLazy scope name work).2 := by
  refine ⟨?_, ?_, fun id cell hcell => ?_, h.wellBased, h.keeps.setLazy hnew name work,
    h.wellFormed.setLazy scope name hwork⟩
  · simp only [Store.setLazy, Store.modifyFrame, h.frames, h.size]
  · rw [Store.cells_setLazy, Store.cells_setLazy, Array.size_push, Array.size_push, h.size]
  · rw [Store.cells_setLazy, Array.getElem?_push] at hcell ⊢
    rw [h.size] at hcell
    split at hcell
    · next heq =>
        cases hcell
        exact ⟨name, work, if_pos heq, rfl⟩
    · next hne =>
        rcases h.cells id cell hcell with ⟨bound, task, himage, hresolves⟩
        exact ⟨bound, task, (if_neg hne).trans himage, hresolves⟩

end Shares

/-- Call by need and call by name fill a new frame alike. -/
theorem shares_of_fills {inner : Scope} {script : Script Value} {base store image : Store}
    (hfills : Script.Fills inner script) (h : Shares host base store image)
    (halike : Script.StepAlike .quiet image.link script script)
    (hnew : base.frames.size ≤ inner.frame) :
    ∃ count result store' image', script.Answered count store result store' ∧
      script.Answered count image result image' ∧ Shares host base store' image' ∧
        image.link ≤ image'.link ∧
          Except.Alike .quiet (Value.StepAlike .quiet image'.link) result result ∧
            ∀ id, store'.Runs id → store.Runs id := by
  induction hfills generalizing store image with
  | done result =>
      cases halike with
      | done hresult =>
          exact ⟨0, result, store, image, .done _ _, .done _ _, h, le_rfl, hresult, fun _ => id⟩
  | bindLazy name work _ ih =>
      cases halike with
      | ask hrequest hnext =>
          cases hrequest with
          | bindLazy _ hscope hwork =>
              have hle : image.link ≤ (image.setLazy inner name work).2.link := by
                rw [Store.link_setLazy]
                exact Link.le_withCell _ _ _
              have hcell : (image.setLazy inner name work).2.link.cells image.cells.size
                  image.cells.size := by
                rw [Store.link_setLazy]
                exact .inr ⟨rfl, rfl⟩
              have hshares := h.setLazy hnew name hwork
              rcases ih image.cells.size hshares (hnext _ hle _ _ hcell) with
                ⟨count, result, store', image', hdone, hdone', hshares', hle', hresult, hruns⟩
              -- The new cell has the same identity in both stores.
              rw [← h.size] at hdone
              refine ⟨count + 1, result, store', image', .ask hdone, .ask hdone', hshares',
                hle.trans hle', hresult, fun id hid => ?_⟩
              exact (hruns id hid).of_setLazy

/-- Call by need and call by name open a scope and fill it alike. -/
theorem shares_of_openScope {outer : Scope} {next : Scope → Script Value} {store image : Store}
    (h : Shares host image store image) (houter : outer.Alike image.link outer)
    (hfills : ∀ inner, Script.Fills inner (next inner))
    (hnext : ∀ link, image.link ≤ link → ∀ inner inner', Scope.Alike link inner inner' →
      Script.StepAlike .quiet link (next inner) (next inner')) :
    ∃ count result store' image',
      Script.Answered count (.ask (.openScope outer) next) store result store' ∧
        Script.Answered count (.ask (.openScope outer) next) image result image' ∧ 0 < count ∧
          Shares host image store' image' ∧
            Except.Alike .quiet (Value.StepAlike .quiet image'.link) result result ∧
              ∀ id, store'.Runs id → store.Runs id := by
  have hinner : (store.child outer).1 = (image.child outer).1 := by
    simp only [Store.child, h.frames]
  have hle : image.link ≤ (image.child outer).2.link := (image.keeps_child outer).link_le
  have hscope : (image.child outer).1.Alike (image.child outer).2.link (image.child outer).1 := by
    rw [Store.link_child]
    have hle := image.link.le_withFrame image.frames.size image.frames.size
    exact ⟨.inr ⟨rfl, rfl⟩, .cons (hle.1 _ _ houter.1) (houter.2.imp hle.1)⟩
  rcases shares_of_fills (hfills _) (h.child outer) (hnext _ hle _ _ hscope) (Nat.le_refl _) with
    ⟨count, result, store', image', hdone, hdone', hshares, _, hresult, hruns⟩
  -- The new scope is the same in both stores, as their frames are.
  rw [← hinner] at hdone
  exact ⟨count + 1, result, store', image', .ask hdone, .ask hdone', Nat.succ_pos count, hshares,
    hresult, hruns⟩

end Direct
end LazyLisp
