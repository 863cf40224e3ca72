import LazyLisp.Proofs.Direct.Sharing
import Mathlib.Data.Nat.Find

/-!
# Memoization — call by need and call by name come to the same

In the quiet part of the language nothing that is evaluated can tell whether it is evaluated again.
What call by need comes to, call by name reproduces in an image of the store
(`Direct.reproduces_of_strict`), by induction on the evaluation of call by need.

Conversely, call by need comes to an end where call by name does (`Direct.terminates_of_byName`).
The danger is a binding that demands itself.  Its work would have an outcome in call by name that
takes less fuel than the least fuel that gives it one.
-/

namespace LazyLisp
namespace Direct

open Machine (Control mainEvaluation)

variable {host : Host}

/-! ## From call by need to call by name -/

/-- Call by name reproduces the result in a later image, and no more cells run than before. -/
def ReproducesLater (host : Host) (store image : Store) (control : Control) (store' : Store)
    (result : Result) : Prop :=
  ∃ after, Shares host after store' after ∧ image.Keeps after ∧
    Reproduces host image control after result ∧ ∀ id, store'.Runs id → store.Runs id

theorem ReproducesLater.of_step {store image store' : Store} {control control' : Control}
    {result : Result} (h : ReproducesLater host store image control' store' result)
    (hlead : ∀ fuel, outcome .byName host (fuel + 1) mainEvaluation none control image =
      outcome .byName host fuel mainEvaluation none control' image) :
    ReproducesLater host store image control store' result := by
  rcases h with ⟨after, hshares, hkeeps, hreproduces, hruns⟩
  exact ⟨after, hshares, hkeeps, hreproduces.of_step hlead, hruns⟩

section Strict

variable {store : Store} {me : EvaluationId} {id : CellId} {name : String}

theorem claim_strict_of_pending {work : Suspension}
    (h : store.cells[id]? = some ⟨name, .pending work⟩) :
    Discipline.strict.traced.claim store me id =
      (.run work none, store.replaceCell id ⟨name, .running me none⟩) := by
  simp only [Discipline.traced, Discipline.strict, Store.claim_of_pending h]

theorem claim_strict_of_settled {result : Result}
    (h : store.cells[id]? = some ⟨name, .settled result⟩) :
    Discipline.strict.traced.claim store me id = (.settled result, store) := by
  simp only [Discipline.traced, Discipline.strict, Store.claim_of_settled h]

/-- A binding that is being resolved has no outcome, be it for itself or for others. -/
theorem claim_strict_of_running {owner : EvaluationId} {worker : Option EvaluationId}
    (h : store.cells[id]? = some ⟨name, .running owner worker⟩) :
    Discipline.strict.traced.claim store me id = (.wait, store) := by
  by_cases hme : owner = me ∨ worker = some me
  · simp only [Discipline.traced, Discipline.strict, Store.claim_of_running_self h hme]
  · simp only [Discipline.traced, Discipline.strict, Store.claim_of_running h hme]

/-- A demand for a pending cell resolves it, and settles it with what comes out. -/
theorem outcome_strict_demand {work : Suspension}
    (h : store.cells[id]? = some ⟨name, .pending work⟩) (fuel : Nat) (caller : Option CallSite) :
    outcome Discipline.strict.traced host (fuel + 1) me caller (.resume (.binding id)) store =
      match outcome Discipline.strict.traced host fuel me none (resolving work)
        (store.replaceCell id ⟨name, .running me none⟩) with
      | some (result, later) =>
          outcome Discipline.strict.traced host fuel me caller (.run (.done result))
            (later.settle id result)
      | none => none := by
  rw [outcome, claim_strict_of_pending h]
  rfl

end Strict

/-- With this much fuel, whatever call by need comes to without a binding that demands itself, call
by name reproduces. -/
def Reproducible (host : Host) (fuel : Nat) : Prop :=
  ∀ {caller : Option CallSite} {control : Control} {store image store' : Store} {result : Result},
    outcome Discipline.strict.traced host fuel mainEvaluation caller control store =
        some (result, store') →
      Shares host image store image → control.Alike .quiet image.link control → control.Quiet →
        ReproducesLater host store image control store' result

section Reproducible

variable {fuel : Nat} {caller : Option CallSite} {store image store' : Store} {result : Result}

/-- A result that is there already passes its caller. -/
theorem reproduces_done {value : Result} (hshares : Shares host image store image)
    (hvalue : Result.Alike .quiet image.link value value)
    (h : outcome Discipline.strict.traced host fuel mainEvaluation caller (.run (.done value))
      store = some (result, store')) :
    ReproducesLater host store image (.run (.done value)) store' result := by
  have hdone : Reproduces host image (.run (.done value)) image value :=
    .done hshares.wellFormed hvalue
  rcases hdone.of_done h with ⟨rfl, hreproduces⟩
  exact ⟨image, hshares, .refl image, hreproduces, fun _ hid => hid⟩

/-- A form is evaluated, and the script goes on with what comes out. -/
theorem reproduces_eval (ih : Reproducible host fuel) {form : Value} {scope : Scope}
    {next : Result → Script Value} (hshares : Shares host image store image)
    (hform : form.Alike .quiet image.link form) (hscope : scope.Alike image.link scope)
    (hnext : ∀ link, image.link ≤ link → ∀ result result', Result.Alike .quiet link result result' →
      Script.StepAlike .quiet link (next result) (next result'))
    (hquiet : ∀ result, (next result).Quiet)
    (h : outcome Discipline.strict.traced host (fuel + 1) mainEvaluation caller
      (.run (.eval form scope next)) store = some (result, store')) :
    ReproducesLater host store image (.run (.eval form scope next)) store' result := by
  rw [outcome] at h
  split at h
  · next first store₁ hfirst =>
      have hstep : Control.Alike .quiet image.link (.run (Form.step form scope))
          (.run (Form.step form scope)) := .run (Form.step_alike hform hscope)
      rcases ih hfirst hshares hstep (Form.quiet_step _ _) with
        ⟨image₁, hshares₁, hkeeps₁, hfirst₁, hruns₁⟩
      have hscript := hnext _ hkeeps₁.link_le _ _ hfirst₁.alike_self
      rcases ih h hshares₁ (.run hscript) (hquiet first) with
        ⟨image₂, hshares₂, hkeeps₂, hnext₂, hruns₂⟩
      have hreproduces := hfirst₁.eval hnext₂ hkeeps₁ hnext hquiet
      exact ⟨image₂, hshares₂, hkeeps₁.trans hkeeps₂, hreproduces,
        fun id hid => hruns₁ id (hruns₂ id hid)⟩
  · cases h

/-- A name is looked up.  Where call by need is handed a value, call by name is handed the binding
and does its work again. -/
theorem reproduces_lookup (ih : Reproducible host fuel) {scope : Scope} {name : String}
    (hshares : Shares host image store image) (hscope : scope.Alike image.link scope)
    (h : outcome Discipline.strict.traced host (fuel + 1) mainEvaluation caller
      (.run (Script.lookup scope name)) store = some (result, store')) :
    ReproducesLater host store image (.run (Script.lookup scope name)) store' result := by
  change outcome _ host fuel _ caller (.run (.done (store.get scope name))) store =
    some (result, store') at h
  rcases hshares.get scope name with hsame | ⟨id, bound, value, himage, hvalue, hcell⟩
  · rw [hsame] at h
    have hget := hshares.wellFormed.get hscope name
    exact (ih h hshares (.run (.done hget)) (.done _)).of_step fun _ => rfl
  -- The value of a settled cell: its work comes to the same once more.
  · rw [hvalue] at h
    rcases hshares.cells id _ hcell with ⟨_, work, hpending, hresolves⟩
    rcases (hresolves.2.demand hpending).of_done h with ⟨rfl, hreproduces⟩
    have hgiven : Reproduces host image (.run (.done (image.get scope name))) image result := by
      rw [himage]
      exact hreproduces.of_step fun _ => rfl
    exact ⟨image, hshares, .refl image, hgiven.of_step fun _ => rfl, fun _ hid => hid⟩

/-- A scope is opened and filled, on both sides alike. -/
theorem reproduces_openScope (ih : Reproducible host fuel) {outer : Scope}
    {next : Scope → Script Value} (hshares : Shares host image store image)
    (houter : outer.Alike image.link outer) (hfills : ∀ inner, Script.Fills inner (next inner))
    (hnext : ∀ link, image.link ≤ link → ∀ inner inner', Scope.Alike link inner inner' →
      Script.StepAlike .quiet link (next inner) (next inner'))
    (h : outcome Discipline.strict.traced host (fuel + 1) mainEvaluation caller
      (.run (.ask (.openScope outer) next)) store = some (result, store')) :
    ReproducesLater host store image (.run (.ask (.openScope outer) next)) store' result := by
  rcases shares_of_openScope hshares houter hfills hnext with
    ⟨count, result₁, store₁, image₁, hdone, hdone', hcount, hshares₁, hresult₁, hruns₁⟩
  rcases exists_fuel_of_answered hdone h with ⟨rest, hfuel, hrest⟩
  have hless : rest ≤ fuel := by omega
  -- What is left is begun in the filled store and in its image.
  rcases ih (outcome_mono hless hrest) hshares₁.rebase (.run (.done hresult₁)) (.done _) with
    ⟨image₂, hshares₂, hkeeps₂, hresult₂, hruns₂⟩
  have hreproduces := hresult₂.of_later hshares₁.keeps (outcome_of_answered hdone')
  exact ⟨image₂, hshares₂, hshares₁.keeps.trans hkeeps₂, hreproduces,
    fun id hid => hruns₁ id (hruns₂ id hid)⟩

/-- A pending cell is resolved.  What it is settled with, call by name makes of the work in the
later image too, and so it does in all images from then on. -/
theorem reproduces_resolve (ih : Reproducible host fuel) {cell : CellId} {name bound : String}
    {work : Suspension} (hshares : Shares host image store image)
    (hpending : image.cells[cell]? = some ⟨name, .pending work⟩)
    (hwork : work.Alike .quiet image.link work)
    (hfound : store.cells[cell]? = some ⟨bound, .pending work⟩)
    (h : outcome Discipline.strict.traced host (fuel + 1) mainEvaluation caller
      (.resume (.binding cell)) store = some (result, store')) :
    ReproducesLater host store image (.resume (.binding cell)) store' result := by
  have hcontrol : (resolving work).Alike .quiet image.link (resolving work) :=
    .run (.done (.ok (.suspended hwork)))
  rw [outcome_strict_demand hfound] at h
  split at h
  · next first store₁ hfirst =>
      have hshares₀ : Shares host image
          (store.replaceCell cell ⟨bound, .running mainEvaluation none⟩) image :=
        hshares.replaceCell fun _ _ _ => trivial
      rcases ih hfirst hshares₀ hcontrol (.done _) with
        ⟨image₁, hshares₁, hkeeps₁, hfirst₁, hruns₁⟩
      have hpending₁ := hkeeps₁.cell cell _ hpending
      rcases hshares₁.found hpending₁ with ⟨resolved, hresolved, _⟩
      -- The work comes to the same if it is done again in the image as it is now.
      have hsettled : Reproduces host image₁ (resolving work) image₁ first :=
        hfirst₁.later hkeeps₁ (.refl image₁) hshares.wellFormed hshares₁.wellFormed hcontrol
          (.done _)
      have hshares₂ :=
        hshares₁.settle hresolved hpending₁ (hwork.mono hkeeps₁.link_le) hsettled
      rcases (hfirst₁.demand hpending).of_done h with ⟨rfl, hreproduces⟩
      refine ⟨image₁, hshares₂, hkeeps₁, hreproduces, fun id hid => ?_⟩
      -- The cell itself is settled now, and no longer runs.
      rcases hid.of_settle hresolved with ⟨hne, hid⟩
      exact (hruns₁ id hid).of_replaceCell.resolve_left hne
  · cases h

/-- A cell is demanded.  A settled cell hands out what has been reproduced, and a running one has no
outcome. -/
theorem reproduces_binding (ih : Reproducible host fuel) {cell : CellId}
    (hshares : Shares host image store image) (hcell : image.link.cells cell cell)
    (h : outcome Discipline.strict.traced host (fuel + 1) mainEvaluation caller
      (.resume (.binding cell)) store = some (result, store')) :
    ReproducesLater host store image (.resume (.binding cell)) store' result := by
  rcases hshares.wellFormed.pending hcell.2 with ⟨name, work, hpending, hwork⟩
  rcases hshares.found hpending with
    ⟨⟨bound, task | ⟨worker, task⟩ | ⟨owner, worker⟩ | settled⟩, hfound, hresolves⟩
  · cases hresolves
    exact reproduces_resolve ih hshares hpending hwork hfound h
  · exact hresolves.elim
  · rw [outcome, claim_strict_of_running hfound] at h
    cases h
  · rw [outcome, claim_strict_of_settled hfound] at h
    rcases (hresolves.2.demand hpending).of_done h with ⟨rfl, hreproduces⟩
    exact ⟨image, hshares, .refl image, hreproduces, fun _ hid => hid⟩

end Reproducible

/-- What call by need comes to, without a binding that demands itself, call by name reproduces. -/
theorem reproduces_of_strict {fuel : Nat} {caller : Option CallSite} {control : Control}
    {store image store' : Store} {result : Result}
    (h : outcome Discipline.strict.traced host fuel mainEvaluation caller control store =
      some (result, store'))
    (hshares : Shares host image store image) (halike : control.Alike .quiet image.link control)
    (hquiet : control.Quiet) : ReproducesLater host store image control store' result := by
  -- By induction on the fuel of call by need: the image grows along with its store.
  induction fuel generalizing caller control store image store' result with
  | zero => cases h
  | succ fuel ih =>
      cases halike with
      | run hscript =>
          rcases hquiet with value | @⟨form, scope, next, hquiet⟩ | ⟨scope, name⟩ |
            @⟨outer, next, hfills⟩
          · cases hscript with
            | done hresult =>
                cases hresult with
                | ok hstep =>
                    rcases hstep with hvalue | hwork
                    · exact reproduces_done hshares (.ok hvalue) h
                    · exact (ih h hshares (.resume hwork) trivial).of_step fun _ => rfl
                | error hfailure => exact reproduces_done hshares (.error hfailure) h
          · cases hscript with
            | eval hform hscope hnext =>
                exact reproduces_eval (fun h => ih h) hshares hform hscope hnext hquiet h
          · cases hscript with
            | ask hrequest _ =>
                cases hrequest with
                | lookup _ hscope => exact reproduces_lookup (fun h => ih h) hshares hscope h
          · cases hscript with
            | ask hrequest hnext =>
                cases hrequest with
                | openScope houter =>
                    exact reproduces_openScope (fun h => ih h) hshares houter hfills hnext h
      | resume hwork =>
          cases hwork with
          | form hform hscope =>
              have hstep := Form.step_alike hform hscope
              exact (ih h hshares (.run hstep) (Form.quiet_step _ _)).of_step fun _ => rfl
          | call hfunc hhead hoperands hscope =>
              have henter := hfunc.enter host.respects_quiet hhead hoperands hscope
              exact (ih h hshares (.run henter) (Func.quiet_enter hfunc _ _ _)).of_step fun _ => rfl
          | givenValue _ hvalue =>
              exact (ih h hshares (.run (.done (.ok (.value hvalue)))) (.done _)).of_step
                fun _ => rfl
          | givenFailure _ =>
              exact (ih h hshares (.run (.done (.error (Failure.alike_refl _)))) (.done _)).of_step
                fun _ => rfl
          | binding hcell => exact reproduces_binding (fun h => ih h) hshares hcell h

/-! ## From call by name to call by need -/

/-- No cell that runs has work that call by name finishes with less fuel. -/
def RunsBeyond (host : Host) (fuel : Nat) (store image : Store) : Prop :=
  ∀ id name work, store.Runs id → image.cells[id]? = some ⟨name, .pending work⟩ →
    ∀ less, less < fuel →
      outcome .byName host less mainEvaluation none (resolving work) image = none

theorem RunsBeyond.later {fuel fuel' : Nat} {store store' image image' : Store}
    (h : RunsBeyond host fuel store image) (hshares : Shares host image store image)
    (hfuel : fuel' ≤ fuel) (hkeeps : image.Keeps image')
    (hruns : ∀ id, store'.Runs id → store.Runs id) : RunsBeyond host fuel' store' image' := by
  intro id name work hid hpending less hless
  have hid' := hruns id hid
  rcases hid' with ⟨_, _, _, hcell⟩
  rcases hshares.pending hcell with ⟨name', work', hpending'⟩
  cases hpending.symm.trans (hkeeps.cell id _ hpending')
  have hlt := (Array.getElem?_eq_some_iff.mp hpending').1
  rcases hshares.wellFormed.pending hlt with ⟨_, _, hsame, hwork⟩
  cases hpending'.symm.trans hsame
  cases hout : outcome .byName host less mainEvaluation none (resolving work) image' with
  | none => rfl
  | some final =>
      -- The work would come to the same in the earlier image.
      have hmirrors := hshares.wellFormed.later hkeeps (.refl image)
      rcases corresponds_of_mirrors hout hmirrors (.run (.done (.ok (.suspended hwork)))) (.done _)
          (.done _) with ⟨final', hout', _⟩
      have hnone := h id name work (hruns id hid) hpending' less (Nat.lt_of_lt_of_le hless hfuel)
      rw [hnone] at hout'
      cases hout'

/-- Call by need comes to an end, without a binding that demands itself. -/
def Terminates (host : Host) (caller : Option CallSite) (control : Control) (store : Store) :
    Prop :=
  ∃ fuel final, outcome Discipline.strict.traced host fuel mainEvaluation caller control store =
    some final

namespace Terminates

variable {caller caller' : Option CallSite} {control control' : Control} {store store' : Store}

theorem done {result : Result} (h : ∀ work, result ≠ .ok (.suspended work)) :
    Terminates host caller (.run (.done result)) store := by
  rcases result with failure | value
  · exact ⟨1, _, rfl⟩
  · cases value with
    | suspended work => exact absurd rfl (h work)
    | _ => exact ⟨1, _, rfl⟩

theorem of_step (h : Terminates host caller' control' store')
    (hlead : ∀ fuel,
      outcome Discipline.strict.traced host (fuel + 1) mainEvaluation caller control store =
        outcome Discipline.strict.traced host fuel mainEvaluation caller' control' store') :
    Terminates host caller control store :=
  let ⟨fuel, final, houtcome⟩ := h
  ⟨fuel + 1, final, (hlead fuel).trans houtcome⟩

end Terminates

/-- With this much fuel, whatever call by name comes to, call by need comes to an end too. -/
def Terminating (host : Host) (fuel : Nat) : Prop :=
  ∀ {caller : Option CallSite} {control : Control} {store image : Store} {final : Result × Store},
    outcome .byName host fuel mainEvaluation none control image = some final →
      Shares host image store image → control.Alike .quiet image.link control → control.Quiet →
        RunsBeyond host fuel store image → Terminates host caller control store

section Terminating

variable {fuel : Nat} {caller : Option CallSite} {store image : Store} {final : Result × Store}

/-- A form is evaluated, and the script goes on with what comes out. -/
theorem terminates_eval (ih : Terminating host fuel) {form : Value} {scope : Scope}
    {next : Result → Script Value} (hshares : Shares host image store image)
    (hform : form.Alike .quiet image.link form) (hscope : scope.Alike image.link scope)
    (hnext : ∀ link, image.link ≤ link → ∀ result result', Result.Alike .quiet link result result' →
      Script.StepAlike .quiet link (next result) (next result'))
    (hquiet : ∀ result, (next result).Quiet) (hruns : RunsBeyond host fuel store image)
    (h : outcome .byName host (fuel + 1) mainEvaluation none (.run (.eval form scope next)) image =
      some final) : Terminates host caller (.run (.eval form scope next)) store := by
  have hstep : Control.Alike .quiet image.link (.run (Form.step form scope))
      (.run (Form.step form scope)) := .run (Form.step_alike hform hscope)
  have hstepQuiet : (Control.run (Form.step form scope)).Quiet := Form.quiet_step form scope
  rw [outcome] at h
  split at h
  · next first' copied hfirst' =>
      rcases ih hfirst' hshares hstep hstepQuiet hruns with ⟨fuel₁, ⟨first, store₁⟩, hfirst⟩
      rcases reproduces_of_strict hfirst hshares hstep hstepQuiet with
        ⟨image₁, hshares₁, hkeeps₁, hfirst₁, hruns₁⟩
      have hself := hnext _ hkeeps₁.link_le _ _ hfirst₁.alike_self
      rcases hfirst₁ with @⟨_, _, _, link, houtcome, hle, _, hmirrors, hresult⟩
      cases outcome_unique hfirst' houtcome
      -- Call by name went on with a copy, and would have done so with the result itself.
      have hscript := hnext _ (Store.link_le_flip hle) _ _ hresult.flip
      rcases corresponds_of_mirrors h hmirrors.flip (.run hscript) (hquiet _) (hquiet _) with
        ⟨final', hfinal', _⟩
      have hbeyond := hruns.later hshares (Nat.le_refl _) hkeeps₁ hruns₁
      rcases ih hfinal' hshares₁ (.run hself) (hquiet _) hbeyond with ⟨fuel₂, final₂, hfinal₂⟩
      refine ⟨max fuel₁ fuel₂ + 1, final₂, ?_⟩
      rw [outcome, outcome_mono (Nat.le_max_left fuel₁ fuel₂) hfirst]
      exact outcome_mono (Nat.le_max_right fuel₁ fuel₂) hfinal₂
  · cases h

/-- A name is looked up.  Where call by need is handed a value, it is done. -/
theorem terminates_lookup (ih : Terminating host fuel) {scope : Scope} {name : String}
    (hshares : Shares host image store image) (hscope : scope.Alike image.link scope)
    (hruns : RunsBeyond host fuel store image)
    (h : outcome .byName host (fuel + 1) mainEvaluation none (.run (Script.lookup scope name))
      image = some final) : Terminates host caller (.run (Script.lookup scope name)) store := by
  rcases hshares.get scope name with hsame | ⟨id, bound, value, _, hvalue, hcell⟩
  · have hget := hshares.wellFormed.get hscope name
    have hnext : Terminates host caller (.run (.done (image.get scope name))) store :=
      ih h hshares (.run (.done hget)) (.done _) hruns
    rw [← hsame] at hnext
    exact hnext.of_step fun _ => rfl
  -- The value of a settled cell.
  · rcases hshares.cells id _ hcell with ⟨_, work, _, hresolves⟩
    have hdone : Terminates host caller (.run (.done (.ok value))) store :=
      .done (Result.Alike.ne_suspended hresolves.2.alike_self)
    rw [← hvalue] at hdone
    exact hdone.of_step fun _ => rfl

/-- A scope is opened and filled, on both sides alike. -/
theorem terminates_openScope (ih : ∀ rest, rest ≤ fuel → Terminating host rest) {outer : Scope}
    {next : Scope → Script Value} (hshares : Shares host image store image)
    (houter : outer.Alike image.link outer) (hfills : ∀ inner, Script.Fills inner (next inner))
    (hnext : ∀ link, image.link ≤ link → ∀ inner inner', Scope.Alike link inner inner' →
      Script.StepAlike .quiet link (next inner) (next inner'))
    (hruns : RunsBeyond host (fuel + 1) store image)
    (h : outcome .byName host (fuel + 1) mainEvaluation none (.run (.ask (.openScope outer) next))
      image = some final) : Terminates host caller (.run (.ask (.openScope outer) next)) store := by
  rcases shares_of_openScope hshares houter hfills hnext with
    ⟨count, result₁, store₁, image₁, hdone, hdone', hcount, hshares₁, hresult₁, hruns₁⟩
  rcases exists_fuel_of_answered hdone' h with ⟨rest, hfuel, hrest⟩
  have hless : rest ≤ fuel := by omega
  have hbeyond := hruns.later hshares (Nat.le_succ_of_le hless) hshares₁.keeps hruns₁
  rcases ih rest hless hrest hshares₁.rebase (.run (.done hresult₁)) (.done _) hbeyond with
    ⟨fuel', final', hfinal'⟩
  exact ⟨fuel' + count, final', (outcome_of_answered hdone fuel').trans hfinal'⟩

/-- A pending cell is resolved.  Its work is followed with the least fuel that gives it an outcome
in call by name, so that no less fuel does while the cell runs. -/
theorem terminates_resolve (ih : ∀ rest, rest ≤ fuel → Terminating host rest) {cell : CellId}
    {name bound : String} {work : Suspension} {first' : Result × Store}
    (hshares : Shares host image store image)
    (hpending : image.cells[cell]? = some ⟨name, .pending work⟩)
    (hwork : work.Alike .quiet image.link work)
    (hfound : store.cells[cell]? = some ⟨bound, .pending work⟩)
    (hruns : RunsBeyond host fuel store image)
    (hfirst' : outcome .byName host fuel mainEvaluation none (resolving work) image = some first') :
    Terminates host caller (.resume (.binding cell)) store := by
  have hsome : ∃ least,
      (outcome .byName host least mainEvaluation none (resolving work) image).isSome :=
    ⟨fuel, by rw [hfirst']; rfl⟩
  have hleast : Nat.find hsome ≤ fuel := Nat.find_min' hsome (by rw [hfirst']; rfl)
  rcases Option.isSome_iff_exists.mp (Nat.find_spec hsome) with ⟨final₀, hfinal₀⟩
  have hshares₀ : Shares host image
      (store.replaceCell cell ⟨bound, .running mainEvaluation none⟩) image :=
    hshares.replaceCell fun _ _ _ => trivial
  -- The cell runs while its work is done, and no less fuel gives the work an outcome.
  have hbeyond : RunsBeyond host (Nat.find hsome)
      (store.replaceCell cell ⟨bound, .running mainEvaluation none⟩) image := by
    intro id name' work' hid hpending' less hlt
    rcases hid.of_replaceCell with rfl | hid
    · cases hpending.symm.trans hpending'
      simpa using Nat.find_min hsome hlt
    · exact hruns id name' work' hid hpending' less (Nat.lt_of_lt_of_le hlt hleast)
  have hresolve : Terminates host none (resolving work)
      (store.replaceCell cell ⟨bound, .running mainEvaluation none⟩) :=
    ih _ hleast hfinal₀ hshares₀ (.run (.done (.ok (.suspended hwork)))) (.done _) hbeyond
  rcases hresolve with ⟨fuel₁, ⟨first, store₁⟩, hfirst⟩
  -- What comes out is not suspended, so the demand ends with it.
  have hdone : Terminates host caller (.run (.done first)) (store₁.settle cell first) :=
    .done fun work hvalue => ne_suspended_of_outcome (hvalue ▸ hfirst) work rfl
  rcases hdone with ⟨fuel₂, final₂, hfinal₂⟩
  refine ⟨max fuel₁ fuel₂ + 1, final₂, ?_⟩
  rw [outcome_strict_demand hfound, outcome_mono (Nat.le_max_left fuel₁ fuel₂) hfirst]
  exact outcome_mono (Nat.le_max_right fuel₁ fuel₂) hfinal₂

/-- A cell is demanded.  It cannot be running: its work has just come to an end with less fuel than
the running cells need. -/
theorem terminates_binding (ih : ∀ rest, rest ≤ fuel → Terminating host rest) {cell : CellId}
    (hshares : Shares host image store image) (hcell : image.link.cells cell cell)
    (hruns : RunsBeyond host (fuel + 1) store image)
    (h : outcome .byName host (fuel + 1) mainEvaluation none (.resume (.binding cell)) image =
      some final) : Terminates host caller (.resume (.binding cell)) store := by
  rcases hshares.wellFormed.pending hcell.2 with ⟨name, work, hpending, hwork⟩
  rw [outcome_demand hpending] at h
  split at h
  · next first' copied hfirst' =>
      rcases hshares.found hpending with
        ⟨⟨bound, task | ⟨worker, task⟩ | ⟨owner, worker⟩ | settled⟩, hfound, hresolves⟩
      · cases hresolves
        have hruns' : RunsBeyond host fuel store image :=
          hruns.later hshares (Nat.le_succ fuel) (.refl image) fun _ hid => hid
        exact terminates_resolve ih hshares hpending hwork hfound hruns' hfirst'
      · exact hresolves.elim
      -- The work of a running cell has no outcome with as little fuel as this.
      · have hnone :=
          hruns cell name work ⟨bound, owner, worker, hfound⟩ hpending fuel (Nat.lt_succ_self fuel)
        rw [hfirst'] at hnone
        cases hnone
      · have hdone : Terminates host caller (.run (.done settled)) store :=
          .done (Result.Alike.ne_suspended hresolves.2.alike_self)
        refine hdone.of_step fun fuel => ?_
        rw [outcome, claim_strict_of_settled hfound]
  · cases h

end Terminating

/-- Call by need comes to an end where call by name does. -/
theorem terminates_of_byName {fuel : Nat} {caller : Option CallSite} {control : Control}
    {store image : Store} {final : Result × Store}
    (h : outcome .byName host fuel mainEvaluation none control image = some final)
    (hshares : Shares host image store image) (halike : control.Alike .quiet image.link control)
    (hquiet : control.Quiet) (hruns : RunsBeyond host fuel store image) :
    Terminates host caller control store := by
  -- By strong induction: a cell may be resolved with much less fuel than its demand has.
  induction fuel using Nat.strongRecOn generalizing caller control store image final with
  | ind fuel ih =>
    cases fuel with
    | zero => cases h
    | succ fuel =>
      have hbelow : ∀ rest, rest ≤ fuel → Terminating host rest :=
        fun rest hrest => ih rest (Nat.lt_succ_of_le hrest)
      have hterminating : Terminating host fuel := hbelow fuel (Nat.le_refl fuel)
      have hruns' : RunsBeyond host fuel store image :=
        hruns.later hshares (Nat.le_succ fuel) (.refl image) fun _ hid => hid
      cases halike with
      | run hscript =>
          rcases hquiet with value | @⟨form, scope, next, hquiet⟩ | ⟨scope, name⟩ |
            @⟨outer, next, hfills⟩
          · cases hscript with
            | done hresult =>
                cases hresult with
                | ok hstep =>
                    rcases hstep with hvalue | hwork
                    · exact .done (Result.Alike.ne_suspended (.ok hvalue))
                    · exact (hterminating h hshares (.resume hwork) trivial hruns').of_step
                        fun _ => rfl
                | error hfailure => exact .done fun _ => by simp
          · cases hscript with
            | eval hform hscope hnext =>
                exact terminates_eval hterminating hshares hform hscope hnext hquiet hruns' h
          · cases hscript with
            | ask hrequest _ =>
                cases hrequest with
                | lookup _ hscope => exact terminates_lookup hterminating hshares hscope hruns' h
          · cases hscript with
            | ask hrequest hnext =>
                cases hrequest with
                | openScope houter =>
                    exact terminates_openScope hbelow hshares houter hfills hnext hruns h
      | resume hwork =>
          cases hwork with
          | form hform hscope =>
              have hstep := Form.step_alike hform hscope
              exact (hterminating h hshares (.run hstep) (Form.quiet_step _ _) hruns').of_step
                fun _ => rfl
          | call hfunc hhead hoperands hscope =>
              have henter := hfunc.enter host.respects_quiet hhead hoperands hscope
              exact (hterminating h hshares (.run henter) (Func.quiet_enter hfunc _ _ _)
                hruns').of_step fun _ => rfl
          | givenValue _ hvalue =>
              exact (hterminating h hshares (.run (.done (.ok (.value hvalue)))) (.done _)
                hruns').of_step fun _ => rfl
          | givenFailure _ =>
              exact (hterminating h hshares (.run (.done (.error (Failure.alike_refl _)))) (.done _)
                hruns').of_step fun _ => rfl
          | binding hcell => exact terminates_binding hbelow hshares hcell hruns h

end Direct
end LazyLisp
