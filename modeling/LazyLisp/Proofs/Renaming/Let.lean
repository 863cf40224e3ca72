import LazyLisp.Proofs.Machine.Reaches
import LazyLisp.Proofs.Renaming.Machine

/-!
# Let — local names in any order

`let` binds all its names before any of them is asked for, and every form sees all of them.  So it
makes no difference in which order the names are bound, as long as they are distinct: the cells are
made in another order, and that is all.  Whatever the forms and the body do afterwards, they do the
same.  This file defines:

* `Builtin.bindingItems`, the operand of `let` for given pairs of names and forms;
* `Store.bindAll`, the store in which these names have been bound.

Main results: `Machine.reaches_let`, what a `let` form comes down to;
`Store.Closed.exists_renamed_of_perm`, that the order of bindings only changes the names of new
cells; and `Machine.evaluate_let_perm`, a property of two runs.
-/

namespace LazyLisp

/-! ## What bindings come down to -/

/-- Names and forms by turns, as they stand in a `let` form. -/
def Builtin.bindingItems (pairs : List (Symbol × Value)) : List Value :=
  pairs.flatMap fun pair => [.symbol pair.1, pair.2]

theorem Builtin.length_bindingItems (pairs : List (Symbol × Value)) :
    (bindingItems pairs).length = 2 * pairs.length := by
  simp [bindingItems, List.length_flatMap, Nat.mul_comm]

/-- Bind names to forms in `scope`, one pair after the other. -/
def Store.bindAll (scope : Scope) : List (Symbol × Value) → Store → Store
  | [], store => store
  | pair :: rest, store =>
      bindAll scope rest (store.setLazy scope pair.1.name (.form pair.2 scope)).2

namespace Machine

variable {host : Host} {me : EvaluationId} {store begun : Store} {scope : Scope}

theorem reaches_bindPairs (call : Call) (inner : Scope) (pairs : List (Symbol × Value))
    (next : Script Value) (stack : List Pending) (store : Store) :
    Reaches host pairs.length
      ⟨.run (Builtin.bindPairs call inner (Builtin.bindingItems pairs) >>= fun _ => next), stack,
        me, store⟩
      ⟨.run next, stack, me, store.bindAll inner pairs⟩ := by
  induction pairs generalizing store with
  | nil => exact .refl _
  | cons pair rest ih => exact .head rfl (ih _)

/-- `let` opens a new scope, binds the names in it, and leaves the body to be evaluated there. -/
theorem reaches_bindLocals {name : String} {head bindings body : Value}
    {pairs : List (Symbol × Value)}
    (hitems : bindings.elements? = some (Builtin.bindingItems pairs)) (stack : List Pending)
    (store : Store) :
    Reaches host (pairs.length + 2)
      ⟨.resume (.call (.native name .bindLocals) head [bindings, body] scope), stack, me, store⟩
      ⟨.run (Script.tail body (store.child scope).1), stack, me,
        (store.child scope).2.bindAll (store.child scope).1 pairs⟩ := by
  have hscript : Builtin.bindLocals ⟨name, head, [bindings, body], scope⟩ =
      Script.openScope scope >>= fun inner =>
        Builtin.bindPairs ⟨name, head, [bindings, body], scope⟩ inner
          (Builtin.bindingItems pairs) >>= fun _ => Script.tail body inner := by
    simp [Builtin.bindLocals, Call.elements, hitems, Builtin.length_bindingItems]
  have henter : step host
      ⟨.resume (.call (.native name .bindLocals) head [bindings, body] scope), stack, me, store⟩ =
      .next ⟨.run (Builtin.bindLocals ⟨name, head, [bindings, body], scope⟩), stack, me, store⟩ :=
    rfl
  rw [hscript] at henter
  exact .head henter (.head rfl (reaches_bindPairs _ _ _ _ _ _))

/-- Once the head of a `let` form has come to the function, it takes one step for each name, and the
same number of steps besides. -/
theorem reaches_let {name : String} {head : Value}
    (hhead : Evaluates host me head scope store (.ok (.func (.native name .bindLocals))) begun)
    (body : Value) (site : Option CallSite) (stack : List Pending) :
    ∃ steps me', ∀ {bindings : Value} {pairs : List (Symbol × Value)},
      bindings.elements? = some (Builtin.bindingItems pairs) →
        Reaches host (pairs.length + steps)
          ⟨.run (Form.step (.list [head, bindings, body]) scope), .trampoline site :: stack, me,
            store⟩
          ⟨.run (Script.tail body (begun.child scope).1), .trampoline site :: stack, me',
            (begun.child scope).2.bindAll (begun.child scope).1 pairs⟩ := by
  obtain ⟨steps, me', hreaches⟩ := hhead.reaches
  refine ⟨2 + 2 + steps + 1, me', fun {bindings pairs} hitems => ?_⟩
  have hsteps : pairs.length + (2 + 2 + steps + 1) = pairs.length + 2 + 2 + steps + 1 := by omega
  rw [hsteps]
  -- The head is evaluated, the call is suspended, and the trampoline resumes it.
  refine .head rfl (.trans (hreaches _) ?_)
  refine .head rfl (.head rfl ?_)
  exact reaches_bindLocals hitems (.trampoline site :: stack) begun

end Machine

/-! ## The order of bindings -/

namespace Store

variable {store store' : Store} {π : Equiv.Perm CellId} {scope : Scope}

theorem swap_apply_of_lt {size id : Nat} (hid : id < size) : Equiv.swap size (size + 1) id = id :=
  Equiv.swap_apply_of_ne_of_ne (Nat.ne_of_lt hid) (Nat.ne_of_lt (Nat.lt_succ_of_lt hid))

section Swap

variable (store scope) {bound other : String} {first second : Suspension} {link : Link}

theorem frames_setLazy_comm (hne : bound ≠ other)
    (hframes : Entrywise (Frame.Agrees link) store.frames store.frames)
    (hnew : link.cells store.cells.size (store.cells.size + 1))
    (hnew' : link.cells (store.cells.size + 1) store.cells.size) :
    Entrywise (Frame.Agrees link)
      ((store.setLazy scope bound first).2.setLazy scope other second).2.frames
      ((store.setLazy scope other second).2.setLazy scope bound first).2.frames := by
  intro id
  have hframe := hframes id
  simp only [setLazy, modifyFrame, Array.getElem?_modify, Array.size_push]
  generalize store.frames[id]? = frame at hframe ⊢
  split
  · cases hframe with
    | some hagrees => exact .some (hagrees.insert_comm hne (.lazy hnew) (.lazy hnew'))
    | none => exact .none
  · exact hframe

theorem cells_setLazy_comm
    (hcells : ∀ id : Nat, Option.Rel (Cell.Corresponds .exact link) store.cells[id]? store.cells[id]?)
    (hfirst : first.Alike .exact link first) (hsecond : second.Alike .exact link second)
    (id : Nat) :
    Option.Rel (Cell.Corresponds .exact link)
      ((store.setLazy scope bound first).2.setLazy scope other second).2.cells[id]?
      ((store.setLazy scope other second).2.setLazy scope bound first).2.cells[
        Equiv.swap store.cells.size (store.cells.size + 1) id]? := by
  have hbound : Cell.Corresponds .exact link ⟨bound, .pending first⟩ ⟨bound, .pending first⟩ :=
    ⟨rfl, .pending hfirst⟩
  have hother : Cell.Corresponds .exact link ⟨other, .pending second⟩ ⟨other, .pending second⟩ :=
    ⟨rfl, .pending hsecond⟩
  simp only [cells_setLazy, Array.getElem?_push, Array.size_push]
  by_cases hid : id = store.cells.size
  · subst hid
    simpa using hbound
  · by_cases hid' : id = store.cells.size + 1
    · subst hid'
      simpa using hother
    -- All other cells stay where they are.
    · rw [Equiv.swap_apply_of_ne_of_ne hid hid']
      simpa [hid, hid'] using hcells id

end Swap

/-- Two names are bound in either order.  Only the names of the two new cells differ. -/
theorem Closed.setLazy_comm (h : store.Closed) (scope : Scope) {bound other : String}
    (hne : bound ≠ other) {first second : Suspension} (hfirst : first.Alike .exact store.link first)
    (hsecond : second.Alike .exact store.link second) :
    ((store.setLazy scope bound first).2.setLazy scope other second).2.Renamed
      (Equiv.swap store.cells.size (store.cells.size + 1))
      ((store.setLazy scope other second).2.setLazy scope bound first).2 := by
  have hself := closed_iff_renamed.mp h
  have hle : store.link ≤
      ((store.setLazy scope bound first).2.setLazy scope other second).2.linkBy
        (Equiv.swap store.cells.size (store.cells.size + 1)) := by
    calc
      store.link ≤ store.linkBy _ := link_le_linkBy fun _ hid => swap_apply_of_lt hid
      _ ≤ (store.setLazy scope bound first).2.linkBy _ := linkBy_le_setLazy _ _ _ _
      _ ≤ _ := linkBy_le_setLazy _ _ _ _
  have hsize : ((store.setLazy scope bound first).2.setLazy scope other second).2.cells.size =
      store.cells.size + 2 := by
    simp [cells_setLazy]
  have hframes : Entrywise (Frame.Agrees _) store.frames store.frames := fun id =>
    optionRel_imp (fun _ _ hagrees => Frame.Agrees.mono hle hagrees) (hself.frames id)
  have hcells : ∀ id : Nat, Option.Rel (Cell.Corresponds .exact _) store.cells[id]? store.cells[id]? :=
    fun id => optionRel_imp (fun _ _ hcell => Cell.Corresponds.mono hle hcell) (hself.cells id)
  refine ⟨frames_setLazy_comm _ _ hne hframes ⟨Equiv.swap_apply_left _ _, ?_⟩
      ⟨Equiv.swap_apply_right _ _, ?_⟩,
    cells_setLazy_comm _ _ hcells (hfirst.mono hle) (hsecond.mono hle), ?_, fun id hid => ?_,
    rfl, rfl, rfl⟩
  · rw [hsize]
    exact Nat.lt_add_of_pos_right Nat.two_pos
  · rw [hsize]
    exact Nat.lt_succ_self _
  · simp [cells_setLazy]
  · rw [hsize] at hid
    exact Equiv.swap_apply_of_ne_of_ne (Nat.ne_of_gt (by omega)) (Nat.ne_of_gt (by omega))

/-! ### All bindings -/

theorem linkBy_le_bindAll (scope : Scope) (pairs : List (Symbol × Value)) (store : Store) :
    store.linkBy π ≤ (store.bindAll scope pairs).linkBy π := by
  induction pairs generalizing store with
  | nil => exact le_rfl
  | cons pair rest ih => exact (linkBy_le_setLazy _ _ _ _).trans (ih _)

theorem Renamed.bindAll (h : store.Renamed π store') (hscope : scope.Alike (store.linkBy π) scope)
    {pairs : List (Symbol × Value)}
    (hforms : ∀ pair ∈ pairs, pair.2.Alike .exact (store.linkBy π) pair.2) :
    (store.bindAll scope pairs).Renamed π (store'.bindAll scope pairs) := by
  induction pairs generalizing store store' with
  | nil => exact h
  | cons pair rest ih =>
      have hform := hforms pair List.mem_cons_self
      have hle : store.linkBy π ≤
          (store.setLazy scope pair.1.name (.form pair.2 scope)).2.linkBy π :=
        linkBy_le_setLazy _ _ _ _
      refine ih (h.setLazy scope _ (.form hform hscope)).2 (hscope.mono hle) ?_
      intro other hmem
      exact (hforms other (List.mem_cons_of_mem pair hmem)).mono hle

/-- In whatever order names are bound, the stores are the same up to the names of the new cells. -/
theorem Closed.exists_renamed_of_perm (h : store.Closed) (hscope : scope.Within store)
    {pairs pairs' : List (Symbol × Value)} (hforms : ∀ pair ∈ pairs, pair.2.Within store)
    (hperm : pairs.Perm pairs') (hdistinct : (pairs.map fun pair => pair.1.name).Nodup) :
    ∃ π : Equiv.Perm CellId, (∀ id < store.cells.size, π id = id) ∧
      (store.bindAll scope pairs).Renamed π (store.bindAll scope pairs') := by
  induction hperm generalizing store with
  | nil => exact ⟨1, fun _ _ => rfl, closed_iff_renamed.mp h⟩
  | @cons pair rest rest' _ ih =>
      have hform := hforms pair List.mem_cons_self
      have hle : store.link ≤ (store.setLazy scope pair.1.name (.form pair.2 scope)).2.link := by
        rw [link_setLazy]
        exact Link.le_withCell _ _ _
      have hbound := h.setLazy scope pair.1.name (.form hform hscope)
      rw [List.map_cons, List.nodup_cons] at hdistinct
      obtain ⟨π, hfixed, hrenamed⟩ := ih hbound (hscope.mono hle)
        (fun other hmem => (hforms other (List.mem_cons_of_mem pair hmem)).mono hle) hdistinct.2
      refine ⟨π, fun id hid => hfixed id ?_, hrenamed⟩
      rw [cells_setLazy, Array.size_push]
      exact Nat.lt_succ_of_lt hid
  | swap second first rest =>
      have hfirst := hforms first List.mem_cons_self
      have hsecond := hforms second (List.mem_cons_of_mem first List.mem_cons_self)
      have hne : first.1.name ≠ second.1.name := by
        rw [List.map_cons, List.map_cons, List.nodup_cons] at hdistinct
        exact fun heq => hdistinct.1 (heq ▸ List.mem_cons_self)
      have hswapped := h.setLazy_comm scope hne (.form hfirst hscope) (.form hsecond hscope)
      have hfixed : ∀ id < store.cells.size,
          Equiv.swap store.cells.size (store.cells.size + 1) id = id := fun id hid =>
        swap_apply_of_lt hid
      have hle := (link_le_linkBy hfixed).trans
        ((linkBy_le_setLazy store scope first.1.name (.form first.2 scope)).trans
          (linkBy_le_setLazy _ scope second.1.name (.form second.2 scope)))
      refine ⟨_, hfixed, hswapped.bindAll (hscope.mono hle) fun pair hmem => ?_⟩
      exact (hforms pair (List.mem_cons_of_mem _ (List.mem_cons_of_mem _ hmem))).mono hle
  | trans hperm _ ih ih' =>
      have hforms' := fun pair hmem => hforms pair (hperm.mem_iff.mpr hmem)
      have hdistinct' := (hperm.map fun pair => pair.1.name).nodup_iff.mp hdistinct
      obtain ⟨π, hfixed, hrenamed⟩ := ih h hscope hforms hdistinct
      obtain ⟨ρ, hfixed', hrenamed'⟩ := ih' h hscope hforms' hdistinct'
      refine ⟨ρ * π, fun id hid => ?_, hrenamed.comp hrenamed'⟩
      rw [Equiv.Perm.mul_apply, hfixed id hid, hfixed' id hid]

end Store

/-! ## Two runs -/

namespace Machine

variable {host : Host} {me : EvaluationId} {store begun : Store} {scope : Scope} {name : String}
  {head bindings bindings' body : Value} {pairs pairs' : List (Symbol × Value)}

/-- States from which equally many steps lead to states that are the same up to renaming. -/
theorem run_renamed_of_reaches (hhost : host.Respects .exact) {π : Equiv.Perm CellId} {steps : Nat}
    {first first' middle middle' : State} (h : Reaches host steps first middle)
    (h' : Reaches host steps first' middle') (hmiddle : middle.Renamed π middle') (fuel : Nat) :
    Outcome.Renamed π (run host fuel first) (run host fuel first') :=
  h.relate h' .unfinished (fun more => run_renamed hhost more hmiddle) fuel

theorem within_of_let (h : Value.Within store (.list [head, bindings, body])) :
    head.Within store ∧ bindings.Within store ∧ body.Within store := by
  cases h with
  | list hparts =>
      rcases hparts with _ | ⟨hhead, _ | ⟨hbindings, _ | ⟨hbody, _⟩⟩⟩
      exact ⟨hhead, hbindings, hbody⟩

theorem within_of_mem_pairs
    (h : Value.AllAlike .exact store.link (Builtin.bindingItems pairs)
      (Builtin.bindingItems pairs)) :
    ∀ pair ∈ pairs, pair.2.Within store := by
  induction pairs with
  | nil => simp
  | cons pair rest ih =>
      rcases h with _ | ⟨_, _ | ⟨hform, hrest⟩⟩
      exact List.forall_mem_cons.mpr ⟨hform, ih hrest⟩

/-- The forms in a `let` form refer to nothing that its bindings do not refer to. -/
theorem within_of_elements (h : bindings.Within store)
    (hitems : bindings.elements? = some (Builtin.bindingItems pairs)) :
    ∀ pair ∈ pairs, pair.2.Within store := by
  cases h with
  | list hall =>
      cases hitems
      exact within_of_mem_pairs hall
  | vector hall =>
      cases hitems
      exact within_of_mem_pairs hall
  | _ => cases hitems

/-- Wherever a `let` form stands, its names can be bound in any order. -/
theorem run_let_perm (hhost : host.Respects .exact) (hstore : store.Closed)
    (hscope : scope.Within store) (hform : Value.Within store (.list [head, bindings, body]))
    (hhead : Evaluates host me head scope store (.ok (.func (.native name .bindLocals))) begun)
    (hbindings : bindings.elements? = some (Builtin.bindingItems pairs))
    (hbindings' : bindings'.elements? = some (Builtin.bindingItems pairs'))
    (hperm : pairs.Perm pairs') (hdistinct : (pairs.map fun pair => pair.1.name).Nodup)
    (site : Option CallSite) {stack : List Pending}
    (hstack : StackRenamed store.link .value stack stack) :
    ∃ π : Equiv.Perm CellId, (∀ id < store.cells.size, π id = id) ∧ ∀ fuel,
      Outcome.Renamed π
        (run host fuel ⟨.run (Form.step (.list [head, bindings, body]) scope),
          .trampoline site :: stack, me, store⟩)
        (run host fuel ⟨.run (Form.step (.list [head, bindings', body]) scope),
          .trampoline site :: stack, me, store⟩) := by
  obtain ⟨hhead₀, hbindings₀, hbody⟩ := within_of_let hform
  obtain ⟨steps, me', hreaches⟩ := reaches_let hhead body site stack
  have hreach := hreaches hbindings
  have hreach' := hreaches hbindings'
  rw [← hperm.length_eq] at hreach'
  -- What was there before is there when the names are bound, and it is not renamed.
  have hbegun := (hhead.closed hhost hstore hhead₀ hscope).1
  have hgrown : store.link ≤ (begun.child scope).2.link :=
    hhead.link_le.trans (begun.keeps_child scope).link_le
  obtain ⟨hinner, hchild⟩ := hbegun.child (hscope.mono hhead.link_le)
  have hforms : ∀ pair ∈ pairs, pair.2.Within (begun.child scope).2 := fun pair hmem =>
    (within_of_elements hbindings₀ hbindings pair hmem).mono hgrown
  obtain ⟨π, hfixed, hrenamed⟩ := hchild.exists_renamed_of_perm hinner hforms hperm hdistinct
  have hbound : (begun.child scope).2.link ≤
      ((begun.child scope).2.bindAll (begun.child scope).1 pairs).linkBy π :=
    (Store.link_le_linkBy hfixed).trans (Store.linkBy_le_bindAll _ _ _)
  have hle := hgrown.trans hbound
  refine ⟨π, fun id hid => hfixed id (hgrown.2 id id ⟨rfl, hid⟩).2, ?_⟩
  -- Now the body is left to be evaluated, in stores that are the same up to renaming.
  refine run_renamed_of_reaches hhost hreach hreach' ⟨⟨.step, .step ?_, ?_⟩, rfl, hrenamed⟩
  · exact .tail (hbody.mono hle) (hinner.mono hbound)
  · exact .trampoline (CallSite.alike_self site) (hstack.mono hle)

/-- The names of a `let` can be bound in any order.  Take a closed store, and a `let` form that binds
distinct names to whatever forms, with its pairs in one order and in another.  Evaluation comes to an
end on both sides or on none, after the same number of steps.  At the end the values are the same,
or the failures with their traces are; the same text has been printed; and every frame binds the same
names to the same things.  All this is up to the names of cells, and only cells that were not there
before have other names. -/
theorem evaluate_let_perm (hhost : host.Respects .exact) (hstore : store.Closed)
    (hscope : scope.Within store) (hform : Value.Within store (.list [head, bindings, body]))
    (hhead : Evaluates host mainEvaluation head scope store
      (.ok (.func (.native name .bindLocals))) begun)
    (hbindings : bindings.elements? = some (Builtin.bindingItems pairs))
    (hbindings' : bindings'.elements? = some (Builtin.bindingItems pairs'))
    (hperm : pairs.Perm pairs') (hdistinct : (pairs.map fun pair => pair.1.name).Nodup) :
    ∃ π : Equiv.Perm CellId, (∀ id < store.cells.size, π id = id) ∧ ∀ fuel,
      Outcome.Renamed π (evaluate host fuel (.list [head, bindings, body]) scope store)
        (evaluate host fuel (.list [head, bindings', body]) scope store) :=
  run_let_perm hhost hstore hscope hform hhead hbindings hbindings' hperm hdistinct none .nil

/-- Two names are bound in either order, and the form of the one asks for the other.  Both runs come
to the same list and print the same line, in stores that differ in the names of the two cells. -/
theorem evaluate_let_perm_mutual :
    let call (name : String) (operands : List Value) : Value :=
      .list (.symbol (.unplaced name) :: operands)
    let first : Symbol × Value := (.unplaced "a", call "list" [.symbol (.unplaced "b")])
    let second : Symbol × Value := (.unplaced "b", call "do" [call "prn" [.text "b"], .text "c"])
    let form (pairs : List (Symbol × Value)) : Value :=
      call "let" [.vector (Builtin.bindingItems pairs), .symbol (.unplaced "a")]
    ∃ (π : Equiv.Perm CellId) (fuel : Nat) (later later' : Store),
      (∀ id < Store.base.cells.size, π id = id) ∧
        evaluate .standard fuel (form [first, second]) .base .base =
          .finished (.ok (.list [.text "c"])) later ∧
        evaluate .standard fuel (form [second, first]) .base .base =
          .finished (.ok (.list [.text "c"])) later' ∧
        later.Renamed π later' ∧ later.output = "b\n" := by
  intro call first second form
  have hcall : ∀ name {operands : List Value}, Value.AllAlike .exact Store.base.link operands
      operands → (call name operands).Within .base := fun name operands hoperands =>
    .list (.cons (.symbol (Symbol.alike_self _)) hoperands)
  have hsymbol : ∀ symbol, Value.Within .base (.symbol symbol) := fun symbol =>
    .symbol (Symbol.alike_self symbol)
  have hfirst : first.2.Within .base := hcall "list" (.cons (hsymbol _) .nil)
  have hsecond : second.2.Within .base :=
    hcall "do" (.cons (hcall "prn" (.cons (.text "b") .nil)) (.cons (.text "c") .nil))
  have hform : (form [first, second]).Within .base :=
    hcall "let" (.cons (.vector (.cons (hsymbol _) (.cons hfirst (.cons (hsymbol _)
      (.cons hsecond .nil))))) (.cons (hsymbol _) .nil))
  have hhead : Evaluates .standard mainEvaluation (.symbol (.unplaced "let")) .base .base
      (.ok (.func (.native "let" .bindLocals))) .base := evaluates_symbol rfl
  have hscope : Scope.Within .base .base := ⟨⟨rfl, Nat.one_pos⟩, .nil⟩
  have hitems : ∀ pairs, (Value.vector (Builtin.bindingItems pairs)).elements? =
      some (Builtin.bindingItems pairs) := fun _ => rfl
  obtain ⟨π, hfixed, houtcome⟩ := evaluate_let_perm (Host.standard_respects .exact)
    Store.base_closed hscope hform hhead (hitems _) (hitems _) (.swap second first [])
    (by decide)
  dsimp only [form, call, first, second] at houtcome ⊢
  refine ⟨π, 60, _, _, hfixed, rfl, rfl, ?_, rfl⟩
  have hsame := houtcome 60
  cases hsame with
  | finished _ hlater => exact hlater

end Machine
end LazyLisp
