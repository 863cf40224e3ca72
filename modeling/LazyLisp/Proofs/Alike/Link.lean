import LazyLisp.Proofs.Alike.Script

/-!
# Link — likeness across several stores

Likeness is carried along links: it can be turned around, carried from one store over a second to
a third, and restricted to the first of the two stores.  This file defines:

* `Link.flip`, `Link.comp` and `Link.union`;
* `Store.link`, under which everything in one store corresponds to itself.

Main results: `Value.Alike.flip`, `Value.Alike.comp` and `Value.Alike.left`, with the same for
results.
-/

namespace LazyLisp

/-! ## Links -/

namespace Link

/-- The same correspondence, seen from the second store. -/
def flip (link : Link) : Link :=
  ⟨fun frame frame' => link.frames frame' frame, fun cell cell' => link.cells cell' cell⟩

/-- What corresponds by way of a store in between. -/
def comp (link link' : Link) : Link :=
  ⟨fun frame frame'' => ∃ frame', link.frames frame frame' ∧ link'.frames frame' frame'',
    fun cell cell'' => ∃ cell', link.cells cell cell' ∧ link'.cells cell' cell''⟩

/-- What corresponds by one link or the other. -/
def union (link link' : Link) : Link :=
  ⟨fun frame frame' => link.frames frame frame' ∨ link'.frames frame frame',
    fun cell cell' => link.cells cell cell' ∨ link'.cells cell cell'⟩

/-- One more pair of corresponding frames. -/
def withFrame (link : Link) (frame frame' : FrameId) : Link :=
  { link with frames := fun f f' => link.frames f f' ∨ f = frame ∧ f' = frame' }

/-- One more pair of corresponding cells. -/
def withCell (link : Link) (cell cell' : CellId) : Link :=
  { link with cells := fun c c' => link.cells c c' ∨ c = cell ∧ c' = cell' }

variable (link link' : Link)

theorem le_union_left : link ≤ link.union link' :=
  ⟨fun _ _ h => .inl h, fun _ _ h => .inl h⟩

theorem le_union_right : link' ≤ link.union link' :=
  ⟨fun _ _ h => .inr h, fun _ _ h => .inr h⟩

theorem le_withFrame (frame frame' : FrameId) : link ≤ link.withFrame frame frame' :=
  ⟨fun _ _ h => .inl h, fun _ _ h => h⟩

theorem le_withCell (cell cell' : CellId) : link ≤ link.withCell cell cell' :=
  ⟨fun _ _ h => h, fun _ _ h => .inl h⟩

theorem same_comp_le : same.comp same ≤ same :=
  ⟨fun _ _ ⟨_, h, h'⟩ => h.trans h', fun _ _ ⟨_, h, h'⟩ => h.trans h'⟩

end Link

/-- Every frame and every cell of the store corresponds to itself. -/
def Store.link (store : Store) : Link :=
  ⟨fun (frame frame' : Nat) => frame = frame' ∧ frame < store.frames.size,
    fun (cell cell' : Nat) => cell = cell' ∧ cell < store.cells.size⟩

theorem Store.link_le_comp {store : Store} {link link' : Link} (h : store.link ≤ link)
    (h' : store.link ≤ link') : store.link ≤ link.comp link' :=
  ⟨fun frame _ hframe => ⟨frame, h.1 _ _ ⟨rfl, hframe.2⟩, h'.1 _ _ hframe⟩,
    fun cell _ hcell => ⟨cell, h.2 _ _ ⟨rfl, hcell.2⟩, h'.2 _ _ hcell⟩⟩

theorem Store.link_le_flip {store : Store} {link : Link} (h : store.link ≤ link) :
    store.link ≤ link.flip :=
  ⟨fun _ _ hframe => h.1 _ _ ⟨hframe.1.symm, hframe.1 ▸ hframe.2⟩,
    fun _ _ hcell => h.2 _ _ ⟨hcell.1.symm, hcell.1 ▸ hcell.2⟩⟩

variable {likeness : Likeness} {link link' : Link}

/-! ## The first of two stores -/

/-- What corresponds to anything by the one link corresponds to itself by the other. -/
structure Link.Covers (link' link : Link) : Prop where
  frames : ∀ frame frame', link.frames frame frame' → link'.frames frame frame
  cells : ∀ cell cell', link.cells cell cell' → link'.cells cell cell

theorem Scope.Alike.left (hcovers : link'.Covers link) {scope scope' : Scope}
    (h : scope.Alike link scope') : scope.Alike link' scope := by
  -- Every outer frame corresponds to the one at the same place of the other scope.
  refine ⟨hcovers.frames _ _ h.1, List.forall₂_same.mpr fun frame hmem => ?_⟩
  rcases List.forall₂_iff_get.mp h.2 with ⟨hlength, hget⟩
  rcases List.mem_iff_get.mp hmem with ⟨index, rfl⟩
  exact hcovers.frames _ _ (hget index.1 index.2 (hlength ▸ index.2))

mutual

theorem Value.Alike.left (hcovers : link'.Covers link) {value value' : Value} :
    value.Alike likeness link value' → value.Alike likeness link' value
  | .nil => .nil
  | .bool b => .bool b
  | .number n => .number n
  | .text s => .text s
  | .symbol _ => .symbol (Symbol.alike_self _)
  | .key key => .key key
  | .list h => .list (h.left hcovers)
  | .vector h => .vector (h.left hcovers)
  | .map h => .map (h.left hcovers)
  | .func h => .func (h.left hcovers)
  | .suspended hthunks h => .suspended hthunks (h.left hcovers)

theorem Value.AllAlike.left (hcovers : link'.Covers link) {items items' : List Value} :
    Value.AllAlike likeness link items items' → Value.AllAlike likeness link' items items
  | .nil => .nil
  | .cons hvalue hrest => .cons (hvalue.left hcovers) (hrest.left hcovers)

theorem Entries.Alike.left (hcovers : link'.Covers link) {entries entries' : List (Key × Value)} :
    Entries.Alike likeness link entries entries' → Entries.Alike likeness link' entries entries
  | .nil => .nil
  | .cons hvalue hrest => .cons (hvalue.left hcovers) (hrest.left hcovers)

theorem Func.Alike.left (hcovers : link'.Covers link) {func func' : Func} :
    func.Alike likeness link func' → func.Alike likeness link' func
  | .native hoperation => .native hoperation
  | .closure _ hbody hscope =>
      .closure (List.forall₂_same.mpr fun _ _ => Symbol.alike_self _)
        (hbody.left hcovers) (hscope.left hcovers)

theorem Suspension.Alike.left (hcovers : link'.Covers link) {work work' : Suspension} :
    work.Alike likeness link work' → work.Alike likeness link' work
  | .form hform hscope => .form (hform.left hcovers) (hscope.left hcovers)
  | .call hfunc hhead hoperands hscope =>
      .call (hfunc.left hcovers) (hhead.left hcovers) (hoperands.left hcovers)
        (hscope.left hcovers)
  | .binding hcell => .binding (hcovers.cells _ _ hcell)
  | .givenValue _ hvalue => .givenValue (CallSite.alike_self _) (hvalue.left hcovers)
  | .givenFailure _ => .givenFailure (CallSite.alike_self _)

end

/-! ## The other way round -/

theorem Symbol.Alike.symm {symbol symbol' : Symbol} (h : symbol.Alike likeness symbol') :
    symbol'.Alike likeness symbol :=
  ⟨h.1.symm, likeness.places_equivalence.symm h.2⟩

theorem CallSite.alike_symm {site site' : Option CallSite}
    (h : Option.Rel (CallSite.Alike likeness) site site') :
    Option.Rel (CallSite.Alike likeness) site' site := by
  cases h with
  | none => exact .none
  | some h => exact .some ⟨h.1.symm, likeness.places_equivalence.symm h.2⟩

theorem Scope.Alike.flip {scope scope' : Scope} (h : scope.Alike link scope') :
    scope'.Alike link.flip scope :=
  ⟨h.1, h.2.flip⟩

mutual

theorem Value.Alike.flip {value value' : Value} :
    value.Alike likeness link value' → value'.Alike likeness link.flip value
  | .nil => .nil
  | .bool b => .bool b
  | .number n => .number n
  | .text s => .text s
  | .symbol h => .symbol h.symm
  | .key key => .key key
  | .list h => .list h.flip
  | .vector h => .vector h.flip
  | .map h => .map h.flip
  | .func h => .func h.flip
  | .suspended hthunks h => .suspended hthunks h.flip

theorem Value.AllAlike.flip {items items' : List Value} :
    Value.AllAlike likeness link items items' → Value.AllAlike likeness link.flip items' items
  | .nil => .nil
  | .cons hvalue hrest => .cons hvalue.flip hrest.flip

theorem Entries.Alike.flip {entries entries' : List (Key × Value)} :
    Entries.Alike likeness link entries entries' →
      Entries.Alike likeness link.flip entries' entries
  | .nil => .nil
  | .cons hvalue hrest => .cons hvalue.flip hrest.flip

theorem Func.Alike.flip {func func' : Func} :
    func.Alike likeness link func' → func'.Alike likeness link.flip func
  | .native hoperation => .native hoperation
  | .closure hparams hbody hscope =>
      .closure (hparams.flip.imp fun _ _ (h : Symbol.Alike likeness _ _) => h.symm) hbody.flip
        hscope.flip

theorem Suspension.Alike.flip {work work' : Suspension} :
    work.Alike likeness link work' → work'.Alike likeness link.flip work
  | .form hform hscope => .form hform.flip hscope.flip
  | .call hfunc hhead hoperands hscope =>
      .call hfunc.flip hhead.flip hoperands.flip hscope.flip
  | .binding hcell => .binding hcell
  | .givenValue hsite hvalue => .givenValue (CallSite.alike_symm hsite) hvalue.flip
  | .givenFailure hsite => .givenFailure (CallSite.alike_symm hsite)

end

theorem Failure.Alike.symm {failure failure' : Failure} (h : failure.Alike likeness failure') :
    failure'.Alike likeness failure :=
  ⟨h.1.symm, likeness.traces_equivalence.symm h.2⟩

theorem Result.Alike.flip {result result' : Result}
    (h : Result.Alike likeness link result result') :
    Result.Alike likeness link.flip result' result := by
  cases h with
  | ok hvalue => exact .ok hvalue.flip
  | error hfailure => exact .error hfailure.symm

/-! ## Over a third store -/

theorem Symbol.Alike.trans {symbol symbol' symbol'' : Symbol} (h : symbol.Alike likeness symbol')
    (h' : symbol'.Alike likeness symbol'') : symbol.Alike likeness symbol'' :=
  ⟨h.1.trans h'.1, likeness.places_equivalence.trans h.2 h'.2⟩

theorem CallSite.alike_trans {site site' site'' : Option CallSite}
    (h : Option.Rel (CallSite.Alike likeness) site site')
    (h' : Option.Rel (CallSite.Alike likeness) site' site'') :
    Option.Rel (CallSite.Alike likeness) site site'' := by
  cases h with
  | none => exact h'
  | some h =>
      cases h' with
      | some h' => exact .some ⟨h.1.trans h'.1, likeness.places_equivalence.trans h.2 h'.2⟩

theorem forall₂_comp {α β γ : Type} {r : α → β → Prop} {r' : β → γ → Prop} {s : α → γ → Prop}
    (hcomp : ∀ a b c, r a b → r' b c → s a c) {as : List α} {bs : List β} {cs : List γ}
    (h : List.Forall₂ r as bs) (h' : List.Forall₂ r' bs cs) : List.Forall₂ s as cs := by
  induction h generalizing cs with
  | nil =>
      cases h'
      exact .nil
  | cons hhead _ ih =>
      rcases h' with _ | ⟨hhead', hrest'⟩
      exact .cons (hcomp _ _ _ hhead hhead') (ih hrest')

theorem Symbol.forall₂_alike_trans {symbols symbols' symbols'' : List Symbol}
    (h : List.Forall₂ (Symbol.Alike likeness) symbols symbols')
    (h' : List.Forall₂ (Symbol.Alike likeness) symbols' symbols'') :
    List.Forall₂ (Symbol.Alike likeness) symbols symbols'' :=
  forall₂_comp (fun _ _ _ hfirst hsecond => hfirst.trans hsecond) h h'

theorem Scope.Alike.comp {scope scope' scope'' : Scope} (h : scope.Alike link scope')
    (h' : scope'.Alike link' scope'') : scope.Alike (link.comp link') scope'' :=
  ⟨⟨_, h.1, h'.1⟩, forall₂_comp (fun _ frame _ hframe hframe' => ⟨frame, hframe, hframe'⟩) h.2 h'.2⟩

mutual

theorem Value.Alike.comp {value value' value'' : Value} :
    value.Alike likeness link value' → value'.Alike likeness link' value'' →
      value.Alike likeness (link.comp link') value''
  | .nil, .nil => .nil
  | .bool b, .bool _ => .bool b
  | .number n, .number _ => .number n
  | .text s, .text _ => .text s
  | .symbol h, .symbol h' => .symbol (h.trans h')
  | .key key, .key _ => .key key
  | .list h, .list h' => .list (h.comp h')
  | .vector h, .vector h' => .vector (h.comp h')
  | .map h, .map h' => .map (h.comp h')
  | .func h, .func h' => .func (h.comp h')
  | .suspended hthunks h, .suspended _ h' => .suspended hthunks (h.comp h')

theorem Value.AllAlike.comp {items items' items'' : List Value} :
    Value.AllAlike likeness link items items' → Value.AllAlike likeness link' items' items'' →
      Value.AllAlike likeness (link.comp link') items items''
  | .nil, .nil => .nil
  | .cons hvalue hrest, .cons hvalue' hrest' => .cons (hvalue.comp hvalue') (hrest.comp hrest')

theorem Entries.Alike.comp {entries entries' entries'' : List (Key × Value)} :
    Entries.Alike likeness link entries entries' →
      Entries.Alike likeness link' entries' entries'' →
        Entries.Alike likeness (link.comp link') entries entries''
  | .nil, .nil => .nil
  | .cons hvalue hrest, .cons hvalue' hrest' => .cons (hvalue.comp hvalue') (hrest.comp hrest')

theorem Func.Alike.comp {func func' func'' : Func} :
    func.Alike likeness link func' → func'.Alike likeness link' func'' →
      func.Alike likeness (link.comp link') func''
  | .native hoperation, .native _ => .native hoperation
  | .closure hparams hbody hscope, .closure hparams' hbody' hscope' =>
      .closure (Symbol.forall₂_alike_trans hparams hparams')
        (hbody.comp hbody') (hscope.comp hscope')

theorem Suspension.Alike.comp {work work' work'' : Suspension} :
    work.Alike likeness link work' → work'.Alike likeness link' work'' →
      work.Alike likeness (link.comp link') work''
  | .form hform hscope, .form hform' hscope' => .form (hform.comp hform') (hscope.comp hscope')
  | .call hfunc hhead hoperands hscope, .call hfunc' hhead' hoperands' hscope' =>
      .call (hfunc.comp hfunc') (hhead.comp hhead') (hoperands.comp hoperands')
        (hscope.comp hscope')
  | .binding hcell, .binding hcell' => .binding ⟨_, hcell, hcell'⟩
  | .givenValue hsite hvalue, .givenValue hsite' hvalue' =>
      .givenValue (CallSite.alike_trans hsite hsite') (hvalue.comp hvalue')
  | .givenFailure hsite, .givenFailure hsite' => .givenFailure (CallSite.alike_trans hsite hsite')

end

/-- Within one store, likeness is transitive. -/
theorem Value.AllAlike.trans {items items' items'' : List Value}
    (h : Value.AllAlike likeness .same items items')
    (h' : Value.AllAlike likeness .same items' items'') :
    Value.AllAlike likeness .same items items'' :=
  (h.comp h').mono Link.same_comp_le

theorem Failure.Alike.trans {failure failure' failure'' : Failure}
    (h : failure.Alike likeness failure') (h' : failure'.Alike likeness failure'') :
    failure.Alike likeness failure'' :=
  ⟨h.1.trans h'.1, likeness.traces_equivalence.trans h.2 h'.2⟩

theorem Result.Alike.comp {result result' result'' : Result}
    (h : Result.Alike likeness link result result')
    (h' : Result.Alike likeness link' result' result'') :
    Result.Alike likeness (link.comp link') result result'' := by
  cases h with
  | ok hvalue =>
      cases h' with
      | ok hvalue' => exact .ok (hvalue.comp hvalue')
  | error hfailure =>
      cases h' with
      | error hfailure' => exact .error (hfailure.trans hfailure')

end LazyLisp
