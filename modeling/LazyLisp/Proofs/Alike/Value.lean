import LazyLisp.Builtin.Table
import Mathlib.Data.List.Forall2
import Mathlib.Order.Basic

/-!
# Alike — values that two evaluations cannot tell apart

Two evaluations of the same program may differ in the names that frames and cells have in their
stores, in the places that symbols were read at, and in the traces of failures, without a program
noticing.  Values are *alike* if they differ in nothing else.  What may differ is said by two
things: a `Likeness` says how places and traces compare, whether suspended work may stand inside
data, and which native functions may occur; a `Link` says which frames and cells of the two stores
correspond.  This file defines:

* `Likeness` and `Link`, and the order of links, by which evaluation extends them;
* `Value.Alike` and its companions for lists, entries, functions and suspended work;
* `Value.Inert`, the data that refers to no store.

Alike values have the same kind, truth value and plain text, and they are equal to the same values
(`Value.Alike.display_eq`, `Value.Alike.equal_eq`).
-/

namespace LazyLisp

/-! ## What may differ -/

/-- In which respects two evaluations may differ. -/
structure Likeness where
  places : Option Position → Option Position → Prop
  traces : Trace → Trace → Prop
  /-- Whether suspended work may stand inside data. -/
  thunks : Prop
  /-- The operations that native functions may have. -/
  operations : Operation → Prop
  places_equivalence : Equivalence places
  traces_equivalence : Equivalence traces

/-- Equal places, which a likeness may ask for. -/
theorem Likeness.equal_places :
    Equivalence (Eq : Option Position → Option Position → Prop) := eq_equivalence

/-- Any two traces, which a likeness may allow. -/
theorem Likeness.any_traces : Equivalence fun _ _ : Trace => True :=
  ⟨fun _ => trivial, fun _ => trivial, fun _ _ => trivial⟩

/-- Which frames and cells of two stores correspond. -/
@[ext]
structure Link where
  frames : FrameId → FrameId → Prop
  cells : CellId → CellId → Prop

namespace Link

instance : Preorder Link where
  le link link' :=
    (∀ frame frame', link.frames frame frame' → link'.frames frame frame') ∧
      ∀ cell cell', link.cells cell cell' → link'.cells cell cell'
  le_refl _ := ⟨fun _ _ h => h, fun _ _ h => h⟩
  le_trans _ _ _ h h' :=
    ⟨fun frame frame' hframe => h'.1 frame frame' (h.1 frame frame' hframe),
      fun cell cell' hcell => h'.2 cell cell' (h.2 cell cell' hcell)⟩

/-- Every frame and every cell corresponds to itself. -/
def same : Link := ⟨Eq, Eq⟩

end Link

/-! ## Parts of values -/

def Symbol.Alike (likeness : Likeness) (symbol symbol' : Symbol) : Prop :=
  symbol.name = symbol'.name ∧ likeness.places symbol.position symbol'.position

def CallSite.Alike (likeness : Likeness) (site site' : CallSite) : Prop :=
  site.name = site'.name ∧ likeness.places site.position site'.position

def Scope.Alike (link : Link) (scope scope' : Scope) : Prop :=
  link.frames scope.frame scope'.frame ∧ List.Forall₂ link.frames scope.outer scope'.outer

/-- Failures with the same cause, hence the same message. -/
def Failure.Alike (likeness : Likeness) (failure failure' : Failure) : Prop :=
  failure.cause = failure'.cause ∧ likeness.traces failure.trace failure'.trace

/-! ## Values -/

section Alike

variable (likeness : Likeness) (link : Link)

mutual

inductive Value.Alike : Value → Value → Prop where
  | nil : Value.Alike .nil .nil
  | bool (b : Bool) : Value.Alike (.bool b) (.bool b)
  | number (n : Decimal) : Value.Alike (.number n) (.number n)
  | text (s : String) : Value.Alike (.text s) (.text s)
  | symbol {symbol symbol' : Symbol} :
      symbol.Alike likeness symbol' → Value.Alike (.symbol symbol) (.symbol symbol')
  | key (key : Key) : Value.Alike (.key key) (.key key)
  | list {items items' : List Value} :
      Value.AllAlike items items' → Value.Alike (.list items) (.list items')
  | vector {items items' : List Value} :
      Value.AllAlike items items' → Value.Alike (.vector items) (.vector items')
  | map {entries entries' : List (Key × Value)} :
      Entries.Alike entries entries' → Value.Alike (.map entries) (.map entries')
  | func {func func' : Func} : Func.Alike func func' → Value.Alike (.func func) (.func func')
  | suspended {work work' : Suspension} :
      likeness.thunks → Suspension.Alike work work' →
        Value.Alike (.suspended work) (.suspended work')

inductive Value.AllAlike : List Value → List Value → Prop where
  | nil : Value.AllAlike [] []
  | cons {value value' : Value} {rest rest' : List Value} :
      Value.Alike value value' → Value.AllAlike rest rest' →
        Value.AllAlike (value :: rest) (value' :: rest')

inductive Entries.Alike : List (Key × Value) → List (Key × Value) → Prop where
  | nil : Entries.Alike [] []
  | cons {key : Key} {value value' : Value} {rest rest' : List (Key × Value)} :
      Value.Alike value value' → Entries.Alike rest rest' →
        Entries.Alike ((key, value) :: rest) ((key, value') :: rest')

inductive Func.Alike : Func → Func → Prop where
  | native {name : String} {operation : Operation} :
      likeness.operations operation → Func.Alike (.native name operation) (.native name operation)
  | closure {name : String} {params params' : List Symbol} {body body' : Value}
      {scope scope' : Scope} :
      List.Forall₂ (Symbol.Alike likeness) params params' → Value.Alike body body' →
        scope.Alike link scope' →
          Func.Alike (.closure name params body scope) (.closure name params' body' scope')

inductive Suspension.Alike : Suspension → Suspension → Prop where
  | form {form form' : Value} {scope scope' : Scope} :
      Value.Alike form form' → scope.Alike link scope' →
        Suspension.Alike (.form form scope) (.form form' scope')
  | call {func func' : Func} {head head' : Value} {operands operands' : List Value}
      {scope scope' : Scope} :
      Func.Alike func func' → Value.Alike head head' → Value.AllAlike operands operands' →
        scope.Alike link scope' →
          Suspension.Alike (.call func head operands scope) (.call func' head' operands' scope')
  | binding {cell cell' : CellId} :
      link.cells cell cell' → Suspension.Alike (.binding cell) (.binding cell')
  | givenValue {site site' : Option CallSite} {value value' : Value} :
      Option.Rel (CallSite.Alike likeness) site site' → Value.Alike value value' →
        Suspension.Alike (.given site (.ok value)) (.given site' (.ok value'))
  | givenFailure {site site' : Option CallSite} {failure : Failure} :
      Option.Rel (CallSite.Alike likeness) site site' →
        Suspension.Alike (.given site (.error failure)) (.given site' (.error failure))

end

end Alike

variable {likeness : Likeness} {link link' : Link}

theorem Symbol.alike_self (symbol : Symbol) : symbol.Alike likeness symbol :=
  ⟨rfl, likeness.places_equivalence.refl _⟩

theorem Symbol.Alike.eq {symbol symbol' : Symbol} (h : symbol.Alike likeness symbol')
    (hplaces : likeness.places = Eq) : symbol = symbol' := by
  rcases symbol with ⟨name, place⟩
  rcases symbol' with ⟨name', place'⟩
  rcases h with ⟨hname, hplace⟩
  rw [hplaces] at hplace
  cases hname
  cases hplace
  rfl

theorem Symbol.eq_of_forall₂_alike {symbols symbols' : List Symbol}
    (h : List.Forall₂ (Symbol.Alike likeness) symbols symbols') (hplaces : likeness.places = Eq) :
    symbols = symbols' := by
  have heq := h.imp fun _ _ (hsymbol : Symbol.Alike likeness _ _) => hsymbol.eq hplaces
  rwa [List.forall₂_eq_eq_eq] at heq

theorem CallSite.alike_self (site : Option CallSite) :
    Option.Rel (CallSite.Alike likeness) site site := by
  cases site with
  | none => exact .none
  | some site => exact .some ⟨rfl, likeness.places_equivalence.refl _⟩

/-! ## Longer links -/

theorem Scope.Alike.mono (hle : link ≤ link') {scope scope' : Scope}
    (h : scope.Alike link scope') : scope.Alike link' scope' :=
  ⟨hle.1 _ _ h.1, h.2.imp hle.1⟩

mutual

theorem Value.Alike.mono (hle : link ≤ link') {value value' : Value} :
    value.Alike likeness link value' → value.Alike likeness link' value'
  | .nil => .nil
  | .bool b => .bool b
  | .number n => .number n
  | .text s => .text s
  | .symbol h => .symbol h
  | .key key => .key key
  | .list h => .list (h.mono hle)
  | .vector h => .vector (h.mono hle)
  | .map h => .map (h.mono hle)
  | .func h => .func (h.mono hle)
  | .suspended hthunks h => .suspended hthunks (h.mono hle)

theorem Value.AllAlike.mono (hle : link ≤ link') {items items' : List Value} :
    Value.AllAlike likeness link items items' → Value.AllAlike likeness link' items items'
  | .nil => .nil
  | .cons hvalue hrest => .cons (hvalue.mono hle) (hrest.mono hle)

theorem Entries.Alike.mono (hle : link ≤ link') {entries entries' : List (Key × Value)} :
    Entries.Alike likeness link entries entries' → Entries.Alike likeness link' entries entries'
  | .nil => .nil
  | .cons hvalue hrest => .cons (hvalue.mono hle) (hrest.mono hle)

theorem Func.Alike.mono (hle : link ≤ link') {func func' : Func} :
    func.Alike likeness link func' → func.Alike likeness link' func'
  | .native hoperation => .native hoperation
  | .closure hparams hbody hscope => .closure hparams (hbody.mono hle) (hscope.mono hle)

theorem Suspension.Alike.mono (hle : link ≤ link') {work work' : Suspension} :
    work.Alike likeness link work' → work.Alike likeness link' work'
  | .form hform hscope => .form (hform.mono hle) (hscope.mono hle)
  | .call hfunc hhead hoperands hscope =>
      .call (hfunc.mono hle) (hhead.mono hle) (hoperands.mono hle) (hscope.mono hle)
  | .binding hcell => .binding (hle.2 _ _ hcell)
  | .givenValue hsite hvalue => .givenValue hsite (hvalue.mono hle)
  | .givenFailure hsite => .givenFailure hsite

end

theorem Value.AllAlike.append {items items' more more' : List Value}
    (h : Value.AllAlike likeness link items items')
    (hmore : Value.AllAlike likeness link more more') :
    Value.AllAlike likeness link (items ++ more) (items' ++ more') := by
  induction items generalizing items' with
  | nil =>
      cases h
      exact hmore
  | cons item rest ih =>
      cases h with
      | cons hitem hrest => exact .cons hitem (ih hrest)

/-! ## What programs see of alike values -/

theorem Value.AllAlike.length_eq {items items' : List Value}
    (h : Value.AllAlike likeness link items items') : items.length = items'.length := by
  induction items generalizing items' with
  | nil => cases h; rfl
  | cons value rest ih =>
      cases h with
      | cons _ hrest => simp [ih hrest]

theorem Entries.Alike.length_eq {entries entries' : List (Key × Value)}
    (h : Entries.Alike likeness link entries entries') : entries.length = entries'.length := by
  induction entries generalizing entries' with
  | nil => cases h; rfl
  | cons entry rest ih =>
      cases h with
      | cons _ hrest => simp [ih hrest]

theorem Func.Alike.name_eq {func func' : Func} (h : func.Alike likeness link func') :
    func.name = func'.name := by
  cases h <;> rfl

namespace Value.Alike

theorem kind_eq {value value' : Value} (h : value.Alike likeness link value') :
    value.kind = value'.kind := by
  cases h <;> rfl

theorem isTruthy_eq {value value' : Value} (h : value.Alike likeness link value') :
    value.isTruthy = value'.isTruthy := by
  cases h <;> rfl

theorem accepts_eq (predicate : Predicate) {value value' : Value}
    (h : value.Alike likeness link value') :
    predicate.accepts value = predicate.accepts value' := by
  -- Two predicates look for one value; the others look at the kind or the truth value only.
  cases predicate with
  | isTrue => cases h <;> rfl
  | isFalse => cases h <;> rfl
  | _ => simp only [Predicate.accepts, h.kind_eq, h.isTruthy_eq]

end Value.Alike

mutual

/-- Alike values have the same plain text. -/
theorem Value.Alike.display_eq {value value' : Value} :
    value.Alike likeness link value' → value.display = value'.display
  | .nil => rfl
  | .bool _ => rfl
  | .number _ => rfl
  | .text _ => rfl
  | .symbol h => h.1
  | .key _ => rfl
  | .list h => by simp only [Value.display, h.displayAll_eq]
  | .vector h => by simp only [Value.display, h.displayAll_eq]
  | .map h => by simp only [Value.display, h.display_eq]
  | .func h => by simp only [Value.display, Func.display, h.name_eq]
  | .suspended _ _ => rfl

theorem Value.AllAlike.displayAll_eq {items items' : List Value} :
    Value.AllAlike likeness link items items' →
      Value.displayAll items = Value.displayAll items'
  | .nil => rfl
  | .cons hvalue hrest => by
      simp only [Value.displayAll, hvalue.display_eq, hrest.displayAll_eq]

theorem Entries.Alike.display_eq {entries entries' : List (Key × Value)} :
    Entries.Alike likeness link entries entries' →
      Entries.display entries = Entries.display entries'
  | .nil => rfl
  | .cons hvalue hrest => by
      simp only [Entries.display, hvalue.display_eq, hrest.display_eq]

end

mutual

/-- Alike values are equal to alike values. -/
theorem Value.Alike.equal_eq {a a' b b' : Value} :
    a.Alike likeness link a' → b.Alike likeness link b' → a.equal b = a'.equal b'
  | .list h, hb => by
      cases hb with
      | list h' => simp only [Value.equal, h.equalAll_eq h']
      | _ => rfl
  | .vector h, hb => by
      cases hb with
      | vector h' => simp only [Value.equal, h.equalAll_eq h']
      | _ => rfl
  | .map h, hb => by
      cases hb with
      | map h' => simp only [Value.equal, h.equal_eq h']
      | _ => rfl
  | .symbol h, hb => by
      cases hb with
      | symbol h' => simp only [Value.equal, h.1, h'.1]
      | _ => rfl
  -- What is left has no parts that equality could look into.
  | .nil, hb | .bool _, hb | .number _, hb | .text _, hb | .key _, hb | .func _, hb
  | .suspended _ _, hb => by cases hb <;> simp only [Value.equal]

theorem Value.AllAlike.equalAll_eq {as as' bs bs' : List Value} :
    Value.AllAlike likeness link as as' → Value.AllAlike likeness link bs bs' →
      Value.equalAll as bs = Value.equalAll as' bs'
  | .nil, .nil | .nil, .cons _ _ | .cons _ _, .nil => rfl
  | .cons hvalue hrest, .cons hvalue' hrest' => by
      simp only [Value.equalAll, hvalue.equal_eq hvalue', hrest.equalAll_eq hrest']

theorem Entries.Alike.equal_eq {as as' bs bs' : List (Key × Value)} :
    Entries.Alike likeness link as as' → Entries.Alike likeness link bs bs' →
      Entries.equal as bs = Entries.equal as' bs'
  | .nil, .nil | .nil, .cons _ _ | .cons _ _, .nil => rfl
  | .cons hvalue hrest, .cons hvalue' hrest' => by
      simp only [Entries.equal, hvalue.equal_eq hvalue', hrest.equal_eq hrest']

end

theorem Entries.Alike.get? (key : Key) {entries entries' : List (Key × Value)}
    (h : Entries.Alike likeness link entries entries') :
    Option.Rel (Value.Alike likeness link) (Entries.get? key entries)
      (Entries.get? key entries') := by
  induction entries generalizing entries' with
  | nil => cases h; exact .none
  | cons entry rest ih =>
      cases h with
      | cons hvalue hrest =>
          simp only [Entries.get?]
          split
          · exact .some hvalue
          · exact ih hrest

/-! ## Inert data -/

/-- Data that holds no function and no suspended work. -/
inductive Value.Inert : Value → Prop where
  | nil : Value.Inert .nil
  | bool (b : Bool) : Value.Inert (.bool b)
  | number (n : Decimal) : Value.Inert (.number n)
  | text (s : String) : Value.Inert (.text s)
  | symbol (symbol : Symbol) : Value.Inert (.symbol symbol)
  | key (key : Key) : Value.Inert (.key key)
  | list {items : List Value} : (∀ item ∈ items, Value.Inert item) → Value.Inert (.list items)
  | vector {items : List Value} : (∀ item ∈ items, Value.Inert item) → Value.Inert (.vector items)
  | map {entries : List (Key × Value)} :
      (∀ entry ∈ entries, Value.Inert entry.2) → Value.Inert (.map entries)

theorem Value.allAlike_of_forall {items : List Value}
    (h : ∀ item ∈ items, item.Alike likeness link item) :
    Value.AllAlike likeness link items items := by
  induction items with
  | nil => exact .nil
  | cons item rest ih =>
      exact .cons (h item (by simp)) (ih fun other hmem => h other (by simp [hmem]))

theorem Entries.alike_of_forall {entries : List (Key × Value)}
    (h : ∀ entry ∈ entries, entry.2.Alike likeness link entry.2) :
    Entries.Alike likeness link entries entries := by
  induction entries with
  | nil => exact .nil
  | cons entry rest ih =>
      exact .cons (h entry (by simp)) (ih fun other hmem => h other (by simp [hmem]))

/-- Inert data is alike itself in any two stores. -/
theorem Value.Inert.alike (likeness : Likeness) (link : Link) {value : Value} (h : value.Inert) :
    value.Alike likeness link value := by
  induction h with
  | nil => exact .nil
  | bool b => exact .bool b
  | number n => exact .number n
  | text s => exact .text s
  | symbol symbol => exact .symbol symbol.alike_self
  | key key => exact .key key
  | list _ ih => exact .list (Value.allAlike_of_forall ih)
  | vector _ ih => exact .vector (Value.allAlike_of_forall ih)
  | map _ ih => exact .map (Entries.alike_of_forall ih)

end LazyLisp
