import LazyLisp.Proofs.Builtin.Hygiene
import LazyLisp.Proofs.Machine.Again
import LazyLisp.Proofs.Machine.InTurn
import LazyLisp.Proofs.Ready.Value

/-!
# Pointwise — `map` and `apply` as calls of their function

`map` and `apply` build calls as code, and the code is evaluated again in the scope of the caller.  As
long as the names in it keep their meaning, nothing is lost on this way: the calls are those of the
function that was found, in the order of the elements, and with these very elements.  This file defines:

* `Machine.callOf` and `Machine.Calls`, a call of a function with given values and what it comes to;
* `Store.KeepsBinding` and `Store.BindsPlainly`, what is asked of the binding of a symbol that stands
  for the function.

Main results: `Builtin.evaluates_map_iff`, `Builtin.path_map_call` and `Builtin.path_apply`, how the
two functions come to their calls, and `Builtin.map_apply_pointwise`, which puts this together.
-/

namespace LazyLisp

namespace Store

variable {store : Store} {scope : Scope}

/-! ## Symbols that stand for functions -/

/-- If the form is a symbol, it is bound in the later store to what it was bound to. -/
def KeepsBinding (store later : Store) (scope : Scope) (form : Value) : Prop :=
  ∀ symbol, form = .symbol symbol →
    later.owner? scope symbol.name = store.owner? scope symbol.name

/-- If the form is a symbol, it is bound to a value, or lazily, but not to suspended work. -/
def BindsPlainly (store : Store) (scope : Scope) (form : Value) : Prop :=
  ∀ symbol frame binding, form = .symbol symbol →
    store.owner? scope symbol.name = some (frame, binding) → store.Plain binding

/-- In a ready store, as sessions lead to, no suspended work is bound. -/
theorem bindsPlainly_of_ready (h : store.Alike .ready store) (scope : Scope) (form : Value) :
    store.BindsPlainly scope form := by
  intro symbol frame binding _ howner
  have halike := h.owner? scope symbol.name
  rw [howner] at halike
  cases halike with
  | some halike =>
      obtain ⟨-, hbinding⟩ := halike
      cases binding with
      | value value =>
          cases hbinding with
          | value hvalue =>
              rintro work rfl
              exact hvalue.ready
      | lazy cell =>
          intro name work hcell
          have hcells := h.cells cell
          rw [hcell] at hcells
          cases hcells with
          | some hcells =>
              cases hcells.state with
              | settled hresult => exact Result.alike_ready_iff.mp hresult

end Store

namespace Machine

variable {host : Host} {me : EvaluationId} {scope : Scope} {head first : Value} {func : Func}
  {values : List Value} {store store₁ later : Store} {result : Result}

/-- The head of the calls stands for the function from then on that the form has come to. -/
theorem names_callHead (h : Evaluates host me first scope store (.ok (.func func)) store₁)
    (hplain : store.BindsPlainly scope first) (hupholds : store₁.Upholds later)
    (hkept : store.KeepsBinding later scope first) :
    later.Names scope (Builtin.callHead first func) func := by
  cases first with
  | symbol symbol =>
      obtain ⟨frame, binding, howner⟩ := owner_of_evaluates h
      exact names_again h howner (hplain symbol frame binding rfl howner) hupholds
        (hkept symbol rfl)
  | _ => exact .inl rfl

/-! ## Calls with given values -/

/-- The machine before a call of the function.  The operands are made for the given values, so that they
come to just these. -/
def callOf (me : EvaluationId) (scope : Scope) (func : Func) (head : Value) (values : List Value)
    (store : Store) : State :=
  ⟨.resume (.call func head (values.map Form.operand) scope), [.trampoline (func.callSite? head)], me,
    store⟩

/-- Called with the given values, the function comes to the result. -/
def Calls (host : Host) (me : EvaluationId) (scope : Scope) (func : Func) (head : Value)
    (values : List Value) (store : Store) (result : Result) (later : Store) : Prop :=
  ∃ fuel, run host fuel (callOf me scope func head values store) = .finished result later

/-- Called with one of the values after the other, the function comes to the outcome. -/
abbrev CallsEach (host : Host) (me : EvaluationId) (scope : Scope) (func : Func) (head : Value) :
    List Value → Store → Except Failure (List Value) → Store → Prop :=
  InTurn fun value => Calls host me scope func head [value]

theorem Calls.outcome (h : Calls host me scope func head values store result later) :
    ∃ fuel, Direct.outcome Discipline.need.traced host fuel me (func.callSite? head)
      (.resume (.call func head (values.map Form.operand) scope)) store = some (result, later) :=
  (Direct.halts_iff_outcome Direct.governs_need).mp (finished_iff_halts.mp h)

theorem Calls.unique {other : Result} {later' : Store}
    (h : Calls host me scope func head values store result later)
    (hother : Calls host me scope func head values store other later') :
    result = other ∧ later = later' := by
  obtain ⟨fuel, hfuel⟩ := h.outcome
  obtain ⟨fuel', hfuel'⟩ := hother.outcome
  exact Prod.mk.injEq _ _ _ _ ▸ Direct.outcome_unique hfuel hfuel'

theorem Calls.upholds (h : Calls host me scope func head values store result later) :
    store.Upholds later := by
  obtain ⟨fuel, hfuel⟩ := h.outcome
  exact Direct.upholds_of_outcome hfuel

/-- A call that is built as code is a call of the function that its head stands for. -/
theorem path_builtCall (h : store.Names scope head func) (values : List Value)
    (stack : List Pending) :
    Path host anyState
      ⟨.run (Form.step (Form.call head values) scope), .trampoline none :: stack, me, store⟩
      ((callOf me scope func head values store).onto stack) := by
  have hhead : Evaluates host me head scope store (.ok (.func func)) store := evaluates_of_names h
  have hpath := path_call hhead (values.map Form.operand) none stack
  rw [Option.or_none] at hpath
  exact hpath

theorem evaluates_builtCall_iff (h : store.Names scope head func) :
    Evaluates host me (Form.call head values) scope store result later ↔
      Calls host me scope func head values store result later :=
  (path_builtCall h values []).finished_iff

theorem InTurn.upholds {comesTo : Value → Store → Result → Store → Prop} {items : List Value}
    {outcome : Except Failure (List Value)}
    (hupholds : ∀ item store result later, comesTo item store result later → store.Upholds later)
    (h : InTurn comesTo items store outcome later) : store.Upholds later := by
  induction h with
  | nil => exact .refl _
  | fails hitem => exact hupholds _ _ _ _ hitem
  | next hitem _ ih => exact (hupholds _ _ _ _ hitem).trans ih

/-- An operand that is made for a value comes to the value.  If it has to be quoted, then the only
effect can be that of looking up the builtin function. -/
theorem evaluates_operand_of_quote {value : Value} (hvalue : ∀ work, value ≠ .suspended work)
    (h : value.StandsForItself ∧ later = store ∨
      ¬ value.StandsForItself ∧ ∃ name, Evaluates host me (.symbol (.unplaced "quote")) scope store
        (.ok (.func (.native name .quote))) later) :
    Evaluates host me (Form.operand value) scope store (.ok value) later := by
  rcases h with ⟨hself, rfl⟩ | ⟨hquoted, name, hquote⟩
  · exact evaluates_operand hvalue (.inl hself)
  · have hoperand : Form.operand value = value.quoted := by
      cases value with
      | nil | bool b | number n | text s | key key | func func => exact (hquoted trivial).elim
      | _ => rfl
    rw [hoperand]
    exact evaluates_native hquote .refl fun work heq => hvalue work (Except.ok.inj heq)

end Machine

namespace Builtin

open Machine

variable {host : Host} {me : EvaluationId} {scope : Scope} {head first second coll : Value}
  {name : String} {func : Func} {items : List Value} {store₀ store store₁ store₂ later : Store}
  {result : Result}

/-! ## From `map` and `apply` to their calls -/

/-- `map` comes down to the vector of the calls that it builds. -/
theorem path_map (hhead : Evaluates host me head scope store₀ (.ok (.func (.native name .map))) store)
    (hfirst : Evaluates host me first scope store (.ok (.func func)) store₁)
    (hsecond : Evaluates host me second scope store₁ (.ok coll) store₂)
    (hitems : coll.elements? = some items) :
    Path host anyState
      ⟨.run (Form.step (.list [head, first, second]) scope), [.trampoline none], me, store₀⟩
      ⟨.run (Form.step (.vector (items.map fun item => Form.call (callHead first func) [item]))
        scope), [.trampoline none], me, store₂⟩ :=
  ((path_call hhead [first, second] none []).trans
    (leaves_map hfirst hsecond hitems none [])).tail ⟨trivial, rfl⟩

/-- `apply` comes down to one call. -/
theorem path_apply
    (hhead : Evaluates host me head scope store₀ (.ok (.func (.native name .apply))) store)
    (hfirst : Evaluates host me first scope store (.ok (.func func)) store₁)
    (hsecond : Evaluates host me second scope store₁ (.ok coll) store₂)
    (hitems : coll.elements? = some items) (hnames : store₂.Names scope (callHead first func) func) :
    Path host anyState
      ⟨.run (Form.step (.list [head, first, second]) scope), [.trampoline none], me, store₀⟩
      (callOf me scope func (callHead first func) items store₂) :=
  (((path_call hhead [first, second] none []).trans
    (leaves_apply hfirst hsecond hitems none [])).tail ⟨trivial, rfl⟩).trans
      (path_builtCall hnames items [])

section Map

variable
  (hnames : ∀ front item rest values middle, items = front ++ item :: rest →
    CallsEach host me scope func (callHead first func) front store₂ (.ok values) middle →
      middle.Names scope (callHead first func) func)

include hnames

/-- The calls that are built come to what the calls of the function come to in turn. -/
theorem inTurn_builtCalls_iff {front : List Value} {outcome : Except Failure (List Value)}
    (hfront : front <+: items) :
    InTurn (fun form => Evaluates host me form scope)
        (front.map fun item => Form.call (callHead first func) [item]) store₂ outcome later ↔
      CallsEach host me scope func (callHead first func) front store₂ outcome later := by
  obtain ⟨more, rfl⟩ := hfront
  refine InTurn.congr fun before item rest values middle hsplit hbefore result later => ?_
  have hitems : front ++ more = before ++ item :: (rest ++ more) := by
    rw [hsplit, List.append_assoc, List.cons_append]
  exact evaluates_builtCall_iff (hnames before item _ values middle hitems hbefore)

/-- `map` comes to the vector of what the calls come to in turn. -/
theorem evaluates_map_iff
    (hhead : Evaluates host me head scope store₀ (.ok (.func (.native name .map))) store)
    (hfirst : Evaluates host me first scope store (.ok (.func func)) store₁)
    (hsecond : Evaluates host me second scope store₁ (.ok coll) store₂)
    (hitems : coll.elements? = some items) :
    Evaluates host me (.list [head, first, second]) scope store₀ result later ↔
      ∃ outcome, CallsEach host me scope func (callHead first func) items store₂ outcome later ∧
        result = outcome.map Value.vector := by
  refine (path_map hhead hfirst hsecond hitems).finished_iff.trans (evaluates_vector_iff.trans ?_)
  refine exists_congr fun outcome => and_congr_left fun _ => ?_
  exact inTurn_builtCalls_iff hnames List.prefix_rfl

/-- Once the first calls have come to values, `map` comes to the next one. -/
theorem path_map_call {front rest values : List Value} {item : Value}
    (hhead : Evaluates host me head scope store₀ (.ok (.func (.native name .map))) store)
    (hfirst : Evaluates host me first scope store (.ok (.func func)) store₁)
    (hsecond : Evaluates host me second scope store₁ (.ok coll) store₂)
    (hitems : coll.elements? = some items) (hsplit : items = front ++ item :: rest)
    (hfront : CallsEach host me scope func (callHead first func) front store₂ (.ok values) later) :
    ∃ stack, Path host anyState
      ⟨.run (Form.step (.list [head, first, second]) scope), [.trampoline none], me, store₀⟩
      ((callOf me scope func (callHead first func) [item] later).onto stack) := by
  have hprefix : front <+: items := hsplit ▸ List.prefix_append front (item :: rest)
  have hforms := evaluatesAll_of_inTurn ((inTurn_builtCalls_iff hnames hprefix).mpr hfront)
  have hnow := hnames front item rest values later hsplit hfront
  have hmap := path_map hhead hfirst hsecond hitems
  rw [hsplit, List.map_append, List.map_cons] at hmap
  have hbefore := path_values_append hforms
    (Form.call (callHead first func) [item] ::
      rest.map fun item => Form.call (callHead first func) [item])
    (fun values => .done (.ok (.vector values))) [.trampoline none]
  rw [bind_values_cons] at hbefore
  exact ⟨_, (hmap.trans (hbefore.tail ⟨trivial, rfl⟩)).trans (path_builtCall hnow [item] _)⟩

end Map

/-- Let the first operand come to a function and the second one to the elements of a list or a vector.
If the first operand is a symbol, it is not bound to suspended work, and it has its binding still
whenever a call is about to be made.

* `map` comes to the vector of what the function comes to, called with one element after the other, or
  to the failure of the first call that fails; and to nothing else.  Even if the next call never comes
  to an end, `map` gets as far as that.
* `apply` comes to the end of one call with all elements, whatever that is.
* Operands of these calls come to just the elements, whenever and by whomever they are evaluated.  They
  have no effect, except that `quote` is looked up for elements that do not stand for themselves. -/
theorem map_apply_pointwise
    (hfirst : Evaluates host me first scope store (.ok (.func func)) store₁)
    (hsecond : Evaluates host me second scope store₁ (.ok coll) store₂)
    (hitems : coll.elements? = some items) (hplain : store.BindsPlainly scope first) :
    (table.lookup "map" = some .map ∧ table.lookup "apply" = some .apply) ∧
    (Evaluates host me head scope store₀ (.ok (.func (.native name .map))) store →
      (∀ front item rest values later, items = front ++ item :: rest →
        CallsEach host me scope func (callHead first func) front store₂ (.ok values) later →
          store.KeepsBinding later scope first) →
      (∀ result later, Evaluates host me (.list [head, first, second]) scope store₀ result later ↔
        ∃ outcome, CallsEach host me scope func (callHead first func) items store₂ outcome later ∧
          result = outcome.map Value.vector) ∧
      ∀ front item rest values later, items = front ++ item :: rest →
        CallsEach host me scope func (callHead first func) front store₂ (.ok values) later →
          ∃ stack, Path host anyState
            ⟨.run (Form.step (.list [head, first, second]) scope), [.trampoline none], me, store₀⟩
            ((callOf me scope func (callHead first func) [item] later).onto stack)) ∧
    (Evaluates host me head scope store₀ (.ok (.func (.native name .apply))) store →
      store.KeepsBinding store₂ scope first →
      ∀ outcome : Outcome, outcome.Ends →
        ((∃ fuel, run host fuel ⟨.run (Form.step (.list [head, first, second]) scope),
            [.trampoline none], me, store₀⟩ = outcome) ↔
          ∃ fuel, run host fuel (callOf me scope func (callHead first func) items store₂) =
            outcome)) ∧
    ∀ item ∈ items, (∀ work, item ≠ .suspended work) → ∀ worker before after,
      (item.StandsForItself ∧ after = before ∨
        ¬ item.StandsForItself ∧ ∃ quoteName, Evaluates host worker (.symbol (.unplaced "quote")) scope
          before (.ok (.func (.native quoteName .quote))) after) →
        Evaluates host worker (Form.operand item) scope before (.ok item) after := by
  refine ⟨⟨by decide, by decide⟩, ?_, ?_, ?_⟩
  · intro hhead hkept
    have hnames : ∀ front item rest values middle, items = front ++ item :: rest →
        CallsEach host me scope func (callHead first func) front store₂ (.ok values) middle →
          middle.Names scope (callHead first func) func := by
      intro front item rest values middle hsplit hfront
      have hcalls : store₂.Upholds middle := hfront.upholds fun _ _ _ _ h => h.upholds
      exact names_callHead hfirst hplain (hsecond.upholds.trans hcalls)
        (hkept front item rest values middle hsplit hfront)
    refine ⟨fun result later => evaluates_map_iff hnames hhead hfirst hsecond hitems, ?_⟩
    intro front item rest values later hsplit hfront
    exact path_map_call hnames hhead hfirst hsecond hitems hsplit hfront
  · intro hhead hkept outcome hends
    have hnames := names_callHead hfirst hplain hsecond.upholds hkept
    exact (path_apply hhead hfirst hsecond hitems hnames).ends_iff hends
  · intro item _ hitem worker before after hquote
    exact evaluates_operand_of_quote hitem hquote

/-- `(map list (quote ([1 2] a)))` and `(apply list (quote ([1 2] a)))`: neither the vector nor the
symbol is evaluated. -/
theorem map_apply_pointwise_quoted :
    Evaluates Host.empty mainEvaluation
      (.list [.symbol (.unplaced "map"), .symbol (.unplaced "list"),
        Value.quoted (.list [.vector [.int 1, .int 2], .symbol (.unplaced "a")])])
      .base Store.base
      (.ok (.vector [.list [.vector [.int 1, .int 2]], .list [.symbol (.unplaced "a")]]))
      Store.base ∧
    Evaluates Host.empty mainEvaluation
      (.list [.symbol (.unplaced "apply"), .symbol (.unplaced "list"),
        Value.quoted (.list [.vector [.int 1, .int 2], .symbol (.unplaced "a")])])
      .base Store.base (.ok (.list [.vector [.int 1, .int 2], .symbol (.unplaced "a")]))
      Store.base := by
  have hlist : Evaluates Host.empty mainEvaluation (.symbol (.unplaced "list")) .base Store.base
      (.ok (.func (.native "list" .list))) Store.base := evaluates_symbol rfl
  have hitems : Evaluates Host.empty mainEvaluation
      (Value.quoted (.list [.vector [.int 1, .int 2], .symbol (.unplaced "a")])) .base Store.base
      (.ok (.list [.vector [.int 1, .int 2], .symbol (.unplaced "a")])) Store.base := ⟨20, rfl⟩
  have hplain : Store.base.BindsPlainly .base (.symbol (.unplaced "list")) :=
    Store.bindsPlainly_of_ready (Store.base_alike fun _ _ => trivial) _ _
  have hvector : Calls Host.empty mainEvaluation .base (.native "list" .list)
      (.symbol (.unplaced "list")) [.vector [.int 1, .int 2]] Store.base
      (.ok (.list [.vector [.int 1, .int 2]])) Store.base := ⟨20, rfl⟩
  have hsymbol : Calls Host.empty mainEvaluation .base (.native "list" .list)
      (.symbol (.unplaced "list")) [.symbol (.unplaced "a")] Store.base
      (.ok (.list [.symbol (.unplaced "a")])) Store.base := ⟨20, rfl⟩
  constructor
  · have hhead : Evaluates Host.empty mainEvaluation (.symbol (.unplaced "map")) .base Store.base
        (.ok (.func (.native "map" .map))) Store.base := evaluates_symbol rfl
    refine (((map_apply_pointwise hlist hitems rfl hplain).2.1 hhead ?_).1 _ _).mpr
      ⟨_, .next hvector (.next hsymbol .nil), rfl⟩
    intro front item rest values later hsplit hfront
    have hlater : later = Store.base := hfront.store_eq fun value hmem _ _ hvalue => by
      have hmem' : value ∈ [.vector [.int 1, .int 2], .symbol (.unplaced "a")] :=
        hsplit ▸ List.mem_append_left _ hmem
      simp only [List.mem_cons, List.not_mem_nil, or_false] at hmem'
      rcases hmem' with rfl | rfl
      · exact (hvalue.unique hvector).2
      · exact (hvalue.unique hsymbol).2
    subst hlater
    exact fun _ _ => rfl
  · have hhead : Evaluates Host.empty mainEvaluation (.symbol (.unplaced "apply")) .base Store.base
        (.ok (.func (.native "apply" .apply))) Store.base := evaluates_symbol rfl
    have hends : (Outcome.finished (.ok (.list [.vector [.int 1, .int 2], .symbol (.unplaced "a")]))
        Store.base).Ends := trivial
    exact ((map_apply_pointwise hlist hitems rfl hplain).2.2.1 hhead (fun _ _ => rfl) _ hends).mpr
      ⟨40, rfl⟩

end Builtin
end LazyLisp
