import LazyLisp.Proofs.Machine.Evaluates
import Mathlib.Data.List.Forall2
import Mathlib.Tactic

/-!
# Hygiene — what calls built as code come to

`map`, `apply` and `try` do not call their function themselves.  They build the call as code, with a
symbol as its head where the program wrote one, and with `quote` around operands that would be
evaluated again, and leave that code to be evaluated in the scope of the caller.  By then the program
may have bound these names to something else, so what the code comes to depends on two things: what
its head comes to, and whether `quote` is still the builtin function.  This file defines:

* `Value.StandsForItself`, the values that are built into a call as they are;
* `Store.Quotes`, that `quote` is the builtin function;
* `Machine.Leaves`, that work comes down to evaluating a form;
* `Machine.Faithful`, the calls that hand given values to what their head comes to;
* `Machine.Hygienic`, the calls that hand given values to a given function at a given time.

Main results: `built_calls_faithful`, that the three functions build faithful calls,
`Machine.Faithful.hygienic`, that such calls are hygienic while the names stand for what they did, and
`exists_not_hygienic`, that a program can take the names away from them.
-/

namespace LazyLisp

/-- The values that are operands as they are. -/
def Value.StandsForItself : Value → Prop
  | .nil | .bool _ | .number _ | .text _ | .key _ | .func _ => True
  | _ => False

/-- In this scope, `quote` is the builtin function. -/
def Store.Quotes (store : Store) (scope : Scope) : Prop :=
  ∃ name, store.get scope "quote" = .ok (.func (.native name .quote))

namespace Machine

variable {host : Host} {me : EvaluationId} {scope : Scope} {store store₁ store₂ : Store}

/-! ## Operands -/

theorem evaluates_quoted {value : Value} (hvalue : ∀ work, value ≠ .suspended work)
    (h : store.Quotes scope) :
    Evaluates host me value.quoted scope store (.ok value) store := by
  obtain ⟨name, hquote⟩ := h
  have hhead : Evaluates host me (.symbol (.unplaced "quote")) scope store
      (.ok (.func (.native name .quote))) store := evaluates_symbol hquote
  have hcall := path_call hhead [value] none []
  have hyield : step host ⟨.run (.done (.ok value)), [.trampoline none], me, store⟩ =
      .next ⟨.run (.done (.ok value)), [], me, store⟩ := by
    cases value with
    | suspended work => exact absurd rfl (hvalue work)
    | _ => rfl
  exact .of_path ((hcall.tail ⟨trivial, rfl⟩).tail ⟨trivial, hyield⟩)

/-- The operand that is built for a value comes to the value, and changes nothing. -/
theorem evaluates_operand {value : Value} (hvalue : ∀ work, value ≠ .suspended work)
    (h : value.StandsForItself ∨ store.Quotes scope) :
    Evaluates host me (Form.operand value) scope store (.ok value) store := by
  have hquoted : ¬value.StandsForItself → store.Quotes scope := fun hnot => h.resolve_left hnot
  cases value with
  | nil | bool b | number n | text s | key key | func func =>
      exact .of_path (.single ⟨trivial, rfl⟩)
  | symbol symbol | list items | vector items | map entries =>
      exact evaluates_quoted hvalue (hquoted id)
  | suspended work => exact absurd rfl (hvalue work)

/-! ## Calls -/

/-- Work that comes down to evaluating a form in its place. -/
def Leaves (host : Host) (me : EvaluationId) (work : Suspension) (store : Store) (form : Value)
    (scope : Scope) (store' : Store) : Prop :=
  ∀ site stack, Path host anyState ⟨.resume work, .trampoline site :: stack, me, store⟩
    ⟨.resume (.form form scope), .trampoline site :: stack, me, store'⟩

/-- A call of whatever function `head` comes to when the call is evaluated.  Its operands come to
just the given values, whenever they are evaluated, and change nothing; except that values which do
not stand for themselves depend on `quote`. -/
def Faithful (host : Host) (me : EvaluationId) (scope : Scope) (call head : Value)
    (values : List Value) : Prop :=
  ∃ operands, call = .list (head :: operands) ∧
    (∀ func store store', Evaluates host me head scope store (.ok (.func func)) store' →
      ∀ site stack, Path host anyState
        ⟨.run (Form.step call scope), .trampoline site :: stack, me, store⟩
        ⟨.resume (.call func head operands scope),
          .trampoline ((func.callSite? head).or site) :: stack, me, store'⟩) ∧
    List.Forall₂ (fun operand value => ∀ store,
      value.StandsForItself ∨ Store.Quotes store scope →
        Evaluates host me operand scope store (.ok value) store) operands values

theorem faithful_call (head : Value) {values : List Value}
    (hvalues : ∀ value ∈ values, ∀ work, value ≠ .suspended work) :
    Faithful host me scope (Form.call head values) head values := by
  refine ⟨values.map Form.operand, rfl, ?_, ?_⟩
  · intro func store store' hhead site stack
    exact path_call hhead _ site stack
  · rw [List.forall₂_map_left_iff, List.forall₂_same]
    intro value hvalue store h
    exact evaluates_operand (hvalues value hvalue) h

/-- A call that hands just the given values to `g`, if it is evaluated at once: its head comes to
`g`, and its operands come to the values. -/
def Hygienic (host : Host) (me : EvaluationId) (scope : Scope) (store : Store) (call : Value)
    (g : Func) (values : List Value) : Prop :=
  ∃ head operands, call = .list (head :: operands) ∧
    Evaluates host me head scope store (.ok (.func g)) store ∧
    List.Forall₂ (fun operand value => Evaluates host me operand scope store (.ok value) store)
      operands values

/-- Faithful calls are hygienic as long as nobody takes their names away. -/
theorem Faithful.hygienic {call head : Value} {values : List Value} {g : Func}
    (h : Faithful host me scope call head values)
    (hhead : Evaluates host me head scope store (.ok (.func g)) store)
    (hvalues : ∀ value ∈ values, value.StandsForItself ∨ store.Quotes scope) :
    Hygienic host me scope store call g values := by
  obtain ⟨operands, hcall, -, hoperands⟩ := h
  refine ⟨head, operands, hcall, hhead, ?_⟩
  refine List.forall₂_iff_get.mpr ⟨hoperands.length_eq, ?_⟩
  intro i hi hi'
  exact hoperands.get hi hi' store (hvalues _ (List.get_mem _ _))

section Builds

variable {name : String} {head first second coll : Value} {items : List Value} {g : Func}
  {failure : Failure}

/-- A call whose script asks for two forms and leaves a third. -/
theorem leaves_of_enter {func : Func} {operands : List Value} {result result' : Result}
    {next next' : Result → Script Value} {form : Value}
    (hfirst : Evaluates host me first scope store result store₁)
    (hsecond : Evaluates host me second scope store₁ result' store₂)
    (henter : func.enter host head operands scope = .eval first scope next)
    (hnext : next result = .eval second scope next')
    (hlast : next' result' = Script.tail form scope) :
    Leaves host me (.call func head operands scope) store form scope store₂ := by
  intro site stack
  have hbefore := path_ask hfirst next (.trampoline site :: stack)
  have hafter := path_ask hsecond next' (.trampoline site :: stack)
  rw [← henter] at hbefore
  rw [← hnext, hlast] at hafter
  exact .head ⟨trivial, rfl⟩ (hbefore.trans (hafter.tail ⟨trivial, rfl⟩))

theorem eq_of_elements? (h : coll.elements? = some items) :
    coll = .list items ∨ coll = .vector items := by
  cases coll <;> cases h
  · exact .inl rfl
  · exact .inr rfl

theorem leaves_map (hfirst : Evaluates host me first scope store (.ok (.func g)) store₁)
    (hsecond : Evaluates host me second scope store₁ (.ok coll) store₂)
    (hitems : coll.elements? = some items) :
    Leaves host me (.call (.native name .map) head [first, second] scope) store
      (.vector (items.map fun item => Form.call (Builtin.callHead first g) [item])) scope store₂ := by
  rcases eq_of_elements? hitems with rfl | rfl <;>
    exact leaves_of_enter hfirst hsecond rfl rfl rfl

theorem leaves_apply (hfirst : Evaluates host me first scope store (.ok (.func g)) store₁)
    (hsecond : Evaluates host me second scope store₁ (.ok coll) store₂)
    (hitems : coll.elements? = some items) :
    Leaves host me (.call (.native name .apply) head [first, second] scope) store
      (Form.call (Builtin.callHead first g) items) scope store₂ := by
  rcases eq_of_elements? hitems with rfl | rfl <;>
    exact leaves_of_enter hfirst hsecond rfl rfl rfl

theorem leaves_recover (hfirst : Evaluates host me first scope store (.error failure) store₁)
    (hsecond : Evaluates host me second scope store₁ (.ok (.func g)) store₂) :
    Leaves host me (.call (.native name .recover) head [first, second] scope) store
      (Form.call (.func g) [.text failure.message]) scope store₂ :=
  leaves_of_enter hfirst hsecond rfl rfl rfl

/-- Once `map` and `apply` have a function and the elements of a collection, and once `try` has a
failure and its handler, they come down to calls that hand on these values faithfully.  The head of
the calls is the function itself, which comes to nothing but itself, except where the program wrote
a symbol for the function of `map` or `apply`. -/
theorem built_calls_faithful :
    (∀ coll items, Evaluates host me first scope store (.ok (.func g)) store₁ →
      Evaluates host me second scope store₁ (.ok coll) store₂ → coll.elements? = some items →
      (∀ item ∈ items, ∀ work, item ≠ .suspended work) →
      (∃ calls, Leaves host me (.call (.native name .map) head [first, second] scope) store
          (.vector calls) scope store₂ ∧
        List.Forall₂ (fun call item =>
          Faithful host me scope call (Builtin.callHead first g) [item]) calls items) ∧
      ∃ call, Leaves host me (.call (.native name .apply) head [first, second] scope) store call
          scope store₂ ∧
        Faithful host me scope call (Builtin.callHead first g) items) ∧
    (∀ failure, Evaluates host me first scope store (.error failure) store₁ →
      Evaluates host me second scope store₁ (.ok (.func g)) store₂ →
      ∃ call, Leaves host me (.call (.native name .recover) head [first, second] scope) store call
          scope store₂ ∧
        Faithful host me scope call (.func g) [.text failure.message]) ∧
    ((∃ symbol, first = .symbol symbol ∧ Builtin.callHead first g = .symbol symbol) ∨
      Builtin.callHead first g = .func g) ∧
    ∀ later, Evaluates host me (.func g) scope later (.ok (.func g)) later := by
  refine ⟨?_, ?_, ?_, fun later => evaluates_func g⟩
  · intro coll items hfirst hsecond hitems hvalues
    refine ⟨⟨_, leaves_map hfirst hsecond hitems, ?_⟩,
      ⟨_, leaves_apply hfirst hsecond hitems, faithful_call _ hvalues⟩⟩
    rw [List.forall₂_map_left_iff, List.forall₂_same]
    intro item hitem
    refine faithful_call _ ?_
    intro value hvalue
    rw [List.mem_singleton.mp hvalue]
    exact hvalues item hitem
  · intro failure hfirst hsecond
    refine ⟨_, leaves_recover hfirst hsecond, faithful_call _ ?_⟩
    intro value hvalue work
    rw [List.mem_singleton.mp hvalue]
    exact Value.noConfusion
  · cases first with
    | symbol symbol => exact .inl ⟨symbol, rfl, rfl⟩
    | _ => exact .inr rfl

end Builds

/-- `(apply list [[1 2]])` and `(try (throw "late") list)`, without further definitions. -/
theorem built_calls_faithful_list :
    (∃ call, Leaves Host.empty mainEvaluation
        (.call (.native "apply" .apply) (.symbol (.unplaced "apply"))
          [.symbol (.unplaced "list"), .vector [.vector [.int 1, .int 2]]] .base)
        Store.base call .base Store.base ∧
      Faithful Host.empty mainEvaluation .base call (.symbol (.unplaced "list"))
        [.vector [.int 1, .int 2]]) ∧
    ∃ call, Leaves Host.empty mainEvaluation
        (.call (.native "try" .recover) (.symbol (.unplaced "try"))
          [.list [.symbol (.unplaced "throw"), .text "late"], .symbol (.unplaced "list")] .base)
        Store.base call .base Store.base ∧
      Faithful Host.empty mainEvaluation .base call (.func (.native "list" .list))
        [.text "late"] := by
  have hlist : Evaluates Host.empty mainEvaluation (.symbol (.unplaced "list")) .base Store.base
      (.ok (.func (.native "list" .list))) Store.base := evaluates_symbol rfl
  have hitems : Evaluates Host.empty mainEvaluation (.vector [.vector [.int 1, .int 2]]) .base
      Store.base (.ok (.vector [.vector [.int 1, .int 2]])) Store.base := ⟨20, rfl⟩
  have hthrow : Evaluates Host.empty mainEvaluation
      (.list [.symbol (.unplaced "throw"), .text "late"]) .base Store.base
      (.error { cause := .thrown "late" }) Store.base := ⟨20, rfl⟩
  have hvalues : ∀ item ∈ [Value.vector [.int 1, .int 2]], ∀ work, item ≠ .suspended work := by
    simp
  exact ⟨(built_calls_faithful.1 _ _ hlist hitems rfl hvalues).2,
    built_calls_faithful.2.1 _ hthrow hlist⟩

/-! ## Names that are taken away -/

/-- After `(defn! quote (x) 42)`, the call that `(apply list [[1 2]])` builds does not hand the
vector to `list`, but 42.  After `(defn! f (x) 1)`, the call that `(map f (do (defn! f (y) 2) [0]))`
builds does not go to the function that `map` found, but to the one defined since. -/
theorem exists_not_hygienic :
    (∃ store call, Evaluates Host.empty mainEvaluation
        (.list [.symbol (.unplaced "defn!"), .symbol (.unplaced "quote"),
          .list [.symbol (.unplaced "x")], .int 42]) .base Store.base
        (.ok (.func (.closure "quote" [.unplaced "x"] (.int 42) .base))) store ∧
      Evaluates Host.empty mainEvaluation (.symbol (.unplaced "list")) .base store
        (.ok (.func (.native "list" .list))) store ∧
      Leaves Host.empty mainEvaluation
        (.call (.native "apply" .apply) (.symbol (.unplaced "apply"))
          [.symbol (.unplaced "list"), .vector [.vector [.int 1, .int 2]]] .base)
        store call .base store ∧
      ¬Hygienic Host.empty mainEvaluation .base store call (.native "list" .list)
        [.vector [.int 1, .int 2]]) ∧
    (∃ store store' call, Evaluates Host.empty mainEvaluation (.symbol (.unplaced "f")) .base store
        (.ok (.func (.closure "f" [.unplaced "x"] (.int 1) .base))) store ∧
      Leaves Host.empty mainEvaluation
        (.call (.native "map" .map) (.symbol (.unplaced "map"))
          [.symbol (.unplaced "f"), .list [.symbol (.unplaced "do"),
            .list [.symbol (.unplaced "defn!"), .symbol (.unplaced "f"),
              .list [.symbol (.unplaced "y")], .int 2],
            .vector [.int 0]]] .base)
        store (.vector [call]) .base store' ∧
      ¬Hygienic Host.empty mainEvaluation .base store' call
        (.closure "f" [.unplaced "x"] (.int 1) .base) [.int 0]) ∧
    (∃ store, Program.run Host.empty 100 "(defn! quote (x) 42) (apply list [[1 2]])" .base Store.base =
      .finished (.ok (.list [.int 42])) store) ∧
    (∃ store, Program.run Host.empty 100 "(defn! f (x) 1) (map f (do (defn! f (y) 2) [0]))" .base
      Store.base = .finished (.ok (.vector [.int 2])) store) := by
  refine ⟨?_, ?_, ?_, ?_⟩
  · let store := Store.base.set .base "quote"
      (.func (.closure "quote" [.unplaced "x"] (.int 42) .base))
    have hlist : Evaluates Host.empty mainEvaluation (.symbol (.unplaced "list")) .base store
        (.ok (.func (.native "list" .list))) store := evaluates_symbol rfl
    have hitems : Evaluates Host.empty mainEvaluation (.vector [.vector [.int 1, .int 2]]) .base
        store (.ok (.vector [.vector [.int 1, .int 2]])) store := ⟨20, rfl⟩
    refine ⟨store, _, ⟨20, rfl⟩, hlist, leaves_apply hlist hitems rfl, ?_⟩
    rintro ⟨head, operands, hcall, -, hoperands⟩
    cases hcall
    rcases hoperands with _ | ⟨hoperand, _⟩
    cases (hoperand.unique ⟨20, rfl⟩).1
  · let store := Store.base.set .base "f" (.func (.closure "f" [.unplaced "x"] (.int 1) .base))
    let store' := store.set .base "f" (.func (.closure "f" [.unplaced "y"] (.int 2) .base))
    have hf : Evaluates Host.empty mainEvaluation (.symbol (.unplaced "f")) .base store
        (.ok (.func (.closure "f" [.unplaced "x"] (.int 1) .base))) store := evaluates_symbol rfl
    have hitems : Evaluates Host.empty mainEvaluation
        (.list [.symbol (.unplaced "do"),
          .list [.symbol (.unplaced "defn!"), .symbol (.unplaced "f"),
            .list [.symbol (.unplaced "y")], .int 2],
          .vector [.int 0]]) .base store (.ok (.vector [.int 0])) store' := ⟨40, rfl⟩
    refine ⟨store, store', _, hf, leaves_map hf hitems rfl, ?_⟩
    rintro ⟨head, operands, hcall, hhead, -⟩
    cases hcall
    have hfunc := (hhead.unique (evaluates_symbol rfl)).1
    simp [Symbol.unplaced] at hfunc
  · have hread : Reader.readAll "(defn! quote (x) 42) (apply list [[1 2]])" = .ok
        [.list [.symbol ⟨"defn!", some ⟨1, 2, 1⟩⟩, .symbol ⟨"quote", some ⟨1, 8, 7⟩⟩,
          .list [.symbol ⟨"x", some ⟨1, 15, 14⟩⟩], .int 42],
        .list [.symbol ⟨"apply", some ⟨1, 23, 22⟩⟩, .symbol ⟨"list", some ⟨1, 29, 28⟩⟩,
          .vector [.vector [.int 1, .int 2]]]] := by cbv
    rw [Program.run, Program.evaluate, hread]
    exact ⟨_, rfl⟩
  · have hread : Reader.readAll "(defn! f (x) 1) (map f (do (defn! f (y) 2) [0]))" = .ok
        [.list [.symbol ⟨"defn!", some ⟨1, 2, 1⟩⟩, .symbol ⟨"f", some ⟨1, 8, 7⟩⟩,
          .list [.symbol ⟨"x", some ⟨1, 11, 10⟩⟩], .int 1],
        .list [.symbol ⟨"map", some ⟨1, 18, 17⟩⟩, .symbol ⟨"f", some ⟨1, 22, 21⟩⟩,
          .list [.symbol ⟨"do", some ⟨1, 25, 24⟩⟩,
            .list [.symbol ⟨"defn!", some ⟨1, 29, 28⟩⟩, .symbol ⟨"f", some ⟨1, 35, 34⟩⟩,
              .list [.symbol ⟨"y", some ⟨1, 38, 37⟩⟩], .int 2],
            .vector [.int 0]]]] := by cbv
    rw [Program.run, Program.evaluate, hread]
    exact ⟨_, rfl⟩

end Machine
end LazyLisp
