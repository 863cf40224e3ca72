import LazyLisp.Proofs.Alike.Builtin
import LazyLisp.Proofs.Alike.Store
import LazyLisp.Proofs.Machine.Evaluates

/-!
# Malformed — calls that fail before they do anything

A function is given its call as it was written.  It checks the number of operands, and the places where
a name or a list of names has to stand, before it has any operand evaluated.  This file defines:

* `Operation.arity?` and `Func.arity?`, the operand counts that functions declare;
* `Fault`, the other ways in which a call that binds names can be malformed, each with the cause of the
  failure;
* `Store.Spared`, that nothing in a store has changed;
* `Machine.Refused`, that a call fails before anything is done.

Main result: `malformed_refused`, that malformed calls are refused.
-/

namespace LazyLisp

/-! ## Operand counts -/

/-- The operand counts that an operation declares.  Operations without any take all counts, and those
of the host program check theirs themselves. -/
def Operation.arity? : Operation → Option Arity
  | .raise | .undefine | .test _ | .kindOf | .count | .isEmpty | .quote | .evaluate | .read | .async
  | .wait => some (.exactly 1)
  | .bindLocals | .recover | .define | .lambda | .compare _ | .get | .map | .apply =>
      some (.exactly 2)
  | .defineFunction | .quotient | .remainder => some (.exactly 3)
  | .choose => some (.between 2 3)
  | .equal => some (.atLeast 2)
  | .inOrder | .conjoin | .disjoin | .add | .subtract | .multiply | .divide | .list | .print
  | .host _ => none

/-- The operand counts that a function declares.  One made by a program takes one for each parameter. -/
def Func.arity? : Func → Option Arity
  | .native _ operation => operation.arity?
  | .closure _ params _ _ => some (.exactly params.length)

/-! ## Names and lists of names -/

/-- In a call with these operands, `params` stands where the parameters of a new function are listed. -/
inductive ListsParams : Operation → List Value → Value → Prop where
  | lambda (params body : Value) : ListsParams .lambda [params, body] params
  | defineFunction (name params body : Value) :
      ListsParams .defineFunction [name, params, body] params

/-- In a call with these operands, `name` stands where a name is given. -/
inductive GivesName : Operation → List Value → Value → Prop where
  | define (name form : Value) : GivesName .define [name, form] name
  | undefine (name : Value) : GivesName .undefine [name] name
  | defineFunction (name params body : Value) : GivesName .defineFunction [name, params, body] name

/-- Whether a value is a name. -/
def Value.IsSymbol (value : Value) : Prop :=
  ∃ symbol, value = .symbol symbol

/-- A call of `func` with these operands is malformed, although there are as many as there should be,
and may fail with this cause.  The names of local bindings are at the even places of their list. -/
inductive Fault : Func → List Value → Cause → Prop where
  | notPairs {name : String} {bindings body : Value} : bindings.elements? = none →
      Fault (.native name .bindLocals) [bindings, body]
        (.typeMismatch name "List or Vector" bindings.kindName)
  | oddPairs {name : String} {bindings body : Value} {items : List Value} :
      bindings.elements? = some items → items.length % 2 = 1 →
        Fault (.native name .bindLocals) [bindings, body]
          (.invalidArgument name "binding missing a value")
  | pairName {name : String} {bindings body item : Value} {items : List Value} {i : Nat} :
      bindings.elements? = some items → items.length % 2 = 0 → items[2 * i]? = some item →
        ¬item.IsSymbol →
          Fault (.native name .bindLocals) [bindings, body] (.typeMismatch name "Symbol" item.kindName)
  | name {name : String} {operation : Operation} {operands : List Value} {item : Value} :
      GivesName operation operands item → ¬item.IsSymbol →
        Fault (.native name operation) operands (.typeMismatch name "Symbol" item.kindName)
  | notParams {name : String} {operation : Operation} {operands : List Value} {params : Value} :
      ListsParams operation operands params → params.elements? = none →
        Fault (.native name operation) operands
          (.typeMismatch name "parameter list" params.kindName)
  | param {name : String} {operation : Operation} {operands items : List Value}
      {params item : Value} :
      ListsParams operation operands params → params.elements? = some items → item ∈ items →
        ¬item.IsSymbol →
          Fault (.native name operation) operands
            (.typeMismatch name "Symbol parameter" item.kindName)

theorem Fault.cause_eq {func : Func} {operands : List Value} {cause : Cause}
    (h : Fault func operands cause) :
    (∃ expected got, cause = .typeMismatch func.name expected got) ∨
      ∃ reason, cause = .invalidArgument func.name reason := by
  cases h with
  | oddPairs => exact .inr ⟨_, rfl⟩
  | notPairs | pairName | name | notParams | param => exact .inl ⟨_, _, rfl⟩

/-! ## Stores in which nothing has changed -/

/-- Every frame and every cell is as it was, though there may be more of them.  Nothing was printed,
no worker was started, and the world of the host program is the same. -/
structure Store.Spared (store later : Store) : Prop extends store.Keeps later where
  output : later.output = store.output
  workers : later.workers = store.workers
  world : later.world = store.world

namespace Store.Spared

variable {store later : Store}

theorem refl (store : Store) : store.Spared store :=
  ⟨.refl store, rfl, rfl, rfl⟩

theorem child (store : Store) (outer : Scope) : store.Spared (store.child outer).2 :=
  ⟨keeps_child store outer, rfl, rfl, rfl⟩

theorem setLazy (h : store.Spared later) {scope : Scope} (hnew : store.frames.size ≤ scope.frame)
    (name : String) (work : Suspension) : store.Spared (later.setLazy scope name work).2 :=
  ⟨h.toKeeps.setLazy hnew name work, h.output, h.workers, h.world⟩

end Store.Spared

/-! ## Scripts that fail at once -/

section Scripts

variable {host : Host} {name : String} {operands : List Value} {arity : Arity}

/-- Operations that declare how many operands they take check that first. -/
theorem perform_of_count {operation : Operation} {call : Call} (harity : operation.arity? = some arity)
    (hcount : arity.accepts call.operands.length = false) :
    operation.perform host call =
      .done (.error { cause := .arityMismatch call.name arity call.operands.length }) := by
  rcases call with ⟨name, head, operands, scope⟩
  cases operation with
  | raise | undefine | test | kindOf | count | isEmpty | quote | evaluate | read | wait =>
      cases harity
      rcases operands with _ | ⟨first, _ | ⟨second, rest⟩⟩
      · rfl
      · cases hcount
      · rfl
  | async =>
      cases harity
      rcases operands with _ | ⟨first, _ | ⟨second, rest⟩⟩
      · rfl
      · cases hcount
      · cases first <;> rfl
  | bindLocals | recover | define | lambda | compare | get | map | apply =>
      cases harity
      rcases operands with _ | ⟨first, _ | ⟨second, _ | ⟨third, rest⟩⟩⟩
      · rfl
      · rfl
      · cases hcount
      · rfl
  | defineFunction | quotient | remainder =>
      cases harity
      rcases operands with _ | ⟨first, _ | ⟨second, _ | ⟨third, _ | ⟨fourth, rest⟩⟩⟩⟩
      · rfl
      · rfl
      · rfl
      · cases hcount
      · rfl
  | choose =>
      cases harity
      rcases operands with _ | ⟨first, _ | ⟨second, _ | ⟨third, _ | ⟨fourth, rest⟩⟩⟩⟩
      · rfl
      · rfl
      · cases hcount
      · cases hcount
      · rfl
  | equal =>
      cases harity
      rcases operands with _ | ⟨first, _ | ⟨second, rest⟩⟩
      · rfl
      · rfl
      · simp [Arity.accepts] at hcount
  | inOrder | conjoin | disjoin | add | subtract | multiply | divide | list | print | host =>
      cases harity

theorem enter_of_count {func : Func} (harity : func.arity? = some arity)
    (hcount : arity.accepts operands.length = false) (head : Value) (scope : Scope) :
    func.enter host head operands scope =
      .done (.error { cause := .arityMismatch func.name arity operands.length }) := by
  cases func with
  | native name operation =>
      have hcall : arity.accepts (Call.mk name head operands scope).operands.length = false := hcount
      exact perform_of_count harity hcall
  | closure name params body inner =>
      cases harity
      have hne : operands.length ≠ params.length := by simpa [Arity.accepts] using hcount
      exact if_neg hne

variable (call : Call)

theorem symbol_of_not {item : Value} (h : ¬item.IsSymbol) :
    call.symbol item = .done (.error { cause := .typeMismatch call.name "Symbol" item.kindName }) := by
  cases item with
  | symbol symbol => exact absurd ⟨symbol, rfl⟩ h
  | _ => rfl

/-- The first parameter that is no symbol is reported. -/
theorem parameters_of_mem {items : List Value} {item : Value} (hmem : item ∈ items)
    (hitem : ¬item.IsSymbol) :
    ∃ bad ∈ items, ¬bad.IsSymbol ∧ items.mapM (Builtin.parameter call) =
      .done (.error { cause := .typeMismatch call.name "Symbol parameter" bad.kindName }) := by
  induction items with
  | nil => cases hmem
  | cons first rest ih =>
      rw [List.mapM_cons]
      by_cases hfirst : first.IsSymbol
      · obtain ⟨symbol, rfl⟩ := hfirst
        have hrest : item ∈ rest := by
          rcases List.mem_cons.mp hmem with rfl | hrest
          · exact absurd ⟨symbol, rfl⟩ hitem
          · exact hrest
        obtain ⟨bad, hbad, hsymbol, hscript⟩ := ih hrest
        refine ⟨bad, List.mem_cons_of_mem _ hbad, hsymbol, ?_⟩
        rw [hscript]
        rfl
      · refine ⟨first, List.mem_cons_self, hfirst, ?_⟩
        cases first with
        | symbol symbol => exact absurd ⟨symbol, rfl⟩ hfirst
        | _ => rfl

/-- A list of parameters with a fault in it makes no function. -/
theorem makeClosure_of_fault {operation : Operation} {params : Value}
    (hlists : ListsParams operation operands params)
    (h : params.elements? = none ∨
      ∃ items item, params.elements? = some items ∧ item ∈ items ∧ ¬item.IsSymbol) :
    ∃ cause, Fault (.native call.name operation) operands cause ∧
      ∀ name body, Builtin.makeClosure call name params body = .done (.error { cause }) := by
  rcases h with hnone | ⟨items, item, hitems, hmem, hitem⟩
  · refine ⟨_, .notParams hlists hnone, fun name body => ?_⟩
    rw [Builtin.makeClosure, hnone]
    rfl
  · obtain ⟨bad, hbad, hsymbol, hscript⟩ := parameters_of_mem call hmem hitem
    refine ⟨_, .param hlists hitems hbad hsymbol, fun name body => ?_⟩
    simp only [Builtin.makeClosure, hitems, hscript]
    rfl

variable {operation : Operation} {params : Value} (head : Value) (scope : Scope)

/-- Where a name is given, it is looked at first. -/
theorem perform_of_name {item : Value} (hgives : GivesName operation operands item)
    (hitem : ¬item.IsSymbol) :
    operation.perform host ⟨name, head, operands, scope⟩ =
      .done (.error { cause := .typeMismatch name "Symbol" item.kindName }) := by
  cases hgives with
  | define | undefine | defineFunction =>
      simp only [Operation.perform, Builtin.define, Builtin.undefine, Builtin.defineFunction,
        symbol_of_not _ hitem]
      rfl

/-- A new function needs a list of parameters, behind its name if it has one. -/
theorem perform_of_params (hlists : ListsParams operation operands params)
    (h : params.elements? = none ∨
      ∃ items item, params.elements? = some items ∧ item ∈ items ∧ ¬item.IsSymbol) :
    ∃ cause, Fault (.native name operation) operands cause ∧
      operation.perform host ⟨name, head, operands, scope⟩ = .done (.error { cause }) := by
  obtain ⟨cause, hfault, hclosure⟩ := makeClosure_of_fault ⟨name, head, operands, scope⟩ hlists h
  cases hlists with
  | lambda params body =>
      refine ⟨cause, hfault, ?_⟩
      simp only [Operation.perform, Builtin.lambda, hclosure]
      rfl
  | defineFunction item params body =>
      -- The name is looked at before the parameters, and is reported if it is at fault too.
      by_cases hitem : item.IsSymbol
      · obtain ⟨symbol, rfl⟩ := hitem
        refine ⟨cause, hfault, ?_⟩
        simp only [Operation.perform, Builtin.defineFunction, Call.symbol, hclosure]
        rfl
      · have hgives : GivesName .defineFunction [item, params, body] item := .defineFunction _ _ _
        exact ⟨_, .name hgives hitem, perform_of_name head scope hgives hitem⟩

end Scripts

/-! ## Local bindings -/

namespace Machine

variable {host : Host} {me : EvaluationId} {before store : Store}

/-- In the middle of a call, no form is being evaluated, and nothing has changed since its head was. -/
structure Untouched (before : Store) (work : Suspension) (stack : List Pending) (state : State) :
    Prop where
  spared : before.Spared state.store
  waits : ∃ site, state.stack = .trampoline site :: stack
  idle : state.control = .resume work ∨ ∃ script, state.control = .run script ∧
    ∀ form scope next, script ≠ .eval form scope next

/-- Names are bound in a new frame up to the first item at an even place that is no symbol. -/
theorem path_bindPairs (call : Call) {inner : Scope} {items : List Value}
    (heven : items.length % 2 = 0) {i : Nat} {item : Value} (hitem : items[2 * i]? = some item)
    (hsymbol : ¬item.IsSymbol) (hspared : before.Spared store)
    (hnew : before.frames.size ≤ inner.frame) (next : Unit → Script Value) (work : Suspension) :
    ∃ (j : Nat) (bad : Value) (after : Store), items[2 * j]? = some bad ∧ ¬bad.IsSymbol ∧
      before.Spared after ∧ ∀ site stack, Path host (Untouched before work stack)
        ⟨.run ((Builtin.bindPairs call inner items).bind next), .trampoline site :: stack, me, store⟩
        ⟨.run (.done (.error { cause := .typeMismatch call.name "Symbol" bad.kindName })),
          .trampoline site :: stack, me, after⟩ := by
  -- Along the pairs: each symbol in front binds its form in the new frame, which spares the old ones.
  fun_induction Builtin.bindPairs call inner items generalizing store i with
  | case1 name form rest ih =>
      by_cases hname : name.IsSymbol
      · obtain ⟨symbol, rfl⟩ := hname
        -- The faulty item is behind the first pair then.
        cases i with
        | zero =>
            cases hitem
            exact absurd ⟨symbol, rfl⟩ hsymbol
        | succ i =>
            have hrest : rest.length % 2 = 0 := by
              rw [List.length_cons, List.length_cons] at heven
              omega
            have hspared' := hspared.setLazy hnew symbol.name (.form form inner)
            obtain ⟨j, bad, after, hbad, hbadSymbol, hafter, hpath⟩ := ih hrest hitem hspared'
            refine ⟨j + 1, bad, after, hbad, hbadSymbol, hafter, fun site stack => ?_⟩
            have hguard : Untouched before work stack
                ⟨.run ((do
                  let symbol ← call.symbol (.symbol symbol)
                  let _ ← Script.bindLazy inner symbol.name (.form form inner)
                  Builtin.bindPairs call inner rest : Script Unit).bind next),
                  .trampoline site :: stack, me, store⟩ :=
              ⟨hspared, ⟨site, rfl⟩, .inr ⟨_, rfl, fun _ _ _ heq => by cases heq⟩⟩
            exact .head ⟨hguard, rfl⟩ (hpath site stack)
      · refine ⟨0, name, store, rfl, hname, hspared, fun site stack => ?_⟩
        rw [symbol_of_not call hname]
        exact .refl
  | case2 items hshape =>
      -- An even number of items without a first pair: there are none.
      rcases items with _ | ⟨name, _ | ⟨form, rest⟩⟩
      · cases hitem
      · cases heven
      · exact absurd rfl (hshape name form rest)

/-! ## Refused calls -/

/-- The call fails with this cause, once its head has come to the function and before anything else is
done: from there on, no form is evaluated, nothing is printed, and the frames and cells that there were
stay as they are.  New frames and cells are left behind at most. -/
structure Refused (host : Host) (me : EvaluationId) (scope : Scope) (store before : Store)
    (head : Value) (func : Func) (operands : List Value) (cause : Cause) (after : Store) : Prop where
  called : ∀ site stack, Path host anyState
    ⟨.run (Form.step (.list (head :: operands)) scope), .trampoline site :: stack, me, store⟩
    ⟨.run (.done (.ok (.suspended (.call func head operands scope)))), .trampoline site :: stack, me,
      before⟩
  untouched : ∀ site stack, Path host (Untouched before (.call func head operands scope) stack)
    ⟨.run (.done (.ok (.suspended (.call func head operands scope)))), .trampoline site :: stack, me,
      before⟩
    ⟨.run (.done (.error { cause })), .trampoline ((func.callSite? head).or site) :: stack, me, after⟩
  spared : before.Spared after
  evaluates : Evaluates host me (.list (head :: operands)) scope store
    (.error (Failure.throughAny { cause } (func.callSite? head))) after

variable {scope : Scope} {head : Value} {func : Func} {operands : List Value} {cause : Cause}
  {after : Store}

/-- A call is refused if the script of its function fails before anything is done. -/
theorem refused_of_path (hhead : Evaluates host me head scope store (.ok (.func func)) before)
    (hspared : before.Spared after)
    (hscript : ∀ site stack, Path host (Untouched before (.call func head operands scope) stack)
      ⟨.run (func.enter host head operands scope), .trampoline site :: stack, me, before⟩
      ⟨.run (.done (.error { cause })), .trampoline site :: stack, me, after⟩) :
    Refused host me scope store before head func operands cause after := by
  have hcall : ∀ site stack, Path host anyState
      ⟨.run (Form.step (.list (head :: operands)) scope), .trampoline site :: stack, me, store⟩
      ⟨.run (.done (.ok (.suspended (.call func head operands scope)))), .trampoline site :: stack, me,
        before⟩ := fun site stack => path_ask hhead _ (.trampoline site :: stack)
  have huntouched : ∀ site stack, Path host (Untouched before (.call func head operands scope) stack)
      ⟨.run (.done (.ok (.suspended (.call func head operands scope)))), .trampoline site :: stack, me,
        before⟩
      ⟨.run (.done (.error { cause })), .trampoline ((func.callSite? head).or site) :: stack, me,
        after⟩ := by
    intro site stack
    refine .head ⟨⟨.refl before, ⟨site, rfl⟩, .inr ⟨_, rfl, fun _ _ _ heq => by cases heq⟩⟩, rfl⟩ ?_
    exact .head ⟨⟨.refl before, ⟨_, rfl⟩, .inl rfl⟩, rfl⟩ (hscript _ stack)
  refine ⟨hcall, huntouched, hspared, ?_⟩
  have hleads : ∀ state next, Leads host (Untouched before (.call func head operands scope) []) state
      next → Leads host anyState state next := fun _ _ h => ⟨trivial, h.2⟩
  have hfails := Relation.ReflTransGen.mono hleads _ _ (huntouched none [])
  rw [Option.or_none] at hfails
  exact .of_path (((hcall none []).trans hfails).tail ⟨trivial, rfl⟩)

/-- A script that fails at once. -/
theorem refused_of_enter (hhead : Evaluates host me head scope store (.ok (.func func)) before)
    (henter : func.enter host head operands scope = .done (.error { cause })) :
    Refused host me scope store before head func operands cause before := by
  refine refused_of_path hhead (.refl before) fun site stack => ?_
  rw [henter]

/-- Local names are refused at the first one that is no symbol, in a new frame with those before it. -/
theorem exists_refused_of_pairName {name : String} {bindings body item : Value} {items : List Value}
    {i : Nat}
    (hhead : Evaluates host me head scope store (.ok (.func (.native name .bindLocals))) before)
    (hitems : bindings.elements? = some items) (heven : items.length % 2 = 0)
    (hitem : items[2 * i]? = some item) (hsymbol : ¬item.IsSymbol) :
    ∃ actual after, Fault (.native name .bindLocals) [bindings, body] actual ∧
      Refused host me scope store before head (.native name .bindLocals) [bindings, body] actual
        after := by
  let call : Call := ⟨name, head, [bindings, body], scope⟩
  have hnew : before.frames.size ≤ (before.child scope).1.frame := Nat.le_refl _
  obtain ⟨j, bad, after, hbad, hbadSymbol, hspared, hpath⟩ :=
    path_bindPairs call heven hitem hsymbol (.child before scope) hnew
      (fun _ => Script.tail body (before.child scope).1)
      (.call (.native name .bindLocals) head [bindings, body] scope)
  refine ⟨_, after, .pairName hitems heven hbad hbadSymbol,
    refused_of_path hhead hspared fun site stack => ?_⟩
  have hodd : ¬items.length % 2 = 1 := by omega
  have henter : Func.enter host (.native name .bindLocals) head [bindings, body] scope =
      .ask (.openScope scope) fun inner =>
        (Builtin.bindPairs call inner items).bind fun _ => Script.tail body inner := by
    simp only [Func.enter, Operation.perform, Builtin.bindLocals, Call.elements, hitems]
    exact if_neg hodd
  have hidle : ∀ form inner next, Script.ask (.openScope scope) (fun inner =>
      (Builtin.bindPairs call inner items).bind fun _ => Script.tail body inner) ≠
        .eval form inner next := by
    intro form inner next heq
    cases heq
  rw [henter]
  exact .head ⟨⟨.refl before, ⟨site, rfl⟩, .inr ⟨_, rfl, hidle⟩⟩, rfl⟩ (hpath site stack)

theorem exists_refused_of_fault (hhead : Evaluates host me head scope store (.ok (.func func)) before)
    (h : Fault func operands cause) :
    ∃ actual after, Fault func operands actual ∧
      Refused host me scope store before head func operands actual after := by
  cases h with
  | @notPairs name bindings body hnone =>
      refine ⟨_, before, .notPairs hnone, refused_of_enter hhead ?_⟩
      simp only [Func.enter, Operation.perform, Builtin.bindLocals, Call.elements, hnone]
      rfl
  | @oddPairs name bindings body items hitems hodd =>
      refine ⟨_, before, .oddPairs hitems hodd, refused_of_enter hhead ?_⟩
      simp only [Func.enter, Operation.perform, Builtin.bindLocals, Call.elements, hitems]
      exact if_pos hodd
  | pairName hitems heven hitem hsymbol =>
      exact exists_refused_of_pairName hhead hitems heven hitem hsymbol
  | name hgives hitem =>
      refine ⟨_, before, .name hgives hitem, refused_of_enter hhead ?_⟩
      exact perform_of_name head scope hgives hitem
  | notParams hlists hnone =>
      obtain ⟨actual, hfault, hperform⟩ := perform_of_params head scope hlists (.inl hnone)
      exact ⟨actual, before, hfault, refused_of_enter hhead hperform⟩
  | param hlists hitems hmem hitem =>
      obtain ⟨actual, hfault, hperform⟩ :=
        perform_of_params head scope hlists (.inr ⟨_, _, hitems, hmem, hitem⟩)
      exact ⟨actual, before, hfault, refused_of_enter hhead hperform⟩

/-- Malformed calls fail before they do anything, whatever the operands are.

Where the head of a form comes to a function that declares how many operands it takes, and there are not
as many, the call is refused with the name of the function and the number of operands there are, and the
store stays as the head left it.  A call that has another fault is refused because of one of its faults,
which is that something has the wrong type or is an invalid argument. -/
theorem malformed_refused (host : Host) (me : EvaluationId) (scope : Scope) (store before : Store)
    (head : Value) (func : Func) (operands : List Value)
    (hhead : Evaluates host me head scope store (.ok (.func func)) before) :
    (∀ arity, func.arity? = some arity → arity.accepts operands.length = false →
      Refused host me scope store before head func operands
        (.arityMismatch func.name arity operands.length) before) ∧
    ∀ cause, Fault func operands cause →
      ∃ actual after, Fault func operands actual ∧
        ((∃ expected got, actual = .typeMismatch func.name expected got) ∨
          ∃ reason, actual = .invalidArgument func.name reason) ∧
        Refused host me scope store before head func operands actual after := by
  constructor
  · intro arity harity hcount
    exact refused_of_enter hhead (enter_of_count harity hcount head scope)
  · intro cause hfault
    obtain ⟨actual, after, hactual, hrefused⟩ := exists_refused_of_fault hhead hfault
    exact ⟨actual, after, hactual, hactual.cause_eq, hrefused⟩

/-- An operand that would print, and a text in the place of the second local name. -/
theorem malformed_refused_text :
    let symbol (name : String) : Value := .symbol (.unplaced name)
    let printing : List Value := [.list [symbol "prn", .text "x"]]
    let items : List Value := [symbol "a", .int 1, .text "b", .int 2]
    let binding : List Value := [.vector items, symbol "a"]
    Refused .empty mainEvaluation .base .base .base (symbol "if") (.native "if" .choose) printing
        (.arityMismatch "if" (.between 2 3) 1) .base ∧
      ∃ actual after, Fault (.native "let" .bindLocals) binding actual ∧
        ((∃ expected got, actual = .typeMismatch "let" expected got) ∨
          ∃ reason, actual = .invalidArgument "let" reason) ∧
        Refused .empty mainEvaluation .base .base .base (symbol "let") (.native "let" .bindLocals)
          binding actual after := by
  intro symbol printing items binding
  have hif : Evaluates .empty mainEvaluation (symbol "if") .base .base
      (.ok (.func (.native "if" .choose))) .base := evaluates_symbol rfl
  have hlet : Evaluates .empty mainEvaluation (symbol "let") .base .base
      (.ok (.func (.native "let" .bindLocals))) .base := evaluates_symbol rfl
  have htext : ¬(Value.text "b").IsSymbol := by
    rintro ⟨symbol, heq⟩
    cases heq
  have hitems : (Value.vector items).elements? = some items := rfl
  have hfault : Fault (.native "let" .bindLocals) binding (.typeMismatch "let" "Symbol" "String") :=
    .pairName (i := 1) hitems (by simp [items]) rfl htext
  exact ⟨(malformed_refused _ _ _ _ _ _ _ printing hif).1 _ rfl rfl,
    (malformed_refused _ _ _ _ _ _ _ binding hlet).2 _ hfault⟩

end Machine
end LazyLisp
