import LazyLisp.Proofs.Lockstep.Machine

/-!
# Value — data without suspended work

Suspended work is a value like any other to the evaluator, and it may stand in the place of a result
for as long as somebody is there to resume it.  It must not get into data: into the elements of
lists, vectors and maps, or into the bodies of functions, where nobody would resume it.  Values
without suspended work are *ready*.  This file defines:

* `Value.Ready` and its companions for functions, suspended work and results;
* `Script.Ready`, the scripts that keep to ready values as long as they are given ready answers, and
  `Host.Ready`;
* `Likeness.ready`, under which ready values, and no others, are alike themselves.

Main results: `Value.alike_ready_iff`, `Result.alike_ready_iff` and `Script.InStep.ready`, which make
facts about alike evaluations facts about ready values.
-/

namespace LazyLisp

/-! ## Ready values -/

mutual

/-- There is no suspended work in the value, at any depth. -/
def Value.Ready : Value → Prop
  | .list items => Value.AllReady items
  | .vector items => Value.AllReady items
  | .map entries => Entries.Ready entries
  | .func func => func.Ready
  | .suspended _ => False
  | .nil | .bool _ | .number _ | .text _ | .symbol _ | .key _ => True

def Value.AllReady : List Value → Prop
  | [] => True
  | item :: rest => item.Ready ∧ Value.AllReady rest

def Entries.Ready : List (Key × Value) → Prop
  | [] => True
  | (_, value) :: rest => value.Ready ∧ Entries.Ready rest

/-- There is no suspended work in the body of the function. -/
def Func.Ready : Func → Prop
  | .native _ _ => True
  | .closure _ _ body _ => body.Ready

end

theorem Value.allReady_iff {items : List Value} :
    Value.AllReady items ↔ ∀ item ∈ items, item.Ready := by
  induction items with
  | nil => simp [Value.AllReady]
  | cons item rest ih => simp [Value.AllReady, ih]

/-- The work deals with ready values only. -/
def Suspension.Ready : Suspension → Prop
  | .form code _ => code.Ready
  | .call func head operands _ => func.Ready ∧ head.Ready ∧ Value.AllReady operands
  | .binding _ => True
  | .given _ (.ok value) => value.Ready
  | .given _ (.error _) => True

/-- Failures, and ready values. -/
def Result.Ready : Result → Prop
  | .ok value => value.Ready
  | .error _ => True

/-- What a step may leave: a failure, a ready value, or suspended work that deals with such. -/
def Result.StepReady : Result → Prop
  | .ok (.suspended work) => work.Ready
  | result => result.Ready

/-! ## Ready scripts -/

/-- The values in the request are ready. -/
def Request.Ready : Request → Prop
  | .bind _ _ value => value.Ready
  | .bindLazy _ _ work => work.Ready
  | _ => True

/-- Only lookups are answered with values. -/
def Request.AnswerReady : (request : Request) → request.Answer → Prop
  | .lookup _ _, answer => Result.StepReady answer
  | _, _ => True

/-- The script binds, evaluates and returns ready values only, as long as it is given ready ones. -/
inductive Script.Ready : Script Value → Prop where
  | done {result : Result} : result.StepReady → Script.Ready (.done result)
  | ask {request : Request} {next : request.Answer → Script Value} :
      request.Ready → (∀ answer, request.AnswerReady answer → Script.Ready (next answer)) →
        Script.Ready (.ask request next)
  | eval {form : Value} {scope : Scope} {next : Result → Script Value} :
      form.Ready → (∀ result : Result, result.Ready → Script.Ready (next result)) →
        Script.Ready (.eval form scope next)

/-- Called by ready forms, the functions of the host program carry out ready scripts. -/
def Host.Ready (host : Host) : Prop :=
  ∀ name (call : Call), call.head.Ready → (∀ operand ∈ call.operands, operand.Ready) →
    (host.perform name call).Ready

/-! ## Ready values are alike themselves -/

/-- Nothing may differ, and no suspended work may stand in data. -/
def Likeness.ready : Likeness where
  places := Eq
  traces := Eq
  thunks := False
  operations _ := True
  places_equivalence := Likeness.equal_places
  traces_equivalence := eq_equivalence

theorem Likeness.ready_tracesGrow : Likeness.ready.TracesGrow := by
  intro trace trace' site site' htrace hsite
  have hplaces : Likeness.ready.places = Eq := rfl
  cases CallSite.eq_of_alike hplaces (.some hsite)
  cases htrace
  rfl

mutual

theorem Value.Ready.alike : {value : Value} → value.Ready → value.Alike .ready .same value
  | .nil, _ => .nil
  | .bool b, _ => .bool b
  | .number n, _ => .number n
  | .text s, _ => .text s
  | .symbol symbol, _ => .symbol symbol.alike_self
  | .key key, _ => .key key
  | .list _, h => .list (Value.AllReady.alike h)
  | .vector _, h => .vector (Value.AllReady.alike h)
  | .map _, h => .map (Entries.Ready.alike h)
  | .func _, h => .func (Func.Ready.alike h)
  | .suspended _, h => h.elim

theorem Value.AllReady.alike :
    {items : List Value} → Value.AllReady items → Value.AllAlike .ready .same items items
  | [], _ => .nil
  | _ :: _, h => .cons (Value.Ready.alike h.1) (Value.AllReady.alike h.2)

theorem Entries.Ready.alike :
    {entries : List (Key × Value)} → Entries.Ready entries →
      Entries.Alike .ready .same entries entries
  | [], _ => .nil
  | (_, _) :: _, h => .cons (Value.Ready.alike h.1) (Entries.Ready.alike h.2)

theorem Func.Ready.alike : {func : Func} → func.Ready → func.Alike .ready .same func
  | .native _ _, _ => .native trivial
  | .closure _ _ _ scope, h =>
      .closure (List.forall₂_same.mpr fun symbol _ => symbol.alike_self) (Value.Ready.alike h)
        (Scope.alike_same scope)

end

mutual

theorem Value.Alike.ready {value value' : Value} : value.Alike .ready .same value' → value.Ready
  | .nil | .bool _ | .number _ | .text _ | .symbol _ | .key _ => trivial
  | .list h => h.ready
  | .vector h => h.ready
  | .map h => h.ready
  | .func h => h.ready
  | .suspended hthunks _ => hthunks

theorem Value.AllAlike.ready {items items' : List Value} :
    Value.AllAlike .ready .same items items' → Value.AllReady items
  | .nil => trivial
  | .cons hvalue hrest => ⟨hvalue.ready, hrest.ready⟩

theorem Entries.Alike.ready {entries entries' : List (Key × Value)} :
    Entries.Alike .ready .same entries entries' → Entries.Ready entries
  | .nil => trivial
  | .cons hvalue hrest => ⟨hvalue.ready, hrest.ready⟩

theorem Func.Alike.ready {func func' : Func} : func.Alike .ready .same func' → func.Ready
  | .native _ => trivial
  | .closure _ hbody _ => hbody.ready

end

theorem Value.alike_ready_iff {value : Value} : value.Alike .ready .same value ↔ value.Ready :=
  ⟨Value.Alike.ready, Value.Ready.alike⟩

theorem Suspension.alike_ready_iff {work : Suspension} :
    work.Alike .ready .same work ↔ work.Ready := by
  constructor
  · intro h
    cases h with
    | form hform _ => exact hform.ready
    | call hfunc hhead hoperands _ => exact ⟨hfunc.ready, hhead.ready, hoperands.ready⟩
    | binding _ => trivial
    | givenValue _ hvalue => exact hvalue.ready
    | givenFailure _ => trivial
  · intro h
    rcases work with ⟨form, scope⟩ | ⟨func, head, operands, scope⟩ | cell | ⟨site, failure | value⟩
    · exact .form h.alike (Scope.alike_same scope)
    · exact .call h.1.alike h.2.1.alike h.2.2.alike (Scope.alike_same scope)
    · exact .binding rfl
    · exact .givenFailure (CallSite.alike_self site)
    · exact .givenValue (CallSite.alike_self site) (Value.Ready.alike h)

theorem Result.alike_ready_iff {result : Result} :
    Result.Alike .ready .same result result ↔ result.Ready := by
  cases result with
  | error failure => exact ⟨fun _ => trivial, fun _ => .error (Failure.alike_refl failure)⟩
  | ok value =>
      constructor
      · intro h
        cases h with
        | ok hvalue => exact hvalue.ready
      · intro h
        exact .ok (Value.Ready.alike h)

theorem Result.stepAlike_ready_iff {result : Result} :
    Except.Alike .ready (Value.StepAlike .ready .same) result result ↔ result.StepReady := by
  constructor
  · intro h
    cases h with
    | error _ => trivial
    | ok hvalue =>
        cases hvalue with
        | suspended hwork => exact Suspension.alike_ready_iff.mp hwork
        | value hvalue =>
            have hready := hvalue.ready
            cases hvalue with
            | suspended hthunks _ => exact hthunks.elim
            | _ => exact hready
  · intro h
    rcases result with failure | value
    · exact .error (Failure.alike_refl failure)
    · cases value with
      | suspended work => exact .ok (.suspended (Suspension.alike_ready_iff.mpr h))
      | _ => exact .ok (.value (Value.Ready.alike h))

/-! ## Ready scripts go like themselves -/

theorem Request.alike_ready_iff {request : Request} :
    request.Alike .ready .same request ↔ request.Ready := by
  constructor
  · intro h
    cases h with
    | bind _ _ hvalue => exact hvalue.ready
    | bindLazy _ _ hwork => exact Suspension.alike_ready_iff.mp hwork
    | _ => trivial
  · intro h
    cases request with
    | lookup scope name => exact .lookup name (Scope.alike_same scope)
    | openScope outer => exact .openScope (Scope.alike_same outer)
    | bind scope name value => exact .bind name (Scope.alike_same scope) (Value.Ready.alike h)
    | bindLazy scope name work =>
        exact .bindLazy name (Scope.alike_same scope) (Suspension.alike_ready_iff.mpr h)
    | unbind scope name => exact .unbind name (Scope.alike_same scope)
    | start scope name => exact .start name (Scope.alike_same scope)
    | print line => exact .print line
    | pause milliseconds => exact .pause milliseconds
    | environmentVariable name => exact .environmentVariable name
    | clock => exact .clock
    | tally => exact .tally

theorem Except.alike_unit {likeness : Likeness} (answer : Except Failure Unit) :
    Except.Alike likeness Eq answer answer := by
  cases answer with
  | ok _ => exact .ok rfl
  | error failure => exact .error (Failure.alike_refl failure)

theorem Request.answerAlike_ready_iff {request : Request} {answer : request.Answer} :
    Request.AnswerAlike .ready .same request request answer answer ↔
      request.AnswerReady answer := by
  cases request with
  | lookup scope name => exact Result.stepAlike_ready_iff
  | openScope outer => exact ⟨fun _ => trivial, fun _ => Scope.alike_same answer⟩
  | unbind scope name => exact ⟨fun _ => trivial, fun _ => Except.alike_unit answer⟩
  | start scope name => exact ⟨fun _ => trivial, fun _ => Except.alike_unit answer⟩
  | bindLazy scope name work => exact ⟨fun _ => trivial, fun _ => rfl⟩
  | environmentVariable name => exact ⟨fun _ => trivial, fun _ => rfl⟩
  | clock => exact ⟨fun _ => trivial, fun _ => rfl⟩
  | tally => exact ⟨fun _ => trivial, fun _ => rfl⟩
  | bind scope name value => exact Iff.rfl
  | print line => exact Iff.rfl
  | pause milliseconds => exact Iff.rfl

theorem Script.Ready.inStep {script : Script Value} (h : script.Ready) :
    Script.InStep .ready (Value.StepAlike .ready .same) script script := by
  induction h with
  | done hresult => exact .done (Result.stepAlike_ready_iff.mpr hresult)
  | ask hrequest _ ih =>
      refine .ask (Request.alike_ready_iff.mpr hrequest) fun answer answer' hanswer => ?_
      -- Where nothing may differ, alike answers are one answer.
      cases hanswer.eq rfl rfl
      exact ih answer (Request.answerAlike_ready_iff.mp hanswer)
  | eval hform _ ih =>
      refine .eval hform.alike fun result result' hresult => ?_
      cases Except.Alike.eq rfl (fun _ _ hvalue => Value.Alike.eq rfl hvalue) hresult
      exact ih result (Result.alike_ready_iff.mp hresult)

theorem Script.InStep.ready {script script' : Script Value}
    (h : Script.InStep .ready (Value.StepAlike .ready .same) script script') : script.Ready := by
  induction h with
  | done hresult =>
      cases Except.Alike.eq rfl (fun _ _ hvalue => Value.StepAlike.eq rfl hvalue) hresult
      exact .done (Result.stepAlike_ready_iff.mp hresult)
  | ask hrequest _ ih =>
      cases hrequest.eq rfl
      refine .ask (Request.alike_ready_iff.mp hrequest) fun answer hanswer => ?_
      exact ih answer answer (Request.answerAlike_ready_iff.mpr hanswer)
  | eval hform _ ih =>
      refine .eval hform.ready fun result hresult => ?_
      exact ih result result (Result.alike_ready_iff.mpr hresult)

theorem Host.Ready.inStep {host : Host} (h : host.Ready) : host.InStep .ready := by
  intro name _ call call' hcall
  have hsame : call = call' := by
    rcases call with ⟨bound, head, operands, scope⟩
    rcases call' with ⟨bound', head', operands', scope'⟩
    rcases hcall with ⟨hbound, hhead, hoperands, hscope⟩
    cases hbound
    cases hhead.eq rfl
    cases hoperands.eq rfl
    cases hscope.eq
    rfl
  subst hsame
  have hoperands := Value.allReady_iff.mp hcall.operands.ready
  exact (h name call hcall.head.ready hoperands).inStep

/-- The functions of the standard host program keep to ready values. -/
theorem Host.standard_ready : Host.standard.Ready := by
  intro name call hhead hoperands
  have hcall : Call.Alike .ready .same call call :=
    ⟨rfl, hhead.alike, (Value.allReady_iff.mpr hoperands).alike, Scope.alike_same call.scope⟩
  have halike := Host.standard_respects .ready name trivial .same call call hcall
  exact (halike.inStep rfl).ready

end LazyLisp
