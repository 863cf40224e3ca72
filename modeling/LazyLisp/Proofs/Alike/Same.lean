import LazyLisp.Proofs.Alike.Script

/-!
# Same — likeness within one store

Where every frame and every cell corresponds to itself, alike values refer to the very same parts
of the store.  If moreover places are compared by equality, then they are equal, and so are alike
requests and the answers to them.

Conversely, values are alike themselves if the likeness keeps nothing out.

Main results: `Value.Alike.eq` and `Value.alike_same`, with the same for lists, entries, functions
and suspended work, and `Request.Alike.eq` and `Request.AnswerAlike.eq`.
-/

namespace LazyLisp

variable {likeness : Likeness}

/-! ## Scopes and call sites -/

theorem CallSite.eq_of_alike (hplaces : likeness.places = Eq) {site site' : Option CallSite}
    (h : Option.Rel (CallSite.Alike likeness) site site') : site = site' := by
  cases h with
  | @some site site' h =>
      rcases site with ⟨name, place⟩
      rcases site' with ⟨name', place'⟩
      rcases h with ⟨hname, hplace⟩
      rw [hplaces] at hplace
      cases hname
      cases hplace
      rfl
  | none => rfl

theorem Scope.Alike.eq {scope scope' : Scope} (h : scope.Alike .same scope') : scope = scope' := by
  rcases scope with ⟨frame, outer⟩
  rcases scope' with ⟨frame', outer'⟩
  rcases h with ⟨hframe, houter⟩
  have houter' : outer = outer' := by simpa [Link.same] using houter
  cases hframe
  rw [houter']

theorem Scope.alike_same (scope : Scope) : scope.Alike .same scope :=
  ⟨rfl, List.forall₂_same.mpr fun _ _ => rfl⟩

/-! ## Values -/

mutual

theorem Value.Alike.eq (hplaces : likeness.places = Eq) {value value' : Value} :
    value.Alike likeness .same value' → value = value'
  | .nil => rfl
  | .bool _ => rfl
  | .number _ => rfl
  | .text _ => rfl
  | .symbol h => by rw [h.eq hplaces]
  | .key _ => rfl
  | .list h => by rw [h.eq hplaces]
  | .vector h => by rw [h.eq hplaces]
  | .map h => by rw [h.eq hplaces]
  | .func h => by rw [h.eq hplaces]
  | .suspended _ h => by rw [h.eq hplaces]

theorem Value.AllAlike.eq (hplaces : likeness.places = Eq) {items items' : List Value} :
    Value.AllAlike likeness .same items items' → items = items'
  | .nil => rfl
  | .cons hvalue hrest => by rw [hvalue.eq hplaces, hrest.eq hplaces]

theorem Entries.Alike.eq (hplaces : likeness.places = Eq) {entries entries' : List (Key × Value)} :
    Entries.Alike likeness .same entries entries' → entries = entries'
  | .nil => rfl
  | .cons hvalue hrest => by rw [hvalue.eq hplaces, hrest.eq hplaces]

theorem Func.Alike.eq (hplaces : likeness.places = Eq) {func func' : Func} :
    func.Alike likeness .same func' → func = func'
  | .native _ => rfl
  | .closure hparams hbody hscope => by
      rw [Symbol.eq_of_forall₂_alike hparams hplaces, hbody.eq hplaces, hscope.eq]

theorem Suspension.Alike.eq (hplaces : likeness.places = Eq) {work work' : Suspension} :
    work.Alike likeness .same work' → work = work'
  | .form hform hscope => by rw [hform.eq hplaces, hscope.eq]
  | .call hfunc hhead hoperands hscope => by
      rw [hfunc.eq hplaces, hhead.eq hplaces, hoperands.eq hplaces, hscope.eq]
  | .binding hcell => by rw [hcell]
  | .givenValue hsite hvalue => by rw [CallSite.eq_of_alike hplaces hsite, hvalue.eq hplaces]
  | .givenFailure hsite => by rw [CallSite.eq_of_alike hplaces hsite]

end

theorem Value.StepAlike.eq (hplaces : likeness.places = Eq) {value value' : Value}
    (h : Value.StepAlike likeness .same value value') : value = value' := by
  cases h with
  | value h => exact h.eq hplaces
  | suspended h => rw [h.eq hplaces]

/-! ## Likeness to itself -/

/-- Nothing is kept out: suspended work may stand inside data, and every operation may occur. -/
class Likeness.Unrestricted (likeness : Likeness) : Prop where
  thunks : likeness.thunks
  operations : ∀ operation, likeness.operations operation

mutual

theorem Value.alike_same [likeness.Unrestricted] :
    (value : Value) → value.Alike likeness .same value
  | .nil => .nil
  | .bool b => .bool b
  | .number n => .number n
  | .text s => .text s
  | .symbol _ => .symbol (Symbol.alike_self _)
  | .key key => .key key
  | .list items => .list (Value.allAlike_same items)
  | .vector items => .vector (Value.allAlike_same items)
  | .map entries => .map (Entries.alike_same entries)
  | .func func => .func (Func.alike_same func)
  | .suspended work => .suspended Likeness.Unrestricted.thunks (Suspension.alike_same work)

theorem Value.allAlike_same [likeness.Unrestricted] :
    (items : List Value) → Value.AllAlike likeness .same items items
  | [] => .nil
  | value :: rest => .cons (Value.alike_same value) (Value.allAlike_same rest)

theorem Entries.alike_same [likeness.Unrestricted] :
    (entries : List (Key × Value)) → Entries.Alike likeness .same entries entries
  | [] => .nil
  | (_, value) :: rest => .cons (Value.alike_same value) (Entries.alike_same rest)

theorem Func.alike_same [likeness.Unrestricted] :
    (func : Func) → func.Alike likeness .same func
  | .native _ operation => .native (Likeness.Unrestricted.operations operation)
  | .closure _ _ body scope =>
      .closure (List.forall₂_same.mpr fun _ _ => Symbol.alike_self _) (Value.alike_same body)
        (Scope.alike_same scope)

theorem Suspension.alike_same [likeness.Unrestricted] :
    (work : Suspension) → work.Alike likeness .same work
  | .form form scope => .form (Value.alike_same form) (Scope.alike_same scope)
  | .call func head operands scope =>
      .call (Func.alike_same func) (Value.alike_same head) (Value.allAlike_same operands)
        (Scope.alike_same scope)
  | .binding _ => .binding rfl
  | .given site (.ok value) => .givenValue (CallSite.alike_self site) (Value.alike_same value)
  | .given site (.error _) => .givenFailure (CallSite.alike_self site)

end

theorem Result.alike_same [likeness.Unrestricted] (result : Result) :
    Result.Alike likeness .same result result := by
  cases result with
  | ok value => exact .ok (Value.alike_same value)
  | error failure => exact .error (Failure.alike_refl failure)

/-! ## Requests and answers -/

theorem Request.Alike.eq (hplaces : likeness.places = Eq) {request request' : Request}
    (h : request.Alike likeness .same request') : request = request' := by
  cases h with
  | lookup name hscope => rw [hscope.eq]
  | openScope houter => rw [houter.eq]
  | bind name hscope hvalue => rw [hscope.eq, hvalue.eq hplaces]
  | bindLazy name hscope hwork => rw [hscope.eq, hwork.eq hplaces]
  | unbind name hscope => rw [hscope.eq]
  | start name hscope => rw [hscope.eq]
  | _ => rfl

theorem Failure.Alike.eq (htraces : likeness.traces = Eq) {failure failure' : Failure}
    (h : failure.Alike likeness failure') : failure = failure' := by
  rcases failure with ⟨cause, trace⟩
  rcases failure' with ⟨cause', trace'⟩
  rcases h with ⟨hcause, htrace⟩
  rw [htraces] at htrace
  cases hcause
  cases htrace
  rfl

theorem Except.Alike.eq {α : Type} {related : α → α → Prop} (htraces : likeness.traces = Eq)
    (hrelated : ∀ a a', related a a' → a = a') {result result' : Except Failure α}
    (h : Except.Alike likeness related result result') : result = result' := by
  cases h with
  | ok h => rw [hrelated _ _ h]
  | error h => rw [h.eq htraces]

theorem Request.AnswerAlike.eq (hplaces : likeness.places = Eq) (htraces : likeness.traces = Eq)
    {request : Request} {answer answer' : request.Answer}
    (h : Request.AnswerAlike likeness .same request request answer answer') : answer = answer' := by
  cases request with
  | lookup scope name => exact Except.Alike.eq htraces (fun _ _ hvalue => hvalue.eq hplaces) h
  | openScope outer => exact Scope.Alike.eq h
  | unbind scope name => exact Except.Alike.eq htraces (fun _ _ hunit => hunit) h
  | start scope name => exact Except.Alike.eq htraces (fun _ _ hunit => hunit) h
  | bind scope name value => rfl
  | print line => rfl
  | pause milliseconds => rfl
  | bindLazy scope name work => exact h
  | environmentVariable name => exact h
  | clock => exact h
  | tally => exact h

end LazyLisp
