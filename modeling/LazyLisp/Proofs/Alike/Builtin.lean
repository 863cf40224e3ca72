import LazyLisp.Host.Functions
import LazyLisp.Program
import LazyLisp.Proofs.Alike.Script
import LazyLisp.Proofs.Reader.Inert

/-!
# Builtin — alike calls make alike scripts

No native function looks at the names of frames and cells, at places in source text, or at traces,
so alike calls are carried out alike.  There is one lemma for each function that natives are made
of, and `Func.Alike.enter` puts them together: calls of alike functions with alike operands go
alike.  The only assumption is on functions of the host program, `Host.Respects`, and it is empty
where no such function may occur.
-/

namespace LazyLisp

variable {likeness : Likeness} {link link' : Link}

/-! ## Calls -/

/-- Calls of the same function with alike operands from corresponding scopes. -/
structure Call.Alike (likeness : Likeness) (link : Link) (call call' : Call) : Prop where
  name : call.name = call'.name
  head : call.head.Alike likeness link call'.head
  operands : Value.AllAlike likeness link call.operands call'.operands
  scope : call.scope.Alike link call'.scope

namespace Call.Alike

variable {call call' : Call}

theorem mono (hle : link ≤ link') (h : call.Alike likeness link call') :
    call.Alike likeness link' call' :=
  ⟨h.name, h.head.mono hle, h.operands.mono hle, h.scope.mono hle⟩

section Failures

variable {α β : Type} {related : Link → α → β → Prop}

theorem arityMismatch (h : call.Alike likeness link call') (expected : Arity) :
    Script.Alike likeness related link (call.arityMismatch expected)
      (call'.arityMismatch expected) := by
  rw [Call.arityMismatch, Call.arityMismatch, h.name, h.operands.length_eq]
  exact .done (.error (Failure.alike_refl _))

theorem typeMismatch (h : call.Alike likeness link call') (expected : String) {got got' : Value}
    (hgot : got.Alike likeness link got') :
    Script.Alike likeness related link (call.typeMismatch expected got)
      (call'.typeMismatch expected got') := by
  rw [Call.typeMismatch, Call.typeMismatch, h.name, Value.kindName, Value.kindName, hgot.kind_eq]
  exact .done (.error (Failure.alike_refl _))

theorem invalidArgument (h : call.Alike likeness link call') (reason : String) :
    Script.Alike likeness related link (call.invalidArgument reason)
      (call'.invalidArgument reason) := by
  rw [Call.invalidArgument, Call.invalidArgument, h.name]
  exact .done (.error (Failure.alike_refl _))

end Failures

/-! ### Operands -/

theorem value (h : call.Alike likeness link call') {operand operand' : Value}
    (hoperand : operand.Alike likeness link operand') :
    Script.Alike likeness (Value.Alike likeness) link (call.value operand)
      (call'.value operand') :=
  .value hoperand h.scope

theorem tail (h : call.Alike likeness link call') {operand operand' : Value}
    (hoperand : operand.Alike likeness link operand') :
    Script.StepAlike likeness link (call.tail operand) (call'.tail operand') :=
  .tail hoperand h.scope

theorem number (h : call.Alike likeness link call') {operand operand' : Value}
    (hoperand : operand.Alike likeness link operand') :
    Script.Alike likeness (fun _ => Eq) link (call.number operand) (call'.number operand') := by
  refine .bind (h.value hoperand) fun link' hle v v' hv => ?_
  cases hv with
  | number n => exact .pure rfl
  -- Values of other kinds are refused, and the failure shows their kind only.
  | _ => exact (h.mono hle).typeMismatch _ (by constructor <;> assumption)

theorem func (h : call.Alike likeness link call') {operand operand' : Value}
    (hoperand : operand.Alike likeness link operand') :
    Script.Alike likeness (Func.Alike likeness) link (call.func operand)
      (call'.func operand') := by
  refine .bind (h.value hoperand) fun link' hle v v' hv => ?_
  cases hv with
  | func hfunc => exact .pure hfunc
  | _ => exact (h.mono hle).typeMismatch _ (by constructor <;> assumption)

theorem single (h : call.Alike likeness link call') :
    Script.Alike likeness (Value.Alike likeness) link call.single call'.single := by
  rcases call with ⟨name, head, operands, scope⟩
  rcases call' with ⟨name', head', operands', scope'⟩
  rcases h.operands with _ | ⟨h₁, _ | ⟨h₂, hrest⟩⟩
  · exact h.arityMismatch _
  · exact h.value h₁
  · exact h.arityMismatch _

theorem symbol (h : call.Alike likeness link call') {operand operand' : Value}
    (hoperand : operand.Alike likeness link operand') :
    Script.Alike likeness (fun _ => Symbol.Alike likeness) link (call.symbol operand)
      (call'.symbol operand') := by
  cases hoperand with
  | symbol hsymbol => exact .pure hsymbol
  | _ => exact h.typeMismatch _ (by constructor <;> assumption)

theorem elements (h : call.Alike likeness link call') {value value' : Value}
    (hvalue : value.Alike likeness link value') :
    Script.Alike likeness (Value.AllAlike likeness) link (call.elements value)
      (call'.elements value') := by
  cases hvalue with
  | list hitems => exact .pure hitems
  | vector hitems => exact .pure hitems
  | _ => exact h.typeMismatch _ (by constructor <;> assumption)

end Call.Alike

namespace Builtin

variable {call call' : Call}

/-! ## Control -/

theorem choose_alike (h : call.Alike likeness link call') :
    Script.StepAlike likeness link (choose call) (choose call') := by
  rcases call with ⟨name, head, operands, scope⟩
  rcases call' with ⟨name', head', operands', scope'⟩
  -- Operands are compared one by one, so the calls have too few or too many both or neither.
  rcases h.operands with _ | ⟨htest, _ | ⟨hthen, _ | ⟨helse, _ | ⟨hmore, hrest⟩⟩⟩⟩
  · exact h.arityMismatch _
  · exact h.arityMismatch _
  · refine .bind (h.value htest) fun link' hle v v' hv => ?_
    rw [hv.isTruthy_eq]
    split
    · exact (h.mono hle).tail (hthen.mono hle)
    · exact .pure (.value .nil)
  · refine .bind (h.value htest) fun link' hle v v' hv => ?_
    rw [hv.isTruthy_eq]
    split
    · exact (h.mono hle).tail (hthen.mono hle)
    · exact (h.mono hle).tail (helse.mono hle)
  · exact h.arityMismatch _

theorem sequenceOf_alike {forms forms' : List Value}
    (hforms : Value.AllAlike likeness link forms forms') (h : call.Alike likeness link call') :
    Script.StepAlike likeness link (sequenceOf call forms) (sequenceOf call' forms') := by
  induction forms generalizing link forms' with
  | nil =>
      cases hforms
      exact .pure (.value .nil)
  | cons form rest ih =>
      rcases hforms with _ | ⟨hform, hrest⟩
      rcases hrest with _ | ⟨hnext, hrest⟩
      · exact h.tail hform
      · refine .bind (h.value hform) fun link' hle _ _ _ => ?_
        exact ih (.cons (hnext.mono hle) (hrest.mono hle)) (h.mono hle)

theorem firstOf_alike {stop : Value → Bool}
    (hstop : ∀ {link : Link} {v v' : Value}, v.Alike likeness link v' → stop v = stop v')
    {empty : Value} (hempty : empty.Inert) {forms forms' : List Value}
    (hforms : Value.AllAlike likeness link forms forms') (h : call.Alike likeness link call') :
    Script.StepAlike likeness link (firstOf stop empty call forms)
      (firstOf stop empty call' forms') := by
  induction forms generalizing link forms' with
  | nil =>
      cases hforms
      exact .pure (.value (hempty.alike likeness link))
  | cons form rest ih =>
      rcases hforms with _ | ⟨hform, hrest⟩
      rcases hrest with _ | ⟨hnext, hrest⟩
      · exact h.tail hform
      · refine .bind (h.value hform) fun link' hle v v' hv => ?_
        -- Both calls stop at the same form, as `stop` cannot tell alike values apart.
        rw [hstop hv]
        split
        · exact .pure (.value hv)
        · exact ih (.cons (hnext.mono hle) (hrest.mono hle)) (h.mono hle)

theorem inOrder_alike (h : call.Alike likeness link call') :
    Script.StepAlike likeness link (inOrder call) (inOrder call') :=
  sequenceOf_alike h.operands h

theorem conjoin_alike (h : call.Alike likeness link call') :
    Script.StepAlike likeness link (conjoin call) (conjoin call') :=
  firstOf_alike (fun hv => by rw [hv.isTruthy_eq]) (.bool true) h.operands h

theorem disjoin_alike (h : call.Alike likeness link call') :
    Script.StepAlike likeness link (disjoin call) (disjoin call') :=
  firstOf_alike (fun hv => hv.isTruthy_eq) (.bool false) h.operands h

theorem raise_alike (h : call.Alike likeness link call') :
    Script.StepAlike likeness link (raise call) (raise call') := by
  refine .bind h.single fun link' hle v v' hv => ?_
  rw [hv.display_eq]
  exact .fail _

/-! ## Calls built as code -/

theorem alike_quoted {value value' : Value} (h : value.Alike likeness link value') :
    value.quoted.Alike likeness link value'.quoted :=
  .list (.cons (.symbol (Symbol.alike_self _)) (.cons h .nil))

theorem alike_operand {value value' : Value} (h : value.Alike likeness link value') :
    (Form.operand value).Alike likeness link (Form.operand value') := by
  cases h with
  | symbol hsymbol => exact alike_quoted (.symbol hsymbol)
  | list hitems => exact alike_quoted (.list hitems)
  | vector hitems => exact alike_quoted (.vector hitems)
  | map hentries => exact alike_quoted (.map hentries)
  | suspended hthunks hwork => exact alike_quoted (.suspended hthunks hwork)
  | _ => constructor <;> assumption

theorem allAlike_map {f g : Value → Value} {items items' : List Value}
    (hmap : ∀ value value', value.Alike likeness link value' →
      (f value).Alike likeness link (g value'))
    (h : Value.AllAlike likeness link items items') :
    Value.AllAlike likeness link (items.map f) (items'.map g) := by
  induction items generalizing items' with
  | nil =>
      cases h
      exact .nil
  | cons item rest ih =>
      rcases h with _ | ⟨hitem, hrest⟩
      exact .cons (hmap _ _ hitem) (ih hrest)

theorem alike_call {head head' : Value} {values values' : List Value}
    (hhead : head.Alike likeness link head')
    (hvalues : Value.AllAlike likeness link values values') :
    (Form.call head values).Alike likeness link (Form.call head' values') :=
  .list (.cons hhead (allAlike_map (fun _ _ => alike_operand) hvalues))

theorem alike_callHead {operand operand' : Value} {func func' : Func}
    (hoperand : operand.Alike likeness link operand') (hfunc : func.Alike likeness link func') :
    (callHead operand func).Alike likeness link (callHead operand' func') := by
  cases hoperand with
  | symbol hsymbol => exact .symbol hsymbol
  | _ => exact .func hfunc

theorem recover_alike (h : call.Alike likeness link call') :
    Script.StepAlike likeness link (recover call) (recover call') := by
  rcases call with ⟨name, head, operands, scope⟩
  rcases call' with ⟨name', head', operands', scope'⟩
  rcases h.operands with _ | ⟨hform, _ | ⟨hhandler, _ | ⟨hmore, hrest⟩⟩⟩
  · exact h.arityMismatch _
  · exact h.arityMismatch _
  · refine .bind (.attempt hform h.scope) fun link₁ hle₁ outcome outcome' houtcome => ?_
    cases houtcome with
    | ok hvalue => exact .pure (.value hvalue)
    | error hfailure =>
        -- The form has failed, so the handler is evaluated, to be called with the message.
        refine .bind (.attempt (hhandler.mono hle₁) (h.scope.mono hle₁))
          fun link₂ hle₂ answer answer' hanswer => ?_
        have hlater := h.mono (hle₁.trans hle₂)
        cases hanswer with
        -- If the handler cannot be had, the first failure is what comes out.
        | error _ => exact .done (.error hfailure)
        | ok hvalue =>
            cases hvalue with
            | func hfunc =>
                refine hlater.tail (alike_call (.func hfunc) ?_)
                -- The message depends on the cause alone.
                rw [Failure.message, Failure.message, hfailure.1]
                exact .cons (.text _) .nil
            | _ => exact hlater.typeMismatch _ (by constructor <;> assumption)
  · exact h.arityMismatch _

theorem wait_alike (h : call.Alike likeness link call') :
    Script.StepAlike likeness link (wait call) (wait call') := by
  rcases call with ⟨name, head, operands, scope⟩
  rcases call' with ⟨name', head', operands', scope'⟩
  rcases h.operands with _ | ⟨hseconds, _ | ⟨hmore, hrest⟩⟩
  · exact h.arityMismatch _
  · refine .bind (h.number hseconds) fun link₁ hle₁ n n' hn => ?_
    subst hn
    split
    · exact .bind (.pause _) fun _ _ _ _ _ => .pure (.value .nil)
    · exact (h.mono hle₁).invalidArgument _
  · exact h.arityMismatch _

/-! ## Bindings -/

theorem bindPairs_alike {inner inner' : Scope} {pairs pairs' : List Value}
    (hpairs : Value.AllAlike likeness link pairs pairs') (hinner : inner.Alike link inner')
    (h : call.Alike likeness link call') :
    Script.Alike likeness (fun _ => Eq) link (bindPairs call inner pairs)
      (bindPairs call' inner' pairs') := by
  -- Every pair adds a cell, so the pairs that follow are compared along a longer link.
  fun_induction bindPairs call inner pairs generalizing link pairs' with
  | case1 name form rest ih =>
      rcases hpairs with _ | ⟨hname, _ | ⟨hform, hrest⟩⟩
      refine .bind (h.symbol hname) fun link₁ hle₁ symbol symbol' hsymbol => ?_
      rw [hsymbol.1]
      refine .bind (.bindLazy _ (hinner.mono hle₁)
        (.form (hform.mono hle₁) (hinner.mono hle₁))) fun link₂ hle₂ _ _ _ => ?_
      have hle := hle₁.trans hle₂
      exact ih (hrest.mono hle) (hinner.mono hle) (h.mono hle)
  | case2 pairs hpairs' =>
      rcases hpairs with _ | ⟨hname, _ | ⟨hform, hrest⟩⟩
      · exact .pure rfl
      · exact .pure rfl
      -- With a name and a form in front, there would have been a pair.
      · exact absurd rfl (hpairs' _ _ _)

theorem bindLocals_alike (h : call.Alike likeness link call') :
    Script.StepAlike likeness link (bindLocals call) (bindLocals call') := by
  rcases call with ⟨name, head, operands, scope⟩
  rcases call' with ⟨name', head', operands', scope'⟩
  rcases h.operands with _ | ⟨hbindings, _ | ⟨hbody, _ | ⟨hmore, hrest⟩⟩⟩
  · exact h.arityMismatch _
  · exact h.arityMismatch _
  · refine .bind (h.elements hbindings) fun link₁ hle₁ pairs pairs' hpairs => ?_
    rw [hpairs.length_eq]
    split
    · exact (h.mono hle₁).invalidArgument _
    · refine .bind (.openScope (h.scope.mono hle₁)) fun link₂ hle₂ inner inner' hinner => ?_
      have hle := hle₁.trans hle₂
      refine .bind (bindPairs_alike (hpairs.mono hle₂) hinner (h.mono hle))
        fun link₃ hle₃ _ _ _ => ?_
      exact .tail (hbody.mono (hle.trans hle₃)) (hinner.mono hle₃)
  · exact h.arityMismatch _

theorem define_alike (h : call.Alike likeness link call') :
    Script.StepAlike likeness link (define call) (define call') := by
  rcases call with ⟨name, head, operands, scope⟩
  rcases call' with ⟨name', head', operands', scope'⟩
  rcases h.operands with _ | ⟨hname, _ | ⟨hform, _ | ⟨hmore, hrest⟩⟩⟩
  · exact h.arityMismatch _
  · exact h.arityMismatch _
  · refine .bind (h.symbol hname) fun link₁ hle₁ symbol symbol' hsymbol => ?_
    rw [hsymbol.1]
    have hscope := h.scope.mono hle₁
    refine .bind (.bindLazy _ hscope (.form (hform.mono hle₁) hscope)) fun _ _ _ _ hcell => ?_
    -- What comes out is a handle on the new binding.
    exact .pure (.suspended (.binding hcell))
  · exact h.arityMismatch _

theorem undefine_alike (h : call.Alike likeness link call') :
    Script.StepAlike likeness link (undefine call) (undefine call') := by
  rcases call with ⟨name, head, operands, scope⟩
  rcases call' with ⟨name', head', operands', scope'⟩
  rcases h.operands with _ | ⟨hname, _ | ⟨hmore, hrest⟩⟩
  · exact h.arityMismatch _
  · refine .bind (h.symbol hname) fun link₁ hle₁ symbol symbol' hsymbol => ?_
    rw [hsymbol.1]
    exact .bind (.unbind _ (h.scope.mono hle₁)) fun _ _ _ _ _ => .pure (.value .nil)
  · exact h.arityMismatch _

theorem startAll_alike {names names' : List Value}
    (hnames : Value.AllAlike likeness link names names') (h : call.Alike likeness link call') :
    Script.Alike likeness (fun _ => Eq) link (startAll call names) (startAll call' names') := by
  induction names generalizing link names' with
  | nil =>
      cases hnames
      exact .pure rfl
  | cons name rest ih =>
      rcases hnames with _ | ⟨hname, hrest⟩
      refine .bind (h.symbol hname) fun link₁ hle₁ symbol symbol' hsymbol => ?_
      rw [hsymbol.1]
      refine .bind (.start _ (h.scope.mono hle₁)) fun link₂ hle₂ _ _ _ => ?_
      exact ih (hrest.mono (hle₁.trans hle₂)) (h.mono (hle₁.trans hle₂))

theorem async_alike (h : call.Alike likeness link call') :
    Script.StepAlike likeness link (async call) (async call') := by
  rcases call with ⟨name, head, operands, scope⟩
  rcases call' with ⟨name', head', operands', scope'⟩
  -- Names may be given as a list or as a vector.
  have hseveral : ∀ {names names' : List Value}, Value.AllAlike likeness link names names' →
      Script.StepAlike likeness link
        (do startAll ⟨name, head, operands, scope⟩ names; pure .nil)
        (do startAll ⟨name', head', operands', scope'⟩ names'; pure .nil) := fun hnames =>
    .bind (startAll_alike hnames h) fun _ _ _ _ _ => .pure (.value .nil)
  rcases h.operands with _ | ⟨hname, _ | ⟨hmore, hrest⟩⟩
  · exact h.arityMismatch _
  · cases hname with
    | symbol hsymbol =>
        simp only [async, hsymbol.1]
        exact .bind (.start _ h.scope) fun _ _ _ _ _ => .pure (.value .nil)
    | list hnames => exact hseveral hnames
    | vector hnames => exact hseveral hnames
    | _ => exact h.typeMismatch _ (by constructor <;> assumption)
  · cases hname <;> exact h.arityMismatch _

/-! ## Functions -/

theorem parameter_alike {item item' : Value} (hitem : item.Alike likeness link item')
    (h : call.Alike likeness link call') :
    Script.Alike likeness (fun _ => Symbol.Alike likeness) link (parameter call item)
      (parameter call' item') := by
  cases hitem with
  | symbol hsymbol => exact .pure hsymbol
  | _ => exact h.typeMismatch _ (by constructor <;> assumption)

theorem parameters_alike {items items' : List Value}
    (hitems : Value.AllAlike likeness link items items') (h : call.Alike likeness link call') :
    Script.Alike likeness (fun _ => List.Forall₂ (Symbol.Alike likeness)) link
      (items.mapM (parameter call)) (items'.mapM (parameter call')) := by
  induction items generalizing link items' with
  | nil =>
      cases hitems
      exact .pure .nil
  | cons item rest ih =>
      rcases hitems with _ | ⟨hitem, hrest⟩
      rw [List.mapM_cons, List.mapM_cons]
      refine .bind (parameter_alike hitem h) fun link₁ hle₁ symbol symbol' hsymbol => ?_
      refine .bind (ih (hrest.mono hle₁) (h.mono hle₁)) fun _ _ symbols symbols' hsymbols => ?_
      exact .pure (.cons hsymbol hsymbols)

theorem makeClosure_alike {name : String} {params params' body body' : Value}
    (hparams : params.Alike likeness link params') (hbody : body.Alike likeness link body')
    (h : call.Alike likeness link call') :
    Script.Alike likeness (Func.Alike likeness) link (makeClosure call name params body)
      (makeClosure call' name params' body') := by
  -- Parameters may be given as a list or as a vector.
  have hitems : ∀ {items items' : List Value}, Value.AllAlike likeness link items items' →
      Script.Alike likeness (Func.Alike likeness) link
        (do
          let symbols ← items.mapM (parameter call)
          pure (.closure name symbols body call.scope))
        (do
          let symbols ← items'.mapM (parameter call')
          pure (.closure name symbols body' call'.scope)) := fun hitems =>
    .bind (parameters_alike hitems h) fun link₁ hle₁ _ _ hsymbols =>
      .pure (.closure hsymbols (hbody.mono hle₁) (h.scope.mono hle₁))
  cases hparams with
  | list h => exact hitems h
  | vector h => exact hitems h
  | _ => exact h.typeMismatch _ (by constructor <;> assumption)

theorem lambda_alike (h : call.Alike likeness link call') :
    Script.StepAlike likeness link (lambda call) (lambda call') := by
  rcases call with ⟨name, head, operands, scope⟩
  rcases call' with ⟨name', head', operands', scope'⟩
  rcases h.operands with _ | ⟨hparams, _ | ⟨hbody, _ | ⟨hmore, hrest⟩⟩⟩
  · exact h.arityMismatch _
  · exact h.arityMismatch _
  · exact (makeClosure_alike hparams hbody h).map fun _ _ _ _ hfunc => .value (.func hfunc)
  · exact h.arityMismatch _

theorem defineFunction_alike (h : call.Alike likeness link call') :
    Script.StepAlike likeness link (defineFunction call) (defineFunction call') := by
  rcases call with ⟨name, head, operands, scope⟩
  rcases call' with ⟨name', head', operands', scope'⟩
  rcases h.operands with _ | ⟨hname, _ | ⟨hparams, _ | ⟨hbody, _ | ⟨hmore, hrest⟩⟩⟩⟩
  · exact h.arityMismatch _
  · exact h.arityMismatch _
  · exact h.arityMismatch _
  · refine .bind (h.symbol hname) fun link₁ hle₁ symbol symbol' hsymbol => ?_
    rw [hsymbol.1]
    refine .bind (makeClosure_alike (hparams.mono hle₁) (hbody.mono hle₁) (h.mono hle₁))
      fun link₂ hle₂ func func' hfunc => ?_
    refine .bind (.bindName _ (h.scope.mono (hle₁.trans hle₂)) (.func hfunc))
      fun link₃ hle₃ _ _ _ => ?_
    exact .pure (.value (.func (hfunc.mono hle₃)))
  · exact h.arityMismatch _

theorem bindParams_alike {inner inner' caller caller' : Scope} {params params' : List Symbol}
    (hparams : List.Forall₂ (Symbol.Alike likeness) params params')
    {operands operands' : List Value}
    (hoperands : Value.AllAlike likeness link operands operands')
    (hinner : inner.Alike link inner') (hcaller : caller.Alike link caller') :
    Script.Alike likeness (fun _ => Eq) link (bindParams inner caller (params.zip operands))
      (bindParams inner' caller' (params'.zip operands')) := by
  induction hparams generalizing link operands operands' with
  | nil => exact .pure rfl
  | @cons param param' rest rest' hparam hrest ih =>
      rcases hoperands with _ | ⟨hoperand, hoperands⟩
      · exact .pure rfl
      · rw [List.zip_cons_cons, List.zip_cons_cons, bindParams, bindParams, hparam.1]
        -- An operand is bound in the inner scope and refers to the scope of the caller.
        refine .bind (.bindLazy _ hinner (.form hoperand hcaller)) fun link₁ hle₁ _ _ _ => ?_
        exact ih (hoperands.mono hle₁) (hinner.mono hle₁) (hcaller.mono hle₁)

theorem enterClosure_alike {name : String} {params params' : List Symbol} {body body' : Value}
    {scope scope' caller caller' : Scope} {operands operands' : List Value}
    (hparams : List.Forall₂ (Symbol.Alike likeness) params params')
    (hbody : body.Alike likeness link body') (hscope : scope.Alike link scope')
    (hoperands : Value.AllAlike likeness link operands operands')
    (hcaller : caller.Alike link caller') :
    Script.StepAlike likeness link (enterClosure name params body scope operands caller)
      (enterClosure name params' body' scope' operands' caller') := by
  rw [enterClosure, enterClosure, hoperands.length_eq, hparams.length_eq]
  split
  · refine .bind (.openScope hscope) fun link₁ hle₁ inner inner' hinner => ?_
    refine .bind (bindParams_alike hparams (hoperands.mono hle₁) hinner (hcaller.mono hle₁))
      fun link₂ hle₂ _ _ _ => ?_
    exact .tail (hbody.mono (hle₁.trans hle₂)) (hinner.mono hle₂)
  · exact .fail _

theorem map_alike (h : call.Alike likeness link call') :
    Script.StepAlike likeness link (map call) (map call') := by
  rcases call with ⟨name, head, operands, scope⟩
  rcases call' with ⟨name', head', operands', scope'⟩
  rcases h.operands with _ | ⟨hfunction, _ | ⟨hitems, _ | ⟨hmore, hrest⟩⟩⟩
  · exact h.arityMismatch _
  · exact h.arityMismatch _
  · refine .bind (h.func hfunction) fun link₁ hle₁ func func' hfunc => ?_
    refine .bind ((h.mono hle₁).value (hitems.mono hle₁)) fun link₂ hle₂ value value' hvalue => ?_
    have hle := hle₁.trans hle₂
    refine .bind ((h.mono hle).elements hvalue) fun link₃ hle₃ items items' hitems => ?_
    -- The calls are written as code, and evaluating the vector of them is left to the caller.
    have hcallHead := alike_callHead (hfunction.mono hle) (hfunc.mono hle₂)
    refine (h.mono (hle.trans hle₃)).tail (.vector (allAlike_map (fun _ _ hitem => ?_) hitems))
    exact alike_call (hcallHead.mono hle₃) (.cons hitem .nil)
  · exact h.arityMismatch _

theorem apply_alike (h : call.Alike likeness link call') :
    Script.StepAlike likeness link (apply call) (apply call') := by
  rcases call with ⟨name, head, operands, scope⟩
  rcases call' with ⟨name', head', operands', scope'⟩
  rcases h.operands with _ | ⟨hfunction, _ | ⟨hitems, _ | ⟨hmore, hrest⟩⟩⟩
  · exact h.arityMismatch _
  · exact h.arityMismatch _
  · refine .bind (h.func hfunction) fun link₁ hle₁ func func' hfunc => ?_
    refine .bind ((h.mono hle₁).value (hitems.mono hle₁)) fun link₂ hle₂ value value' hvalue => ?_
    have hle := hle₁.trans hle₂
    refine .bind ((h.mono hle).elements hvalue) fun link₃ hle₃ items items' hitems => ?_
    have hcallHead := alike_callHead (hfunction.mono hle) (hfunc.mono hle₂)
    exact (h.mono (hle.trans hle₃)).tail (alike_call (hcallHead.mono hle₃) hitems)
  · exact h.arityMismatch _

/-! ## Numbers -/

theorem numbers_alike (h : call.Alike likeness link call') :
    Script.Alike likeness (fun _ => Eq) link (numbers call) (numbers call') := by
  rw [numbers, numbers]
  have hoperands := h.operands
  -- The operands get fewer in the induction, while the call stays for its name and scope.
  generalize call.operands = operands at hoperands
  generalize call'.operands = operands' at hoperands
  induction operands generalizing link operands' with
  | nil =>
      cases hoperands
      exact .pure rfl
  | cons operand rest ih =>
      rcases hoperands with _ | ⟨hoperand, hrest⟩
      rw [List.mapM_cons, List.mapM_cons]
      refine .bind (h.number hoperand) fun link₁ hle₁ n n' hn => ?_
      refine .bind (ih (h.mono hle₁) _ (hrest.mono hle₁)) fun _ _ ns ns' hns => ?_
      rw [hn, hns]
      exact .pure rfl

theorem add_alike (h : call.Alike likeness link call') :
    Script.StepAlike likeness link (add call) (add call') := by
  refine .bind (numbers_alike h) fun _ _ ns ns' hns => ?_
  rw [hns]
  exact .pure (.value (.number _))

theorem multiply_alike (h : call.Alike likeness link call') :
    Script.StepAlike likeness link (multiply call) (multiply call') := by
  refine .bind (numbers_alike h) fun _ _ ns ns' hns => ?_
  rw [hns]
  exact .pure (.value (.number _))

theorem subtract_alike (h : call.Alike likeness link call') :
    Script.StepAlike likeness link (subtract call) (subtract call') := by
  refine .bind (numbers_alike h) fun _ _ ns ns' hns => ?_
  rw [hns]
  exact .pure (.value (.number _))

theorem divideBy_alike (dividend : Decimal) (divisors : List Decimal) :
    Script.Alike likeness (fun _ => Eq) link (divideBy dividend divisors)
      (divideBy dividend divisors) := by
  induction divisors generalizing dividend with
  | nil => exact .pure rfl
  | cons divisor rest ih =>
      rw [divideBy]
      split
      · exact ih _
      · exact .fail _

theorem divide_alike (h : call.Alike likeness link call') :
    Script.StepAlike likeness link (divide call) (divide call') := by
  refine .bind (numbers_alike h) fun _ _ ns ns' hns => ?_
  rw [hns]
  refine (divideBy_alike _ _).map fun _ _ n n' hn => ?_
  rw [hn]
  exact .value (.number _)

theorem quotRem_alike (h : call.Alike likeness link call') :
    Script.Alike likeness (fun _ => Eq) link (quotRem call) (quotRem call') := by
  rcases call with ⟨name, head, operands, scope⟩
  rcases call' with ⟨name', head', operands', scope'⟩
  rcases h.operands with _ | ⟨hfirst, _ | ⟨hsecond, _ | ⟨hthird, _ | ⟨hmore, hrest⟩⟩⟩⟩
  · exact h.arityMismatch _
  · exact h.arityMismatch _
  · exact h.arityMismatch _
  · refine .bind (h.number hfirst) fun link₁ hle₁ a a' ha => ?_
    refine .bind ((h.mono hle₁).number (hsecond.mono hle₁)) fun link₂ hle₂ b b' hb => ?_
    have hle := hle₁.trans hle₂
    refine .bind ((h.mono hle).number (hthird.mono hle)) fun link₃ hle₃ p p' hp => ?_
    subst ha hb hp
    -- A zero divisor is refused first, and then a number of places out of range.
    split
    · exact .fail _
    · split
      · exact .pure rfl
      · exact (h.mono (hle.trans hle₃)).invalidArgument _
  · exact h.arityMismatch _

theorem quotient_alike (h : call.Alike likeness link call') :
    Script.StepAlike likeness link (quotient call) (quotient call') := by
  refine .bind (quotRem_alike h) fun _ _ pair pair' hpair => ?_
  rw [hpair]
  exact .pure (.value (.number _))

theorem remainder_alike (h : call.Alike likeness link call') :
    Script.StepAlike likeness link (remainder call) (remainder call') := by
  refine .bind (quotRem_alike h) fun _ _ pair pair' hpair => ?_
  rw [hpair]
  exact .pure (.value (.number _))

theorem compare_alike (comparison : Comparison) (h : call.Alike likeness link call') :
    Script.StepAlike likeness link (compare comparison call) (compare comparison call') := by
  rcases call with ⟨name, head, operands, scope⟩
  rcases call' with ⟨name', head', operands', scope'⟩
  rcases h.operands with _ | ⟨hfirst, _ | ⟨hsecond, _ | ⟨hmore, hrest⟩⟩⟩
  · exact h.arityMismatch _
  · exact h.arityMismatch _
  · refine .bind (h.number hfirst) fun link₁ hle₁ a a' ha => ?_
    refine .bind ((h.mono hle₁).number (hsecond.mono hle₁)) fun _ _ b b' hb => ?_
    rw [ha, hb]
    exact .pure (.value (.bool _))
  · exact h.arityMismatch _

/-! ## Data -/

theorem test_alike (predicate : Predicate) (h : call.Alike likeness link call') :
    Script.StepAlike likeness link (test predicate call) (test predicate call') := by
  refine .bind h.single fun _ _ v v' hv => ?_
  rw [hv.accepts_eq predicate]
  exact .pure (.value (.bool _))

theorem kindOf_alike (h : call.Alike likeness link call') :
    Script.StepAlike likeness link (kindOf call) (kindOf call') := by
  refine .bind h.single fun _ _ v v' hv => ?_
  rw [Value.kindName, Value.kindName, hv.kind_eq]
  exact .pure (.value (.text _))

theorem allEqual_alike {first first' : Value} {forms forms' : List Value}
    (hfirst : first.Alike likeness link first') (hforms : Value.AllAlike likeness link forms forms')
    (h : call.Alike likeness link call') :
    Script.StepAlike likeness link (allEqual call first forms) (allEqual call' first' forms') := by
  induction forms generalizing link forms' with
  | nil =>
      cases hforms
      exact .pure (.value (.bool true))
  | cons form rest ih =>
      rcases hforms with _ | ⟨hform, hrest⟩
      refine .bind (h.value hform) fun link₁ hle₁ v v' hv => ?_
      rw [hv.equal_eq (hfirst.mono hle₁)]
      split
      · exact ih (hfirst.mono hle₁) (hrest.mono hle₁) (h.mono hle₁)
      · exact .pure (.value (.bool false))

theorem equal_alike (h : call.Alike likeness link call') :
    Script.StepAlike likeness link (equal call) (equal call') := by
  rcases call with ⟨name, head, operands, scope⟩
  rcases call' with ⟨name', head', operands', scope'⟩
  rcases h.operands with _ | ⟨hfirst, _ | ⟨hsecond, hrest⟩⟩
  · exact h.arityMismatch _
  · exact h.arityMismatch _
  · refine .bind (h.value hfirst) fun link₁ hle₁ v v' hv => ?_
    exact allEqual_alike hv (.cons (hsecond.mono hle₁) (hrest.mono hle₁)) (h.mono hle₁)

theorem sizeOfOperand_alike (h : call.Alike likeness link call') :
    Script.Alike likeness (fun _ => Eq) link (sizeOfOperand call) (sizeOfOperand call') := by
  refine .bind h.single fun link₁ hle₁ v v' hv => ?_
  cases hv with
  | list hitems => exact .pure hitems.length_eq
  | vector hitems => exact .pure hitems.length_eq
  | map hentries => exact .pure hentries.length_eq
  | _ => exact (h.mono hle₁).typeMismatch _ (by constructor <;> assumption)

theorem count_alike (h : call.Alike likeness link call') :
    Script.StepAlike likeness link (count call) (count call') := by
  refine .bind (sizeOfOperand_alike h) fun _ _ size size' hsize => ?_
  rw [hsize]
  exact .pure (.value (.number _))

theorem isEmpty_alike (h : call.Alike likeness link call') :
    Script.StepAlike likeness link (isEmpty call) (isEmpty call') := by
  refine .bind (sizeOfOperand_alike h) fun _ _ size size' hsize => ?_
  rw [hsize]
  exact .pure (.value (.bool _))

theorem alike_getD {value value' : Option Value}
    (h : Option.Rel (Value.Alike likeness link) value value') :
    (value.getD .nil).Alike likeness link (value'.getD .nil) := by
  cases h with
  | some h => exact h
  | none => exact .nil

theorem get_alike (h : call.Alike likeness link call') :
    Script.StepAlike likeness link (get call) (get call') := by
  rcases call with ⟨name, head, operands, scope⟩
  rcases call' with ⟨name', head', operands', scope'⟩
  rcases h.operands with _ | ⟨hfirst, _ | ⟨hsecond, _ | ⟨hmore, hrest⟩⟩⟩
  · exact h.arityMismatch _
  · exact h.arityMismatch _
  · refine .bind (h.value hfirst) fun link₁ hle₁ v v' hv => ?_
    cases hv with
    | map hentries =>
        refine .bind ((h.mono hle₁).value (hsecond.mono hle₁)) fun link₂ hle₂ k k' hk => ?_
        cases hk with
        | key key => exact .pure (.value (alike_getD ((hentries.mono hle₂).get? key)))
        | text name => exact .pure (.value (alike_getD ((hentries.mono hle₂).get? ⟨name⟩)))
        | _ =>
            exact (h.mono (hle₁.trans hle₂)).typeMismatch _ (by constructor <;> assumption)
    | _ => exact (h.mono hle₁).typeMismatch _ (by constructor <;> assumption)
  · exact h.arityMismatch _

theorem list_alike (h : call.Alike likeness link call') :
    Script.StepAlike likeness link (list call) (list call') :=
  .bind (.values h.operands h.scope) fun _ _ _ _ hvalues => .pure (.value (.list hvalues))

/-! ## Code and printing -/

theorem quote_alike (h : call.Alike likeness link call') :
    Script.StepAlike likeness link (quote call) (quote call') := by
  rcases call with ⟨name, head, operands, scope⟩
  rcases call' with ⟨name', head', operands', scope'⟩
  rcases h.operands with _ | ⟨hform, _ | ⟨hmore, hrest⟩⟩
  · exact h.arityMismatch _
  · exact .pure (.value hform)
  · exact h.arityMismatch _

theorem evaluate_alike (h : call.Alike likeness link call') :
    Script.StepAlike likeness link (evaluate call) (evaluate call') :=
  .bind h.single fun _ hle _ _ hv => (h.mono hle).tail hv

theorem read_alike (h : call.Alike likeness link call') :
    Script.StepAlike likeness link (read call) (read call') := by
  refine .bind h.single fun link₁ hle₁ v v' hv => ?_
  cases hv with
  | text source =>
      -- What is read from the same text is the same form on both sides, and it is inert.
      dsimp only
      split
      · next form hread => exact .pure (.value ((Reader.inert_of_readOne hread).alike _ _))
      · exact .fail _
  | _ => exact (h.mono hle₁).typeMismatch _ (by constructor <;> assumption)

theorem map_display_eq {values values' : List Value}
    (h : Value.AllAlike likeness link values values') :
    values.map Value.display = values'.map Value.display := by
  induction values generalizing values' with
  | nil =>
      cases h
      rfl
  | cons value rest ih =>
      rcases h with _ | ⟨hvalue, hrest⟩
      rw [List.map_cons, List.map_cons, hvalue.display_eq, ih hrest]

theorem print_alike (h : call.Alike likeness link call') :
    Script.StepAlike likeness link (print call) (print call') := by
  refine .bind (.values h.operands h.scope) fun _ _ vs vs' hvs => ?_
  rw [map_display_eq hvs]
  exact .bind (.print _) fun _ _ _ _ _ => .pure (.value .nil)

end Builtin

/-! ## All functions -/

/-- The functions of the host program that may occur carry out alike calls alike. -/
def Host.Respects (host : Host) (likeness : Likeness) : Prop :=
  ∀ name, likeness.operations (.host name) →
    ∀ link call call', Call.Alike likeness link call call' →
      Script.StepAlike likeness link (host.perform name call) (host.perform name call')

namespace HostFunction

variable {call call' : Call}

theorem now_alike (h : call.Alike likeness link call') :
    Script.StepAlike likeness link (now call) (now call') := by
  rcases call with ⟨name, head, operands, scope⟩
  rcases call' with ⟨name', head', operands', scope'⟩
  rcases h.operands with _ | ⟨hmore, hrest⟩
  · refine .bind .clock fun _ _ milliseconds milliseconds' hclock => ?_
    rw [hclock]
    exact .pure (.value (.number _))
  · exact h.arityMismatch _

theorem getenv_alike (h : call.Alike likeness link call') :
    Script.StepAlike likeness link (getenv call) (getenv call') := by
  refine .bind h.single fun link₁ hle₁ v v' hv => ?_
  cases hv with
  | text name =>
      refine .bind (.environmentVariable name) fun _ _ text text' htext => ?_
      subst htext
      cases text with
      | some text => exact .pure (.value (.text text))
      | none => exact .pure (.value .nil)
  | _ => exact (h.mono hle₁).typeMismatch _ (by constructor <;> assumption)

theorem tick_alike : Script.StepAlike likeness link (tick call) (tick call') := by
  refine .bind .tally fun _ _ count count' hcount => ?_
  rw [hcount]
  exact .pure (.value (.number _))

theorem raw_alike (h : call.Alike likeness link call') :
    Script.StepAlike likeness link (raw call) (raw call') :=
  .pure (.value (.list (.cons h.head h.operands)))

theorem oops_alike (h : call.Alike likeness link call') :
    Script.StepAlike likeness link (oops call) (oops call') := by
  rcases call with ⟨name, head, operands, scope⟩
  rcases call' with ⟨name', head', operands', scope'⟩
  rcases h.operands with _ | ⟨hform, hrest⟩
  · exact .fail _
  · refine .bind (h.value hform) fun _ _ v v' hv => ?_
    rw [hv.display_eq]
    exact .fail _

end HostFunction

theorem Host.standard_respects (likeness : Likeness) : Host.standard.Respects likeness := by
  intro name _ link call call' h
  rw [Host.standard, Host.ofTable]
  dsimp only
  cases hfunction : (HostFunction.worldly ++ HostFunction.probes).lookup name with
  | some function =>
      rcases List.lookup_eq_some_iff.mp hfunction with ⟨before, after, htable, _⟩
      -- The function is one of those in the tables, none of which looks into the store.
      have hmem : (name, function) ∈ HostFunction.worldly ++ HostFunction.probes := by
        rw [htable]
        simp
      simp only [HostFunction.worldly, HostFunction.probes, List.cons_append, List.nil_append,
        List.mem_cons, Prod.mk.injEq, List.not_mem_nil, or_false] at hmem
      rcases hmem with ⟨_, rfl⟩ | ⟨_, rfl⟩ | ⟨_, rfl⟩ | ⟨_, rfl⟩ | ⟨_, rfl⟩
      · exact HostFunction.now_alike h
      · exact HostFunction.getenv_alike h
      · exact HostFunction.tick_alike
      · exact HostFunction.raw_alike h
      · exact HostFunction.oops_alike h
  | none => exact .fail _

theorem Operation.perform_alike {host : Host} (hhost : host.Respects likeness)
    {operation : Operation} (hoperation : likeness.operations operation) {call call' : Call}
    (h : call.Alike likeness link call') :
    Script.StepAlike likeness link (operation.perform host call)
      (operation.perform host call') := by
  cases operation with
  | choose => exact Builtin.choose_alike h
  | inOrder => exact Builtin.inOrder_alike h
  | bindLocals => exact Builtin.bindLocals_alike h
  | conjoin => exact Builtin.conjoin_alike h
  | disjoin => exact Builtin.disjoin_alike h
  | raise => exact Builtin.raise_alike h
  | recover => exact Builtin.recover_alike h
  | define => exact Builtin.define_alike h
  | undefine => exact Builtin.undefine_alike h
  | defineFunction => exact Builtin.defineFunction_alike h
  | lambda => exact Builtin.lambda_alike h
  | add => exact Builtin.add_alike h
  | subtract => exact Builtin.subtract_alike h
  | multiply => exact Builtin.multiply_alike h
  | quotient => exact Builtin.quotient_alike h
  | remainder => exact Builtin.remainder_alike h
  | divide => exact Builtin.divide_alike h
  | compare comparison => exact Builtin.compare_alike comparison h
  | test predicate => exact Builtin.test_alike predicate h
  | kindOf => exact Builtin.kindOf_alike h
  | equal => exact Builtin.equal_alike h
  | count => exact Builtin.count_alike h
  | isEmpty => exact Builtin.isEmpty_alike h
  | get => exact Builtin.get_alike h
  | list => exact Builtin.list_alike h
  | map => exact Builtin.map_alike h
  | apply => exact Builtin.apply_alike h
  | quote => exact Builtin.quote_alike h
  | evaluate => exact Builtin.evaluate_alike h
  | read => exact Builtin.read_alike h
  | async => exact Builtin.async_alike h
  | wait => exact Builtin.wait_alike h
  | print => exact Builtin.print_alike h
  | host name => exact hhost name hoperation link call call' h

/-- Calls of alike functions with alike operands go alike. -/
theorem Func.Alike.enter {host : Host} (hhost : host.Respects likeness) {func func' : Func}
    (hfunc : func.Alike likeness link func') {head head' : Value} {operands operands' : List Value}
    {scope scope' : Scope} (hhead : head.Alike likeness link head')
    (hoperands : Value.AllAlike likeness link operands operands')
    (hscope : scope.Alike link scope') :
    Script.StepAlike likeness link (func.enter host head operands scope)
      (func'.enter host head' operands' scope') := by
  cases hfunc with
  | native hoperation =>
      exact Operation.perform_alike hhost hoperation ⟨rfl, hhead, hoperands, hscope⟩
  | closure hparams hbody hinner =>
      exact Builtin.enterClosure_alike hparams hbody hinner hoperands hscope

/-! ## Forms -/

theorem Entries.mapM_alike {entries entries' : List (Key × Value)} {scope scope' : Scope}
    (hentries : Entries.Alike likeness link entries entries') (hscope : scope.Alike link scope') :
    Script.Alike likeness (Entries.Alike likeness) link
      (entries.mapM fun entry => do
        let value ← Script.value entry.2 scope
        pure (entry.1, value))
      (entries'.mapM fun entry => do
        let value ← Script.value entry.2 scope'
        pure (entry.1, value)) := by
  induction entries generalizing link entries' with
  | nil =>
      cases hentries
      exact .pure .nil
  | cons entry rest ih =>
      rcases hentries with _ | ⟨hvalue, hrest⟩
      rw [List.mapM_cons, List.mapM_cons, bind_assoc, bind_assoc]
      refine .bind (.value hvalue hscope) fun link₁ hle₁ v v' hv => ?_
      rw [pure_bind, pure_bind]
      refine .bind (ih (hrest.mono hle₁) (hscope.mono hle₁)) fun link₂ hle₂ vs vs' hvs => ?_
      exact .pure (.cons (hv.mono hle₂) hvs)

/-- Alike forms in corresponding scopes take alike steps. -/
theorem Form.step_alike {form form' : Value} {scope scope' : Scope}
    (hform : form.Alike likeness link form') (hscope : scope.Alike link scope') :
    Script.StepAlike likeness link (Form.step form scope) (Form.step form' scope') := by
  cases hform with
  | symbol hsymbol =>
      simp only [Form.step, hsymbol.1]
      exact .lookup _ hscope
  | list hitems =>
      rcases hitems with _ | ⟨hhead, hoperands⟩
      · exact .pure (.value .nil)
      · refine .bind (.value hhead hscope) fun link₁ hle₁ v v' hv => ?_
        -- A head that is no function stands in front of the values of the operands.
        have hdata : ∀ {data data' : Value}, data.Alike likeness link₁ data' →
            Script.StepAlike likeness link₁
              (do
                let values ← Script.values _ scope
                pure (.vector (data :: values)))
              (do
                let values ← Script.values _ scope'
                pure (.vector (data' :: values))) := fun hdata =>
          .bind (.values (hoperands.mono hle₁) (hscope.mono hle₁)) fun _ hle₂ _ _ hvs =>
            .pure (.value (.vector (.cons (hdata.mono hle₂) hvs)))
        cases hv with
        | func hfunc =>
            exact .pure (.suspended (.call hfunc (hhead.mono hle₁) (hoperands.mono hle₁)
              (hscope.mono hle₁)))
        | _ => exact hdata (by constructor <;> assumption)
  | vector hitems =>
      exact .bind (.values hitems hscope) fun _ _ _ _ hvs => .pure (.value (.vector hvs))
  | map hentries =>
      exact .bind (Entries.mapM_alike hentries hscope) fun _ _ _ _ hvs =>
        .pure (.value (.map hvs))
  | _ => exact .pure (.value (by constructor <;> assumption))

/-! ## Programs -/

/-- Forms that are inert are alike themselves, and so are their values. -/
theorem Program.evaluateAll_alike {forms : List Value} (hforms : ∀ form ∈ forms, form.Inert)
    {scope : Scope} (hscope : scope.Alike link scope) {last last' : Value}
    (hlast : last.Alike likeness link last') :
    Script.Alike likeness (Value.Alike likeness) link (Program.evaluateAll scope last forms)
      (Program.evaluateAll scope last' forms) := by
  induction forms generalizing link last last' with
  | nil => exact .pure hlast
  | cons form rest ih =>
      have hform := (hforms form List.mem_cons_self).alike likeness link
      have hrest : ∀ form ∈ rest, form.Inert := fun form hmem =>
        hforms form (List.mem_cons_of_mem _ hmem)
      refine .bind (.value hform hscope) fun link' hle value value' hvalue => ?_
      exact ih hrest (hscope.mono hle) hvalue

/-- Programs are alike themselves in every scope. -/
theorem Program.evaluate_alike (source : String) {scope : Scope} (hscope : scope.Alike link scope) :
    Script.Alike likeness (Value.Alike likeness) link (Program.evaluate source scope)
      (Program.evaluate source scope) := by
  rw [Program.evaluate]
  split
  · next forms hread => exact evaluateAll_alike (Reader.inert_of_readAll hread) hscope .nil
  · exact .fail _

/-! ## Tasks of the machine -/

/-- Alike scripts, or alike work. -/
inductive Machine.Control.Alike (likeness : Likeness) (link : Link) :
    Machine.Control → Machine.Control → Prop where
  | run {script script' : Script Value} :
      Script.StepAlike likeness link script script' →
        Machine.Control.Alike likeness link (.run script) (.run script')
  | resume {work work' : Suspension} :
      work.Alike likeness link work' →
        Machine.Control.Alike likeness link (.resume work) (.resume work')

end LazyLisp
