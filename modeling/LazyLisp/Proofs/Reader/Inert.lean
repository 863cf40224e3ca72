import LazyLisp.Proofs.Alike.Value
import LazyLisp.Proofs.Value.Entries
import LazyLisp.Reader.Forms

/-!
# Inert — what the reader reads refers to no store

Source text has no way to write down a function or suspended work, so every form that the reader
makes of it is inert data.  One token at a time: what is complete and what is still open hold inert
forms only (`Reader.Progress.Inert`), and no token changes that (`Reader.Progress.inert_step`).

Main results: `Reader.inert_of_readAll` and `Reader.inert_of_readOne`.
-/

namespace LazyLisp

namespace Reader

/-! ## Complete forms -/

theorem inert_of_mapEntries {items : List Value} (hitems : ∀ item ∈ items, item.Inert)
    {pairs : List (Key × Value)} (h : mapEntries items = .ok pairs) :
    ∀ pair ∈ pairs, pair.2.Inert := by
  fun_induction mapEntries items generalizing pairs with
  | case1 =>
      cases h
      simp
  | case2 => cases h
  | case3 key value rest ih | case4 name value rest ih =>
      cases hrest : mapEntries rest with
      | error flaw => simp [hrest] at h
      | ok others =>
          simp only [hrest, Except.map_ok, Except.ok.injEq] at h
          subst h
          intro pair hpair
          rcases List.mem_cons.mp hpair with rfl | hmem
          · exact hitems _ (by simp)
          · exact ih (fun item hitem => hitems item (by simp [hitem])) hrest pair hmem
  | case5 => cases h

theorem inert_of_closeForm {delimiter : Delimiter} {items : List Value}
    (hitems : ∀ item ∈ items, item.Inert) {form : Value}
    (h : closeForm delimiter items = .ok form) : form.Inert := by
  cases delimiter with
  | paren =>
      cases h
      exact .list hitems
  | bracket =>
      cases h
      exact .vector hitems
  | brace =>
      simp only [closeForm] at h
      split at h
      · cases h
      · cases hentries : mapEntries items with
        | error flaw => simp [hentries] at h
        | ok pairs =>
            simp only [hentries, Except.map_ok, Except.ok.injEq] at h
            subst h
            exact .map fun entry hentry =>
              inert_of_mapEntries hitems hentries entry (Entries.mem_of_mem_ofList hentry)

theorem inert_of_numberForm {digits : List Char} {form : Value}
    (h : numberForm digits = .ok form) : form.Inert := by
  simp only [numberForm] at h
  split at h <;> cases h
  exact .number _

theorem inert_of_textForm {body : List Char} {form : Value} (h : textForm body = .ok form) :
    form.Inert := by
  simp only [textForm] at h
  split at h <;> cases h
  exact .text _

/-! ## Progress -/

/-- The forms inside an open bracket are inert. -/
def Opening.Inert : Opening → Prop
  | .delimiter _ items => ∀ item ∈ items, item.Inert
  | .quoteMark => True

/-- All forms that have been read so far are inert. -/
structure Progress.Inert (progress : Progress) : Prop where
  opened : ∀ entry ∈ progress.opened, entry.1.Inert
  forms : ∀ form ∈ progress.forms, form.Inert

namespace Progress

theorem inert_start : Progress.start.Inert := ⟨by simp [start], by simp [start]⟩

theorem inert_deliver {form : Value} (hform : form.Inert) {forms : List Value}
    {opened : List (Opening × Position)} (h : Progress.Inert ⟨opened, forms⟩) :
    (deliver form forms opened).Inert := by
  -- By induction on what is open: a form that completes a quote is delivered in turn.
  induction opened generalizing form with
  | nil =>
      refine ⟨h.opened, fun other hmem => ?_⟩
      rcases List.mem_cons.mp hmem with rfl | hforms
      · exact hform
      · exact h.forms other hforms
  | cons entry rest ih =>
      obtain ⟨opening, position⟩ := entry
      have hrest : Progress.Inert ⟨rest, forms⟩ :=
        ⟨fun other hmem => h.opened other (List.mem_cons_of_mem _ hmem), h.forms⟩
      cases opening with
      | delimiter delimiter items =>
          refine ⟨fun other hmem => ?_, h.forms⟩
          rcases List.mem_cons.mp hmem with rfl | hother
          · intro item hitem
            rcases List.mem_cons.mp hitem with rfl | hitems
            · exact hform
            · exact h.opened _ List.mem_cons_self item hitems
          · exact hrest.opened other hother
      | quoteMark =>
          refine ih (.list ?_) hrest
          intro item hitem
          rcases List.mem_cons.mp hitem with rfl | hitem
          · exact .symbol _
          · rw [List.mem_singleton.mp hitem]
            exact hform

theorem inert_push {progress : Progress} (h : progress.Inert) {opening : Opening}
    (hopening : opening.Inert) (position : Position) :
    (progress.push opening position).Inert := by
  refine ⟨fun entry hmem => ?_, h.forms⟩
  rcases List.mem_cons.mp hmem with rfl | hrest
  · exact hopening
  · exact h.opened entry hrest

/-- Every token keeps what has been read inert. -/
theorem inert_step {progress : Progress} (h : progress.Inert) {token : Token}
    {progress' : Progress} (hstep : progress.step token = .ok progress') : progress'.Inert := by
  rcases token with ⟨lexeme, position⟩
  cases lexeme with
  | opening delimiter =>
      cases hstep
      exact inert_push h (by simp [Opening.Inert]) _
  | quoteMark =>
      cases hstep
      exact inert_push h (by simp [Opening.Inert]) _
  | number digits =>
      simp only [step] at hstep
      split at hstep <;> cases hstep
      next form hform => exact inert_deliver (inert_of_numberForm hform) h
  | text body =>
      simp only [step] at hstep
      split at hstep <;> cases hstep
      next form hform => exact inert_deliver (inert_of_textForm hform) h
  | openText body => cases hstep
  | key name =>
      cases hstep
      exact inert_deliver (.key _) h
  | symbol name =>
      cases hstep
      exact inert_deliver (.symbol _) h
  | closing delimiter =>
      simp only [step] at hstep
      split at hstep
      · next opened items openedAt rest hopened =>
          -- The items of the closed bracket were read before, the latest of them first.
          have hitems : ∀ item ∈ items.reverse, item.Inert := fun item hitem =>
            h.opened (.delimiter opened items, openedAt) (by simp [hopened]) item
              (List.mem_reverse.mp hitem)
          have hrest : Progress.Inert { progress with opened := rest } :=
            ⟨fun entry hmem => h.opened entry (by simp [hopened, hmem]), h.forms⟩
          split at hstep
          · split at hstep <;> cases hstep
            next form hform => exact inert_deliver (inert_of_closeForm hitems hform) hrest
          · cases hstep
      · cases hstep

theorem inert_finish {progress : Progress} (h : progress.Inert) {forms : List Value}
    (hfinish : progress.finish = .ok forms) : ∀ form ∈ forms, form.Inert := by
  simp only [finish] at hfinish
  split at hfinish <;> cases hfinish
  exact fun form hmem => h.forms form (List.mem_reverse.mp hmem)

end Progress

/-! ## Reading source text -/

/-- A sequence of two steps that succeeds does so in both. -/
theorem exists_of_bind_eq_ok {α β : Type} {first : Except Error α} {next : α → Except Error β}
    {b : β} (h : first >>= next = .ok b) : ∃ a, first = .ok a ∧ next a = .ok b := by
  cases first with
  | error error => cases h
  | ok a => exact ⟨a, rfl, h⟩

theorem inert_of_foldlM {tokens : List Token} {progress progress' : Progress}
    (h : progress.Inert) (hfold : tokens.foldlM Progress.step progress = .ok progress') :
    progress'.Inert := by
  induction tokens generalizing progress with
  | nil =>
      cases hfold
      exact h
  | cons token rest ih =>
      rw [List.foldlM_cons] at hfold
      rcases exists_of_bind_eq_ok hfold with ⟨next, hstep, hrest⟩
      exact ih (Progress.inert_step h hstep) hrest

theorem inert_of_readAll {source : String} {forms : List Value} (h : readAll source = .ok forms) :
    ∀ form ∈ forms, form.Inert := by
  rcases exists_of_bind_eq_ok h with ⟨tokens, _, hforms⟩
  rcases exists_of_bind_eq_ok hforms with ⟨progress, hfold, hfinish⟩
  exact Progress.inert_finish (inert_of_foldlM Progress.inert_start hfold) hfinish

theorem inert_of_firstForm {tokens : List Token} {progress : Progress} (h : progress.Inert)
    {form : Value} {rest : List Token}
    (hfirst : firstForm progress tokens = .ok (some form, rest)) : form.Inert := by
  induction tokens generalizing progress with
  | nil =>
      simp only [firstForm] at hfirst
      cases hfinish : progress.finish with
      | error error => simp [hfinish] at hfirst
      | ok forms =>
          simp only [hfinish, Except.map_ok, Except.ok.injEq, Prod.mk.injEq] at hfirst
          exact Progress.inert_finish h hfinish form (List.mem_of_head? hfirst.1)
  | cons token tokens ih =>
      simp only [firstForm] at hfirst
      split at hfirst
      · cases hfirst
      · next first others hstep =>
          cases hfirst
          exact (Progress.inert_step h hstep).forms form List.mem_cons_self
      · next next hstep => exact ih (Progress.inert_step h hstep) hfirst

theorem inert_of_readOne {source : String} {form : Value} (h : readOne source = .ok form) :
    form.Inert := by
  rcases exists_of_bind_eq_ok h with ⟨tokens, _, hfirst⟩
  rcases exists_of_bind_eq_ok hfirst with ⟨⟨_ | first, _ | ⟨token, rest⟩⟩, hform, hread⟩
  -- Text without any form reads as nil.
  · cases hread
    exact .nil
  · cases hread
  · cases hread
    exact inert_of_firstForm Progress.inert_start hform
  · cases hread

end Reader
end LazyLisp
