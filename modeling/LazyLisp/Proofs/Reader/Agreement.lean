import LazyLisp.Proofs.Reader.First
import LazyLisp.Proofs.Reader.Relocate

/-!
# Agreement — one form against all forms

A source text can be read as the only form in it, or as all forms in it.  Both cut the text into tokens
first, and both take the tokens in the same order; but where one form is asked for, nothing is looked
at behind the token that completes it, apart from whether there is a token at all.  This file defines:

* `Fails`, that a row of tokens cannot be read, with the number of forms that are complete by then;
* `Begins`, what the first form of a row comes to.

Main results: `begins_firstForm`, and `readOne_against_readAll`, which gives the result of reading one
form in terms of that of reading all forms.
-/

namespace LazyLisp
namespace Reader

/-! ## Rows that cannot be read -/

/-- Going on from `progress`, the row fails with `error` where `n` forms are complete: a token does not
fit, or the row stops too early. -/
inductive Fails : Progress → List Token → Nat → Error → Prop where
  | finish {progress : Progress} {error : Error} :
      progress.finish = .error error → Fails progress [] progress.forms.length error
  | token {progress : Progress} {token : Token} {error : Error} (rest : List Token) :
      progress.step token = .error error →
        Fails progress (token :: rest) progress.forms.length error
  | later {progress next : Progress} {token : Token} {rest : List Token} {n : Nat} {error : Error} :
      progress.step token = .ok next → Fails next rest n error →
        Fails progress (token :: rest) n error

theorem exists_fails_iff {progress : Progress} {row : List Token} {error : Error} :
    row.foldlM Progress.step progress >>= Progress.finish = .error error ↔
      ∃ n, Fails progress row n error := by
  induction row generalizing progress with
  | nil =>
      constructor
      · intro h
        exact ⟨_, .finish h⟩
      · rintro ⟨n, ⟨h⟩⟩
        exact h
  | cons token rest ih =>
      rw [List.foldlM_cons, bind_assoc]
      cases hstep : progress.step token with
      | error misfit =>
          constructor
          · intro h
            cases h
            exact ⟨_, .token rest hstep⟩
          · rintro ⟨n, h⟩
            cases h with
            | token _ h =>
                cases hstep.symm.trans h
                rfl
            | later h _ => cases hstep.symm.trans h
      | ok next =>
          refine Iff.trans ih ⟨?_, ?_⟩
          · rintro ⟨n, h⟩
            exact ⟨n, .later hstep h⟩
          · rintro ⟨n, h⟩
            cases h with
            | token _ h => cases hstep.symm.trans h
            | later h hrest =>
                cases hstep.symm.trans h
                exact ⟨n, hrest⟩

namespace Fails

variable {progress : Progress} {row : List Token} {n m : Nat} {error other : Error}

/-- A row fails at one place only. -/
theorem unique (h : Fails progress row n error) (h' : Fails progress row m other) :
    n = m ∧ error = other := by
  induction h with
  | finish h =>
      cases h' with
      | finish h' => exact ⟨rfl, Except.error.inj (h.symm.trans h')⟩
  | token rest h =>
      cases h' with
      | token _ h' => exact ⟨rfl, Except.error.inj (h.symm.trans h')⟩
      | later h' _ => cases h.symm.trans h'
  | later h _ ih =>
      cases h' with
      | token _ h' => cases h.symm.trans h'
      | later h' hrest =>
          cases h.symm.trans h'
          exact ih hrest

/-- Complete forms stay complete. -/
theorem length_le (h : Fails progress row n error) : progress.forms.length ≤ n := by
  induction h with
  | finish | token => exact le_rfl
  | @later progress next _ _ n _ hstep _ ih =>
      have hbegun : next.begun = progress.forms.length + 1 := begun_step hstep
      have hle : next.begun ≤ next.forms.length + 1 := begun_le next
      omega

theorem append {front : List Token} {next : Progress}
    (hfront : front.foldlM Progress.step progress = .ok next) (h : Fails next row n error) :
    Fails progress (front ++ row) n error := by
  induction front generalizing progress with
  | nil =>
      cases hfront
      exact h
  | cons token rest ih =>
      rw [List.foldlM_cons] at hfront
      obtain ⟨middle, hstep, hrest⟩ := exists_of_bind_eq_ok hfront
      exact .later hstep (ih hrest)

theorem of_append {front : List Token} {next : Progress}
    (hfront : front.foldlM Progress.step progress = .ok next)
    (h : Fails progress (front ++ row) n error) : Fails next row n error := by
  induction front generalizing progress with
  | nil =>
      cases hfront
      exact h
  | cons token rest ih =>
      rw [List.foldlM_cons] at hfront
      obtain ⟨middle, hstep, hrest⟩ := exists_of_bind_eq_ok hfront
      cases h with
      | token _ h => cases hstep.symm.trans h
      | later h hlater =>
          cases hstep.symm.trans h
          exact ih hrest hlater

end Fails

/-! ## The first form of a row -/

/-- What the first form of a row comes to, where none is complete yet: no form in an empty row; the
form that the tokens in front complete; or a failure. -/
inductive Begins : Progress → List Token → Except Error (Option Value × List Token) → Prop where
  | nothing {progress : Progress} :
      progress.opened = [] → Begins progress [] (.ok (none, []))
  | form {progress : Progress} {front later : List Token} {form : Value} :
      front.foldlM Progress.step progress = .ok ⟨[], [form]⟩ →
        Begins progress (front ++ later) (.ok (some form, later))
  | fails {progress : Progress} {row : List Token} {error : Error} :
      Fails progress row 0 error → Begins progress row (.error error)

theorem Begins.cons {progress next : Progress} {token : Token} {rest : List Token}
    {result : Except Error (Option Value × List Token)} (hstep : progress.step token = .ok next)
    (hopen : next.opened ≠ []) (h : Begins next rest result) :
    Begins progress (token :: rest) result := by
  cases h with
  | nothing hclosed => exact absurd hclosed hopen
  | @form front later form hfront =>
      have hall : (token :: front).foldlM Progress.step progress = .ok ⟨[], [form]⟩ := by
        rw [List.foldlM_cons, hstep]
        exact hfront
      exact .form hall
  | fails hrest => exact .fails (.later hstep hrest)

theorem begins_firstForm {progress : Progress} (hforms : progress.forms = []) (row : List Token) :
    Begins progress row (firstForm progress row) := by
  induction row generalizing progress with
  | nil =>
      rw [firstForm]
      cases hfinish : progress.finish with
      | error error =>
          have hfails := Fails.finish hfinish
          rw [hforms] at hfails
          exact .fails hfails
      | ok forms =>
          rcases progress with ⟨_ | ⟨⟨_ | _, position⟩, rest⟩, read⟩
          · cases hforms
            cases hfinish
            exact .nothing rfl
          · cases hfinish
          · cases hfinish
  | cons token rest ih =>
      rw [firstForm]
      cases hstep : progress.step token with
      | error error =>
          have hfails := Fails.token rest hstep
          rw [hforms] at hfails
          exact .fails hfails
      | ok next =>
          -- One form is begun now.  It is complete, or still open with none before it.
          have hbegun : next.begun = 1 := by
            rw [begun_step hstep, hforms, List.length_nil]
          rcases next with ⟨_ | ⟨entry, opened⟩, _ | ⟨form, forms⟩⟩
          · simp [Progress.begun] at hbegun
          · cases forms with
            | nil =>
                have hone : [token].foldlM Progress.step progress = .ok ⟨[], [form]⟩ := by
                  rw [List.foldlM_cons, hstep]
                  rfl
                exact .form hone
            | cons other others => simp [Progress.begun] at hbegun
          · exact Begins.cons hstep (List.cons_ne_nil _ _) (ih rfl)
          · simp [Progress.begun] at hbegun

theorem begins_firstForm_start (row : List Token) : Begins .start row (firstForm .start row) :=
  begins_firstForm rfl row

/-- The tokens that complete one form derive it. -/
theorem exists_tree_of_foldlM {front : List Token} {form : Value}
    (h : front.foldlM Progress.step .start = .ok ⟨[], [form]⟩) :
    ∃ tree : Tree, front = tree.tokens ∧ tree.value = form := by
  have hforms : formsOf front = .ok [form] := by
    rw [formsOf, h]
    rfl
  obtain ⟨trees, rfl, hvalues⟩ := formsOf_eq_ok_iff.mp hforms
  obtain ⟨tree, rfl, rfl⟩ := List.map_eq_singleton_iff.mp hvalues
  exact ⟨tree, by simp [Tree.allTokens], rfl⟩

theorem foldlM_tokens (tree : Tree) :
    tree.tokens.foldlM Progress.step .start = .ok ⟨[], [tree.value]⟩ :=
  foldlM_of_formsOf (formsOf_tokens tree)

/-- A form has a first token. -/
theorem exists_tokens_eq_cons (tree : Tree) : ∃ token later, tree.tokens = token :: later := by
  refine List.exists_cons_of_ne_nil ?_
  intro hempty
  have hfold := foldlM_tokens tree
  rw [hempty] at hfold
  cases hfold

/-- Tokens behind one complete form begin another one. -/
theorem nil_of_foldlM {form other : Value} {row : List Token}
    (h : row.foldlM Progress.step ⟨[], [form]⟩ = .ok ⟨[], [other]⟩) : row = [] := by
  cases row with
  | nil => rfl
  | cons token rest =>
      rw [List.foldlM_cons] at h
      obtain ⟨next, hstep, hrest⟩ := exists_of_bind_eq_ok h
      have htwo : next.begun = 2 := begun_step hstep
      have hle : next.begun ≤ 1 := begun_foldlM hrest
      omega

/-- No row has two first forms, since no form begins another one. -/
theorem eq_of_tokens_append {tree other : Tree} {later behind : List Token}
    (h : tree.tokens ++ later = other.tokens ++ behind) : tree = other ∧ later = behind := by
  -- If one of the two is longer, the tokens that it has behind the other one are none.
  have hnil : ∀ {tree other : Tree} {more : List Token},
      other.tokens = tree.tokens ++ more → more = [] := by
    intro tree other more heq
    have hother := foldlM_tokens other
    rw [heq, List.foldlM_append, foldlM_tokens tree] at hother
    exact nil_of_foldlM hother
  have hlater : later = behind := by
    rcases List.append_eq_append_iff.mp h with ⟨more, heq, rfl⟩ | ⟨more, heq, rfl⟩
    · rw [hnil heq, List.nil_append]
    · rw [hnil heq, List.nil_append]
  subst hlater
  have htokens : Tree.allTokens [tree] = Tree.allTokens [other] := by
    simpa [Tree.allTokens] using h
  exact ⟨List.singleton_inj.mp (eq_of_allTokens_eq htokens), rfl⟩

/-- A form in front is complete, whatever fails behind it. -/
theorem Fails.pos_of_tokens {tree : Tree} {later : List Token} {n : Nat} {error : Error}
    (h : Fails .start (tree.tokens ++ later) n error) : 0 < n :=
  (h.of_append (foldlM_tokens tree)).length_le

/-- The first form ends where its tokens end. -/
theorem firstForm_tokens_append (tree : Tree) (later : List Token) :
    firstForm .start (tree.tokens ++ later) = .ok (some tree.value, later) := by
  generalize hrow : tree.tokens ++ later = row
  have hbegins := begins_firstForm_start row
  generalize firstForm .start row = result at hbegins ⊢
  cases hbegins with
  | nothing =>
      obtain ⟨token, rest, htokens⟩ := exists_tokens_eq_cons tree
      rw [htokens] at hrow
      cases hrow
  | fails hfails =>
      rw [← hrow] at hfails
      exact absurd hfails.pos_of_tokens (Nat.lt_irrefl 0)
  | form hfront =>
      obtain ⟨other, rfl, rfl⟩ := exists_tree_of_foldlM hfront
      obtain ⟨rfl, rfl⟩ := eq_of_tokens_append hrow
      rfl

/-- Behind a complete form that is not the last thing, there is a token. -/
theorem exists_front_of_fails {row : List Token} {n : Nat} {error : Error}
    (h : Fails .start row (n + 1) error) :
    ∃ (tree : Tree) (token : Token) (later : List Token), row = tree.tokens ++ token :: later := by
  have hbegins := begins_firstForm_start row
  generalize firstForm .start row = result at hbegins
  cases hbegins with
  | nothing => cases h
  | fails hfails => cases (hfails.unique h).1
  | @form front later _ hfront =>
      cases later with
      | nil =>
          -- Nothing is open behind the form, so the row is read.
          cases h.of_append hfront with
          | finish h => cases h
      | cons token later =>
          obtain ⟨tree, rfl, -⟩ := exists_tree_of_foldlM hfront
          exact ⟨tree, token, later, rfl⟩

/-! ## Source text -/

section Source

variable {source : String} {row : List Token} {error : Error}

theorem readAll_of_tokens_ok (h : tokens source = .ok row) : readAll source = formsOf row := by
  rw [readAll, h]
  rfl

theorem readOne_of_fails (h : tokens source = .ok row) (hfails : Fails .start row 0 error) :
    readOne source = .error error := by
  have hbegins := begins_firstForm_start row
  generalize hfirst : firstForm .start row = result at hbegins
  have hresult : result = .error error := by
    cases hbegins with
    | nothing =>
        cases hfails with
        | finish hfinish => cases hfinish
    | fails hother => rw [(hfails.unique hother).2]
    | form hfront => cases (hfails.of_append hfront).length_le
  rw [readOne, h]
  simp only [bind, Except.bind, hfirst, hresult]

/-- Where one form is asked for, the failure is that of the first form, or there is too much. -/
theorem fails_of_readOne (h : tokens source = .ok row) (hread : readOne source = .error error) :
    error.flaw = .trailingInput ∨ Fails .start row 0 error := by
  have hbegins := begins_firstForm_start row
  generalize hfirst : firstForm .start row = result at hbegins
  rw [readOne, h] at hread
  simp only [bind, Except.bind, hfirst] at hread
  cases hbegins with
  | nothing => cases hread
  | fails hfails =>
      cases hread
      exact .inr hfails
  | @form _ later _ _ =>
      cases later with
      | nil => cases hread
      | cons token rest =>
          cases hread
          exact .inl rfl

theorem readOne_of_tokens_append {tree : Tree} {token : Token} {later : List Token}
    (h : tokens source = .ok (tree.tokens ++ token :: later)) :
    readOne source = .error ⟨.trailingInput, token.position⟩ := by
  rw [readOne, h]
  simp only [bind, Except.bind, firstForm_tokens_append]

/-- The only form of a text is read where one form is asked for, and nil if there is none. -/
theorem readOne_of_readAll {form : Value}
    (h : readAll source = .ok [form] ∨ readAll source = .ok [] ∧ form = .nil) :
    readOne source = .ok form := by
  rcases h with h | ⟨h, rfl⟩
  · obtain ⟨row, hrow, hforms⟩ := exists_of_bind_eq_ok h
    have hfirst : firstForm .start row = .ok (some form, []) := firstForm_of_finish hforms
    rw [readOne, hrow]
    simp only [bind, Except.bind, hfirst]
    rfl
  · obtain ⟨row, hrow, hforms⟩ := exists_of_bind_eq_ok h
    obtain ⟨trees, rfl, htrees⟩ := formsOf_eq_ok_iff.mp hforms
    obtain rfl := List.map_eq_nil_iff.mp htrees
    rw [readOne, hrow]
    rfl

end Source

/-- The results of reading one form and of reading all forms, for any source text.

* One form is read exactly if it is the only one, and nil if there is none.
* A text that cannot be cut into tokens fails alike.
* Where there are more forms than one, the first token of the second one is too much.
* Where all forms cannot be read, the failure is behind some number of complete forms.  If there are
  none, it is that of reading one form, and no form stands in front.  Otherwise a form stands in front,
  and the first token behind it is too much.

A row of tokens has one first form at most. -/
theorem readOne_against_readAll (source : String) :
    (∀ form, readOne source = .ok form ↔
      readAll source = .ok [form] ∨ readAll source = .ok [] ∧ form = .nil) ∧
    (∀ error, tokens source = .error error →
      readOne source = .error error ∧ readAll source = .error error) ∧
    (∀ first second others, readAll source = .ok (first :: second :: others) →
      ∃ (one two : Tree) (trees : List Tree) (token : Token) (later : List Token),
        tokens source = .ok (one.tokens ++ token :: later) ∧
          token :: later = two.tokens ++ Tree.allTokens trees ∧
          one.value = first ∧ two.value = second ∧ trees.map Tree.value = others ∧
          readOne source = .error ⟨.trailingInput, token.position⟩) ∧
    ∀ row, tokens source = .ok row →
      (∀ error, readAll source = .error error ↔ ∃ n, Fails .start row n error) ∧
      (∀ n m error other, Fails .start row n error → Fails .start row m other → n = m) ∧
      (∀ (one other : Tree) later behind,
        row = one.tokens ++ later → row = other.tokens ++ behind → one = other) ∧
      (∀ error, Fails .start row 0 error →
        readOne source = .error error ∧ ∀ (tree : Tree) later, row ≠ tree.tokens ++ later) ∧
      ∀ n error, Fails .start row (n + 1) error →
        ∃ (one : Tree) (token : Token) (later : List Token), row = one.tokens ++ token :: later ∧
          readOne source = .error ⟨.trailingInput, token.position⟩ := by
  refine ⟨?_, ?_, ?_, ?_⟩
  · intro form
    exact ⟨readAll_of_readOne, readOne_of_readAll⟩
  · intro error htokens
    constructor
    · rw [readOne, htokens]
      rfl
    · rw [readAll, htokens]
      rfl
  · intro first second others hread
    obtain ⟨row, hrow, hforms⟩ := exists_of_bind_eq_ok hread
    obtain ⟨trees, rfl, htrees⟩ := formsOf_eq_ok_iff.mp hforms
    obtain ⟨one, rest, rfl, rfl, hrest⟩ := List.map_eq_cons_iff.mp htrees
    obtain ⟨two, more, rfl, rfl, hmore⟩ := List.map_eq_cons_iff.mp hrest
    obtain ⟨token, rest, htoken⟩ := exists_tokens_eq_cons two
    have hlater : token :: (rest ++ Tree.allTokens more) = two.tokens ++ Tree.allTokens more := by
      rw [htoken, List.cons_append]
    have hsplit : tokens source = .ok (one.tokens ++ token :: (rest ++ Tree.allTokens more)) := by
      rw [hrow, hlater]
      rfl
    exact ⟨one, two, more, token, _, hsplit, hlater, rfl, rfl, hmore,
      readOne_of_tokens_append hsplit⟩
  · intro row hrow
    refine ⟨?_, ?_, ?_, ?_, ?_⟩
    · intro error
      rw [readAll_of_tokens_ok hrow]
      exact exists_fails_iff
    · intro n m error other hfails hother
      exact (hfails.unique hother).1
    · intro one other later behind hone hother
      exact (eq_of_tokens_append (hone.symm.trans hother)).1
    · intro error hfails
      refine ⟨readOne_of_fails hrow hfails, ?_⟩
      rintro tree later rfl
      exact absurd hfails.pos_of_tokens (Nat.lt_irrefl 0)
    · intro n error hfails
      obtain ⟨one, token, later, rfl⟩ := exists_front_of_fails hfails
      exact ⟨one, token, later, rfl, readOne_of_tokens_append hrow⟩

/-- A bracket that does not fit, in the first form and behind it. -/
theorem readOne_against_readAll_bracket :
    readOne "(a ]) b" = .error ⟨.unexpectedToken "]", ⟨1, 4, 3⟩⟩ ∧
    (∃ (one : Tree) (token : Token) (later : List Token),
      tokens "(a) [b)" = .ok (one.tokens ++ token :: later) ∧
        readOne "(a) [b)" = .error ⟨.trailingInput, token.position⟩) := by
  have hinside : tokens "(a ]) b" =
      .ok [⟨.opening .paren, ⟨1, 1, 0⟩⟩, ⟨.symbol ['a'], ⟨1, 2, 1⟩⟩, ⟨.closing .bracket, ⟨1, 4, 3⟩⟩,
        ⟨.closing .paren, ⟨1, 5, 4⟩⟩, ⟨.symbol ['b'], ⟨1, 7, 6⟩⟩] := by
    cbv
  have hbehind : tokens "(a) [b)" =
      .ok [⟨.opening .paren, ⟨1, 1, 0⟩⟩, ⟨.symbol ['a'], ⟨1, 2, 1⟩⟩, ⟨.closing .paren, ⟨1, 3, 2⟩⟩,
        ⟨.opening .bracket, ⟨1, 5, 4⟩⟩, ⟨.symbol ['b'], ⟨1, 6, 5⟩⟩,
        ⟨.closing .paren, ⟨1, 7, 6⟩⟩] := by
    cbv
  constructor
  · refine (((readOne_against_readAll _).2.2.2 _ hinside).2.2.2.1 _ ?_).1
    exact .later rfl (.later rfl (.token _ rfl))
  · obtain ⟨one, token, later, hrow, hread⟩ :=
      ((readOne_against_readAll _).2.2.2 _ hbehind).2.2.2.2 0 ⟨.unexpectedToken ")", ⟨1, 7, 6⟩⟩
        (.later rfl (.later rfl (.later rfl (.later rfl (.later rfl (.token _ rfl))))))
    exact ⟨one, token, later, hbehind.trans (congrArg Except.ok hrow), hread⟩

end Reader
end LazyLisp
