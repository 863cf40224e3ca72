import LazyLisp.Proofs.Reader.Numeral
import LazyLisp.Proofs.Reader.Tree
import LazyLisp.Proofs.Value.Entries

/-!
# Grammar — the reader accepts its grammar

Where the reader keeps the values of what it has read so far, `Growth` keeps the derivations.
Leaving everything but the values out of a growth gives the progress of the reader,
`Growth.progress`, and each token takes both to states that match again.

Main results:

* `formsOf_eq_ok_iff`: the forms of a row of tokens are the values of its derivation;
* `readAll_grammar`: a source text is read exactly if it can be derived, and as what it derives.
-/

namespace LazyLisp
namespace Reader

/-! ## Results, leaving errors out -/

section Results

variable {ε α β : Type}

theorem toOption_map (f : α → β) (result : Except ε α) :
    (f <$> result).toOption = result.toOption.map f := by
  cases result <;> rfl

theorem toOption_bind (result : Except ε α) (f : α → Except ε β) :
    (result >>= f).toOption = result.toOption.bind fun a => (f a).toOption := by
  cases result <;> rfl

theorem toOption_eq_some_iff {result : Except ε α} {a : α} :
    result.toOption = some a ↔ result = .ok a := by
  cases result <;> simp [Except.toOption]

end Results

/-! ## Complete forms -/

theorem numberForm_toOption (digits : List Char) (position : Position) :
    (numberForm digits).toOption = (numberTree? digits position).map Tree.value := by
  unfold numberForm numberTree?
  split <;> split <;> simp_all [Except.toOption, Tree.value]

theorem textForm_toOption (body : List Char) (position : Position) :
    (textForm body).toOption = (textTree? body position).map Tree.value := by
  unfold textForm textTree?
  split <;> split <;> simp_all [Except.toOption, Tree.value]

theorem mapEntries_toOption (items : List Tree) :
    (mapEntries (items.map Tree.value)).toOption = (Tree.pairs? items).map Tree.pairValues := by
  fun_induction Tree.pairs? items with
  | case1 => rfl
  | case2 name position tree rest ih =>
      simp [Tree.value, mapEntries, toOption_map, ih, Function.comp_def, Tree.pairValues,
        MapKey.name]
  | case3 body decoded valid position tree rest ih =>
      simp [Tree.value, mapEntries, toOption_map, ih, Function.comp_def, Tree.pairValues,
        MapKey.name]
  | case4 items hnil hkey htext =>
      -- One form alone, or a form that is no key in front of another.
      rcases items with _ | ⟨first, _ | ⟨second, rest⟩⟩
      · exact absurd rfl hnil
      · cases hvalue : first.value <;> simp [mapEntries, hvalue, Except.toOption]
      · cases first with
        | key name position => exact absurd rfl (hkey name position second rest)
        | text body decoded valid position =>
            exact absurd rfl (htext body decoded valid position second rest)
        | _ => simp [Tree.value, Value.quoted, mapEntries, Except.toOption]

theorem closeForm_toOption (delimiter : Delimiter) (items : List Tree) (opened closed : Position) :
    (closeForm delimiter (items.map Tree.value)).toOption =
      (closeTree? delimiter items opened closed).map Tree.value := by
  cases delimiter with
  | paren => simp [closeForm, closeTree?, Tree.value, Tree.allValues_eq_map, Except.toOption]
  | bracket => simp [closeForm, closeTree?, Tree.value, Tree.allValues_eq_map, Except.toOption]
  | brace =>
      have hentries := mapEntries_toOption items
      by_cases hodd : items.length % 2 = 1
      · -- Pairs make an even number of forms, so there are none here.
        have hpairs : Tree.pairs? items = none := by
          refine Option.eq_none_iff_forall_ne_some.mpr ?_
          intro pairs hsome
          have hlength := Tree.length_unpaired pairs
          have hitems := Tree.unpaired_of_pairs? hsome
          simp only [hitems] at hlength
          omega
        simp [closeForm, closeTree?, hodd, hpairs, Except.toOption]
      · simp [closeForm, closeTree?, hodd, toOption_map, hentries, Function.comp_def, Tree.value]

/-! ## Progress -/

/-- What is open, with the values of the trees inside it. -/
def Stem.opening : Stem × Position → Opening × Position
  | (.delimiter kind items, position) => (.delimiter kind (items.map Tree.value), position)
  | (.quoteMark, position) => (.quoteMark, position)

namespace Growth

/-- The progress of the reader where these trees have been built. -/
def progress (growth : Growth) : Progress :=
  ⟨growth.opened.map Stem.opening, growth.trees.map Tree.value⟩

theorem progress_deliver (tree : Tree) (trees : List Tree) (opened : List (Stem × Position)) :
    (deliver tree trees opened).progress =
      Progress.deliver tree.value (trees.map Tree.value) (opened.map Stem.opening) := by
  induction opened generalizing tree with
  | nil => rfl
  | cons entry rest ih =>
      rcases entry with ⟨_ | _, position⟩
      · simp [deliver, progress, Stem.opening, Progress.deliver]
      · simpa [deliver, Stem.opening, Progress.deliver, Tree.value] using
          ih (.quoted position tree)

theorem progress_add (growth : Growth) (tree : Tree) :
    (growth.add tree).progress = growth.progress.add tree.value :=
  progress_deliver tree growth.trees growth.opened

/-- A token that completes a form completes a tree of that value. -/
theorem progress_complete {form : Except Flaw Value} {tree? : Option Tree}
    (h : form.toOption = tree?.map Tree.value) (growth : Growth) (position : Position) :
    (match form with
      | .ok form => Except.ok (growth.progress.add form)
      | .error flaw => .error (Error.mk flaw position)).toOption =
      (tree?.map growth.add).map progress := by
  cases tree? with
  | none =>
      cases form with
      | ok form => cases h
      | error flaw => rfl
  | some tree =>
      cases form with
      | ok form =>
          have hform : form = tree.value := Option.some.inj h
          have hadd := progress_add growth tree
          simp [hform, hadd, Except.toOption]
      | error flaw => cases h

/-- Each token does the same to the progress as to the growth. -/
theorem progress_step (growth : Growth) (token : Token) :
    (growth.progress.step token).toOption = (growth.step token).map progress := by
  rcases token with ⟨lexeme, position⟩
  cases lexeme with
  | opening delimiter => rfl
  | quoteMark => rfl
  | number digits => exact progress_complete (numberForm_toOption digits position) growth position
  | text body => exact progress_complete (textForm_toOption body position) growth position
  | openText body => rfl
  | key name => simp [Progress.step, step, Except.toOption, progress_add, Tree.value]
  | symbol name => simp [Progress.step, step, Except.toOption, progress_add, Tree.value]
  | closing delimiter =>
      rcases growth with ⟨_ | ⟨⟨_ | _, openedAt⟩, rest⟩, trees⟩
      · rfl
      · next kind items =>
          by_cases hkind : kind = delimiter
          · subst hkind
            have hform := closeForm_toOption kind items.reverse openedAt position
            rw [List.map_reverse] at hform
            have hclosed := progress_complete hform ⟨rest, trees⟩ openedAt
            simp only [Progress.step, step, progress, Stem.opening, List.map_cons, ite_true]
            exact hclosed
          · simp [Progress.step, step, progress, Stem.opening, hkind, Except.toOption]
      · rfl

theorem progress_foldlM (row : List Token) (growth : Growth) :
    (row.foldlM Progress.step growth.progress).toOption =
      (row.foldlM step growth).map progress := by
  induction row generalizing growth with
  | nil => rfl
  | cons token rest ih =>
      have hstep := progress_step growth token
      calc
        ((token :: rest).foldlM Progress.step growth.progress).toOption
            = (growth.progress.step token).toOption.bind fun next =>
                (rest.foldlM Progress.step next).toOption := toOption_bind _ _
        _ = (growth.step token).bind fun next =>
              (rest.foldlM Progress.step next.progress).toOption := by
          rw [hstep, Option.bind_map]
          rfl
        _ = (growth.step token).bind fun next => (rest.foldlM step next).map progress := by
          simp only [ih]
        _ = ((token :: rest).foldlM step growth).map progress := Option.map_bind.symm

theorem progress_finish (growth : Growth) :
    growth.progress.finish.toOption = growth.finish.map fun trees => trees.map Tree.value := by
  rcases growth with ⟨_ | ⟨⟨_ | _, openedAt⟩, rest⟩, trees⟩
  · simp [Progress.finish, finish, progress, Except.toOption]
  · rfl
  · rfl

end Growth

/-! ## Source text -/

theorem formsOf_toOption (row : List Token) :
    (formsOf row).toOption = (grow row).map fun trees => trees.map Tree.value := by
  have hfold : (row.foldlM Progress.step .start).toOption =
      (row.foldlM Growth.step .start).map Growth.progress := Growth.progress_foldlM row .start
  calc
    (formsOf row).toOption
        = (row.foldlM Progress.step .start).toOption.bind fun progress =>
            progress.finish.toOption := toOption_bind _ _
    _ = (row.foldlM Growth.step .start).bind fun growth => growth.progress.finish.toOption := by
      rw [hfold, Option.bind_map]
      rfl
    _ = (row.foldlM Growth.step .start).bind fun growth =>
          growth.finish.map fun trees => trees.map Tree.value := by
      simp only [Growth.progress_finish]
    _ = (grow row).map fun trees => trees.map Tree.value := Option.map_bind.symm

/-- The forms of a row of tokens are the values of its derivation. -/
theorem formsOf_eq_ok_iff {row : List Token} {forms : List Value} :
    formsOf row = .ok forms ↔
      ∃ trees, Tree.allTokens trees = row ∧ trees.map Tree.value = forms := by
  calc
    formsOf row = .ok forms ↔ (formsOf row).toOption = some forms := toOption_eq_some_iff.symm
    _ ↔ ∃ trees, grow row = some trees ∧ trees.map Tree.value = forms := by
      simp [formsOf_toOption]
    _ ↔ ∃ trees, Tree.allTokens trees = row ∧ trees.map Tree.value = forms := by
      simp [grow_eq_some_iff]

/-- A source text is read exactly if it can be cut into tokens and the row of tokens can be derived.
It has one derivation then and is read as its values, in order.  All number tokens of texts that are
not absurdly long denote numbers.  Lists and vectors hold the values of the forms between their
brackets, a quote mark makes a call of `quote`, and a map holds the last value of each key in it. -/
theorem readAll_grammar (source : String) :
    (∀ forms, readAll source = .ok forms ↔
      ∃ trees, tokens source = .ok (Tree.allTokens trees) ∧ trees.map Tree.value = forms) ∧
    (∀ trees others, tokens source = .ok (Tree.allTokens trees) →
      tokens source = .ok (Tree.allTokens others) → trees = others) ∧
    (source.length < 2 ^ 63 → ∀ row, tokens source = .ok row →
      ∀ digits position, ⟨.number digits, position⟩ ∈ row →
        ∃ n, Decimal.ofString? (String.ofList digits) = some n) ∧
    (∀ opened items closed,
      (Tree.list opened items closed).value = .list (items.map Tree.value) ∧
        (Tree.vector opened items closed).value = .vector (items.map Tree.value)) ∧
    (∀ mark tree, (Tree.quoted mark tree).value =
      .list [.symbol (.unplaced "quote"), tree.value]) ∧
    ∀ opened pairs closed, ∃ entries, (Tree.map opened pairs closed).value = .map entries ∧
      Entries.Ordered entries ∧
        ∀ key, Entries.get? key entries =
          (pairs.map fun pair => (pair.1.name, pair.2.value)).reverse.lookup key := by
  refine ⟨?_, ?_, ?_, ?_, ?_, ?_⟩
  · intro forms
    cases htokens : tokens source with
    | error error =>
        have hread : readAll source = .error error := by
          rw [readAll, htokens]
          rfl
        simp [hread]
    | ok row =>
        have hread : readAll source = formsOf row := by
          rw [readAll, htokens]
          rfl
        simp [hread, formsOf_eq_ok_iff, eq_comm (a := row)]
  · intro trees others htrees hothers
    have hrow := Except.ok.inj (htrees.symm.trans hothers)
    exact eq_of_allTokens_eq hrow
  · intro hlength row hrow digits position hmem
    exact Option.isSome_iff_exists.mp (isSome_of_number_mem hlength hrow hmem)
  · intro opened items closed
    simp [Tree.value, Tree.allValues_eq_map]
  · intro mark tree
    rfl
  · intro opened pairs closed
    refine ⟨_, rfl, Entries.ordered_ofList _, ?_⟩
    intro key
    rw [Tree.pairValues_eq_map]
    exact Entries.get?_ofList key _

/-- A key that occurs twice. -/
theorem readAll_grammar_twice :
    (∃ trees, tokens "\x7b:a 1 :a -2.5\x7d" = .ok (Tree.allTokens trees) ∧
      trees.map Tree.value = [.map [(⟨"a"⟩, .number ⟨-25, 1⟩)]]) ∧
    ∃ n, Decimal.ofString? (String.ofList ['-', '2', '.', '5']) = some n := by
  have hgrammar := readAll_grammar "\x7b:a 1 :a -2.5\x7d"
  have hread : readAll "\x7b:a 1 :a -2.5\x7d" =
      .ok [.map [(⟨"a"⟩, .number ⟨-25, 1⟩)]] := by
    cbv
  have htokens : tokens "\x7b:a 1 :a -2.5\x7d" =
      .ok [⟨.opening .brace, ⟨1, 1, 0⟩⟩, ⟨.key ['a'], ⟨1, 2, 1⟩⟩, ⟨.number ['1'], ⟨1, 5, 4⟩⟩,
        ⟨.key ['a'], ⟨1, 7, 6⟩⟩, ⟨.number ['-', '2', '.', '5'], ⟨1, 10, 9⟩⟩,
        ⟨.closing .brace, ⟨1, 14, 13⟩⟩] := by
    cbv
  exact ⟨(hgrammar.1 _).mp hread,
    hgrammar.2.2.1 (by decide) _ htokens _ ⟨1, 10, 9⟩ (by simp)⟩

end Reader
end LazyLisp
