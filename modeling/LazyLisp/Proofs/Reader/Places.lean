import LazyLisp.Proofs.Reader.Grammar
import LazyLisp.Proofs.Reader.LineIndex
import LazyLisp.Proofs.Reader.Munch

/-!
# Places — symbols and errors know where they stand

The reader hands the positions of tokens on to symbols and to errors.  They are those that the line
index gives at the byte offsets of the tokens, and the line index counts what stands in front of an
offset.  This file defines:

* `Meets`, the symbols that are met in reading a form, in order;
* `Offends`, the tokens that make a row of tokens unreadable.

Main result: `readAll_places`, that symbols stand where they say, in increasing order, and that errors
are about what stands where they say.
-/

namespace LazyLisp
namespace Reader

/-! ## Tokens -/

/-- A token stands where it says, and the line index has it there. -/
theorem Munched.marks {source : String} {rest : List Char} {pieces : List Piece}
    (h : Munched rest source.toList pieces) {token : Token}
    (hmem : token ∈ Piece.tokens .start pieces) :
    token.position = (LineIndex.ofSource source).position token.position.offset ∧
      token.position.Marks source token.lexeme.chars := by
  rcases exists_of_mem_tokens hmem with ⟨before, after, rfl, hposition⟩
  have hsource : source.toList = before.flatMap Piece.chars ++
      (token.lexeme.chars ++ (after.flatMap Piece.chars ++ rest)) := by
    simp [h.chars_eq, Piece.chars]
  have hindex := LineIndex.position_eq_advanceBy hsource
  rw [← hposition] at hindex
  have hcounts := LineIndex.counts_position hsource
  rw [hindex] at hcounts
  refine ⟨?_, before.flatMap Piece.chars, after.flatMap Piece.chars ++ rest, hsource, hcounts⟩
  rw [hcounts.offset, hindex]

/-- The tokens of a source text stand where they say, one behind the other. -/
theorem marks_of_tokens {source : String} {row : List Token} (h : tokens source = .ok row) :
    (∀ token ∈ row, token.position = (LineIndex.ofSource source).position token.position.offset ∧
        token.position.Marks source token.lexeme.chars) ∧
      row.Pairwise fun token later => token.position.offset < later.position.offset := by
  rcases cuts_tokensFrom .start source.toList with ⟨pieces, rest, hmunched, hresult⟩
  rw [← tokens, h] at hresult
  obtain ⟨-, rfl⟩ := hresult
  refine ⟨fun token hmem => hmunched.marks hmem, ?_⟩
  refine (pairwise_tokens .start pieces).2.imp_of_mem ?_
  intro token later hmem _ hstop
  exact Nat.lt_of_lt_of_le (hmunched.token_span hmem).1 hstop

/-- The symbol that a token is read as: its own, or the one that a quote mark stands for. -/
def Token.symbol? (token : Token) : Option Symbol :=
  match token.lexeme with
  | .symbol name => some ⟨String.ofList name, some token.position⟩
  | .quoteMark => some (.unplaced "quote")
  | _ => none

theorem Token.eq_of_symbol? {token : Token} {symbol : Symbol} (h : token.symbol? = some symbol) :
    symbol = .unplaced "quote" ∨
      token.lexeme = .symbol symbol.name.toList ∧ symbol.position = some token.position := by
  unfold symbol? at h
  split at h
  · next hlexeme =>
      cases h
      exact .inr ⟨by simp [hlexeme], rfl⟩
  · cases h
    exact .inl rfl
  · cases h

/-- Brackets are read as no symbols. -/
theorem symbols_bracket (delimiter : Delimiter) (opened closed : Position) (row : List Token) :
    (⟨.opening delimiter, opened⟩ :: (row ++ [⟨.closing delimiter, closed⟩])).filterMap
      Token.symbol? = row.filterMap Token.symbol? := by
  rw [List.filterMap_cons_none rfl, List.filterMap_append, List.filterMap_cons_none rfl]
  simp

/-- Symbols with a place stand in the order of their tokens. -/
theorem pairwise_symbols {row : List Token}
    (h : row.Pairwise fun token later => token.position.offset < later.position.offset) :
    ((row.filterMap Token.symbol?).filterMap Symbol.position).Pairwise fun place later =>
      place.offset < later.offset := by
  have hplace : ∀ {token : Token} {place : Position},
      token.symbol?.bind Symbol.position = some place → place = token.position := by
    intro token place hbind
    rcases Option.bind_eq_some_iff.mp hbind with ⟨symbol, hsymbol, hposition⟩
    rcases Token.eq_of_symbol? hsymbol with rfl | ⟨-, hown⟩
    · cases hposition
    · exact Option.some.inj (hposition.symm.trans hown)
  rw [List.filterMap_filterMap, List.pairwise_filterMap]
  refine h.imp ?_
  intro token later hlt place hfirst other hsecond
  rw [hplace hfirst, hplace hsecond]
  exact hlt

/-! ## Symbols of forms -/

mutual

/-- These symbols are met in reading a form, in this order.  The values in a map may be met in any
order. -/
inductive Meets : Value → List Symbol → Prop where
  | number (n : Decimal) : Meets (.number n) []
  | key (key : Key) : Meets (.key key) []
  | text (s : String) : Meets (.text s) []
  | symbol (symbol : Symbol) : Meets (.symbol symbol) [symbol]
  | list {items : List Value} {symbols : List Symbol} :
      MeetsAll items symbols → Meets (.list items) symbols
  | vector {items : List Value} {symbols : List Symbol} :
      MeetsAll items symbols → Meets (.vector items) symbols
  | map {entries order : List (Key × Value)} {symbols : List Symbol} :
      order.Perm entries → MeetsAll (order.map Prod.snd) symbols → Meets (.map entries) symbols

/-- These symbols are met in reading the forms, one form after the other. -/
inductive MeetsAll : List Value → List Symbol → Prop where
  | nil : MeetsAll [] []
  | cons {form : Value} {rest : List Value} {symbols others : List Symbol} :
      Meets form symbols → MeetsAll rest others → MeetsAll (form :: rest) (symbols ++ others)

end

theorem MeetsAll.of_perm {forms others : List Value} (h : forms.Perm others) :
    ∀ {symbols : List Symbol}, MeetsAll forms symbols →
      ∃ reordered, MeetsAll others reordered ∧ reordered.Perm symbols := by
  induction h with
  | nil =>
      intro symbols hmeets
      exact ⟨symbols, hmeets, .refl _⟩
  | cons form _ ih =>
      rintro _ (_ | ⟨hform, hrest⟩)
      rcases ih hrest with ⟨reordered, hmeets, hperm⟩
      exact ⟨_, .cons hform hmeets, hperm.append_left _⟩
  | swap first second rest =>
      rintro _ (_ | ⟨hsecond, _ | ⟨hfirst, hrest⟩⟩)
      refine ⟨_, .cons hfirst (.cons hsecond hrest), ?_⟩
      simpa [← List.append_assoc] using List.perm_append_comm.append_right _
  | trans _ _ ih ih' =>
      intro symbols hmeets
      rcases ih hmeets with ⟨reordered, hreordered, hperm⟩
      rcases ih' hreordered with ⟨last, hlast, hperm'⟩
      exact ⟨last, hlast, hperm'.trans hperm⟩

/-- The symbols of forms are the same ones in whatever order they are met. -/
theorem MeetsAll.perm {forms : List Value} {symbols others : List Symbol} :
    MeetsAll forms symbols → MeetsAll forms others → others.Perm symbols
  | .nil, .nil => .refl _
  | .cons (.number _) hrest, .cons (.number _) hothers => hrest.perm hothers
  | .cons (.key _) hrest, .cons (.key _) hothers => hrest.perm hothers
  | .cons (.text _) hrest, .cons (.text _) hothers => hrest.perm hothers
  | .cons (.symbol _) hrest, .cons (.symbol _) hothers => (hrest.perm hothers).cons _
  | .cons (.list hitems) hrest, .cons (.list hothers) hmore =>
      (hitems.perm hothers).append (hrest.perm hmore)
  | .cons (.vector hitems) hrest, .cons (.vector hothers) hmore =>
      (hitems.perm hothers).append (hrest.perm hmore)
  | .cons (.map horder hvalues) hrest, .cons (.map hother hothers) hmore => by
      have hvalue := (hother.trans horder.symm).map Prod.snd
      rcases hothers.of_perm hvalue with ⟨reordered, hmeets, hperm⟩
      exact (hperm.symm.trans (hvalues.perm hmeets)).append (hrest.perm hmore)

namespace Tree

mutual

/-- The symbols of a derived form can be met in the order of its tokens. -/
theorem exists_meets : (tree : Tree) →
    ∃ symbols, Meets tree.value symbols ∧ symbols.Sublist (tree.tokens.filterMap Token.symbol?)
  | .number _ n _ _ => ⟨_, .number n, List.nil_sublist _⟩
  | .key name _ => ⟨_, .key _, List.nil_sublist _⟩
  | .symbol name position => ⟨_, .symbol _, .refl _⟩
  | .text _ _ _ _ => ⟨_, .text _, List.nil_sublist _⟩
  | .list opened items closed => by
      rcases exists_meetsAll items with ⟨symbols, hmeets, hsublist⟩
      refine ⟨symbols, .list hmeets, ?_⟩
      rwa [tokens, symbols_bracket]
  | .vector opened items closed => by
      rcases exists_meetsAll items with ⟨symbols, hmeets, hsublist⟩
      refine ⟨symbols, .vector hmeets, ?_⟩
      rwa [tokens, symbols_bracket]
  | .map opened pairs closed => by
      -- Of the pairs, those that count are met, in the order in which they stand.
      rcases Entries.ofList_subperm (pairValues pairs) with ⟨order, hperm, horder⟩
      rcases exists_meetsPairs pairs horder with ⟨symbols, hmeets, hsublist⟩
      refine ⟨symbols, .map hperm hmeets, ?_⟩
      rwa [tokens, symbols_bracket]
  | .quoted mark tree => by
      rcases exists_meets tree with ⟨symbols, hmeets, hsublist⟩
      have hquoted := MeetsAll.cons (.symbol (.unplaced "quote")) (.cons hmeets .nil)
      refine ⟨_, .list hquoted, ?_⟩
      simpa [tokens, Token.symbol?] using hsublist

theorem exists_meetsAll : (trees : List Tree) →
    ∃ symbols, MeetsAll (allValues trees) symbols ∧
      symbols.Sublist ((allTokens trees).filterMap Token.symbol?)
  | [] => ⟨[], .nil, .refl _⟩
  | tree :: rest => by
      rcases exists_meets tree with ⟨symbols, hmeets, hsublist⟩
      rcases exists_meetsAll rest with ⟨others, hothers, hrest⟩
      refine ⟨_, .cons hmeets hothers, ?_⟩
      simpa [allTokens] using hsublist.append hrest

/-- Pairs may be left out. -/
theorem exists_meetsPairs : (pairs : List (MapKey × Tree)) → {order : List (Key × Value)} →
    order.Sublist (pairValues pairs) →
      ∃ symbols, MeetsAll (order.map Prod.snd) symbols ∧
        symbols.Sublist ((pairTokens pairs).filterMap Token.symbol?)
  | [], order, horder => by
      cases List.sublist_nil.mp horder
      exact ⟨[], .nil, .refl _⟩
  | (k, tree) :: rest, order, horder => by
      have hkey : k.token.symbol? = none := by cases k <;> rfl
      rcases List.sublist_cons_iff.mp horder with hskip | ⟨others, rfl, hothers⟩
      · rcases exists_meetsPairs rest hskip with ⟨symbols, hmeets, hsublist⟩
        refine ⟨symbols, hmeets, ?_⟩
        simpa [pairTokens, hkey] using hsublist.trans (List.sublist_append_right _ _)
      · rcases exists_meets tree with ⟨symbols, hmeets, hsublist⟩
        rcases exists_meetsPairs rest hothers with ⟨behind, hbehind, hrest⟩
        refine ⟨_, .cons hmeets hbehind, ?_⟩
        simpa [pairTokens, hkey] using hsublist.append hrest

end

end Tree

/-! ## Errors -/

/-- Nothing is wrong with the row so far. -/
def Viable (row : List Token) : Prop :=
  ∃ growth, row.foldlM Growth.step .start = some growth

/-- `token` makes a row of tokens unreadable, by this flaw.  It is the first token that cannot go on
what is in front of it; or, where braces hold no entries, the opening one; or, where the row stops too
early, the innermost token that something is open behind. -/
inductive Offends : List Token → Flaw → Token → Prop where
  /-- A closing bracket, where no bracket of its kind is the innermost open one. -/
  | stray {front behind : List Token} {growth : Growth} {delimiter : Delimiter}
      {position : Position} :
      front.foldlM Growth.step .start = some growth →
      (∀ items opened rest, growth.opened ≠ (.delimiter delimiter items, opened) :: rest) →
        Offends (front ++ ⟨.closing delimiter, position⟩ :: behind)
          (.unexpectedToken (String.ofList [delimiter.closing])) ⟨.closing delimiter, position⟩
  | openText {front behind : List Token} {body : List Char} {position : Position} :
      Viable front →
        Offends (front ++ ⟨.openText body, position⟩ :: behind) .unterminatedString
          ⟨.openText body, position⟩
  | escape {front behind : List Token} {body : List Char} {escape : String}
      {position : Position} :
      Viable front → Quoted.decode body = .error escape →
        Offends (front ++ ⟨.text body, position⟩ :: behind) (.badEscape escape)
          ⟨.text body, position⟩
  | number {front behind : List Token} {digits : List Char} {position : Position} :
      Viable front → Decimal.ofString? (String.ofList digits) = none →
        Offends (front ++ ⟨.number digits, position⟩ :: behind) (.badNumber (String.ofList digits))
          ⟨.number digits, position⟩
  /-- The forms between the braces are no entries. -/
  | entries {front behind : List Token} {items : List Tree} {opened closed : Position}
      {flaw : Flaw} :
      Viable front → closeForm .brace (items.map Tree.value) = .error flaw →
        Offends (front ++ ⟨.opening .brace, opened⟩ ::
          (Tree.allTokens items ++ ⟨.closing .brace, closed⟩ :: behind)) flaw
          ⟨.opening .brace, opened⟩
  | unclosed {front : List Token} {delimiter : Delimiter} {items : List Tree}
      {position : Position} :
      Viable front →
        Offends (front ++ ⟨.opening delimiter, position⟩ :: Tree.allTokens items)
          (.unclosedDelimiter delimiter.opening) ⟨.opening delimiter, position⟩
  | dangling {front : List Token} {position : Position} :
      Viable front →
        Offends (front ++ [⟨.quoteMark, position⟩]) .danglingQuote ⟨.quoteMark, position⟩

theorem Offends.mem {row : List Token} {flaw : Flaw} {token : Token} (h : Offends row flaw token) :
    token ∈ row := by
  cases h <;> simp

namespace Growth

/-- The tokens of a growth make it. -/
theorem foldlM_self (growth : Growth) : growth.tokens.foldlM step .start = some growth := by
  rcases growth with ⟨opened, trees⟩
  induction opened with
  | nil =>
      have htrees := foldl_add_start trees.reverse []
      rw [List.reverse_reverse, List.append_nil] at htrees
      simp [tokens, foldlM_allTokens, start, htrees]
  | cons entry rest ih =>
      have hsplit : tokens ⟨entry :: rest, trees⟩ = tokens ⟨rest, trees⟩ ++ Stem.tokens entry := by
        simp [tokens]
      rw [hsplit, List.foldlM_append, ih]
      rcases entry with ⟨kind | _, position⟩
      · next items =>
          have hopen : step ⟨rest, trees⟩ ⟨.opening kind, position⟩ =
              some ⟨(.delimiter kind [], position) :: rest, trees⟩ := rfl
          have hitems := foldl_add_delimiter items.reverse kind [] position rest trees
          rw [List.reverse_reverse, List.append_nil] at hitems
          rw [Option.bind_eq_bind, Option.bind_some, Stem.tokens, List.foldlM_cons, hopen,
            Option.bind_eq_bind, Option.bind_some, foldlM_allTokens, hitems]
      · rfl

theorem viable (growth : Growth) : Viable growth.tokens :=
  ⟨growth, growth.foldlM_self⟩

/-- The tokens up to the latest form in an open bracket, apart from those around it. -/
theorem tokens_delimiter (kind : Delimiter) (items trees : List Tree) (position : Position)
    (rest : List (Stem × Position)) :
    tokens ⟨(.delimiter kind items, position) :: rest, trees⟩ =
      tokens ⟨rest, trees⟩ ++ ⟨.opening kind, position⟩ :: Tree.allTokens items.reverse := by
  simp [tokens, Stem.tokens]

/-- Where a row cannot be read there is a first token that cannot be read behind the others. -/
theorem exists_misfit {row : List Token} {growth : Growth} {error : Error}
    (h : row.foldlM Progress.step growth.progress = .error error) :
    ∃ front token behind next, row = front ++ token :: behind ∧
      front.foldlM step growth = some next ∧ next.progress.step token = .error error := by
  induction row generalizing growth with
  | nil => cases h
  | cons token rest ih =>
      rw [List.foldlM_cons] at h
      cases hstep : growth.progress.step token with
      | error misfit =>
          rw [hstep] at h
          cases h
          exact ⟨[], token, rest, growth, rfl, rfl, hstep⟩
      | ok progress =>
          have hgrow := progress_step growth token
          rw [hstep] at h hgrow
          rcases Option.map_eq_some_iff.mp hgrow.symm with ⟨grown, hgrown, rfl⟩
          rcases ih h with ⟨front, misfit, behind, next, rfl, hfront, hmisfit⟩
          refine ⟨token :: front, misfit, behind, next, rfl, ?_, hmisfit⟩
          rw [List.foldlM_cons, hgrown]
          exact hfront

end Growth

/-- A token that cannot go on what has been read so far offends, or the bracket does that it
closes. -/
theorem offends_of_step {growth : Growth} {token : Token} {error : Error}
    (h : growth.progress.step token = .error error) (behind : List Token) :
    ∃ offender, Offends (growth.tokens ++ token :: behind) error.flaw offender ∧
      error.position = offender.position := by
  rcases token with ⟨lexeme, position⟩
  cases lexeme with
  | opening delimiter => cases h
  | quoteMark => cases h
  | key name => cases h
  | symbol name => cases h
  | openText body =>
      cases h
      exact ⟨_, .openText growth.viable, rfl⟩
  | number digits =>
      simp only [Progress.step, numberForm] at h
      cases hnumber : Decimal.ofString? (String.ofList digits) with
      | some n =>
          rw [hnumber] at h
          cases h
      | none =>
          rw [hnumber] at h
          cases h
          exact ⟨_, .number growth.viable hnumber, rfl⟩
  | text body =>
      simp only [Progress.step, textForm] at h
      cases htext : Quoted.decode body with
      | ok decoded =>
          rw [htext] at h
          cases h
      | error escape =>
          rw [htext] at h
          cases h
          exact ⟨_, .escape growth.viable htext, rfl⟩
  | closing delimiter =>
      rcases growth with ⟨opened, trees⟩
      by_cases hopen : ∃ items openedAt rest,
          opened = (.delimiter delimiter items, openedAt) :: rest
      · -- The bracket is closed, so it is what is inside it that makes no form.
        obtain ⟨items, openedAt, rest, rfl⟩ := hopen
        rw [Growth.tokens_delimiter]
        simp only [Growth.progress, Progress.step, Stem.opening, List.map_cons, ite_true,
          ← List.map_reverse] at h
        cases delimiter with
        | paren => cases h
        | bracket => cases h
        | brace =>
            cases hclose : closeForm .brace (items.reverse.map Tree.value) with
            | ok form =>
                rw [hclose] at h
                cases h
            | error flaw =>
                rw [hclose] at h
                cases h
                have hviable := Growth.viable ⟨rest, trees⟩
                rw [List.append_assoc]
                exact ⟨_, .entries hviable hclose, rfl⟩
      · have hstray : ∀ items openedAt rest,
            opened ≠ (.delimiter delimiter items, openedAt) :: rest :=
          fun items openedAt rest heq => hopen ⟨items, openedAt, rest, heq⟩
        have herror : error =
            ⟨.unexpectedToken (String.ofList [delimiter.closing]), position⟩ := by
          rcases opened with _ | ⟨⟨kind | _, openedAt⟩, rest⟩
          · cases h
            rfl
          · next items =>
              have hkind : kind ≠ delimiter := by
                rintro rfl
                exact hstray _ _ _ rfl
              simp only [Growth.progress, Progress.step, Stem.opening, List.map_cons,
                if_neg hkind] at h
              cases h
              rfl
          · cases h
            rfl
        subst herror
        exact ⟨_, .stray (Growth.foldlM_self ⟨opened, trees⟩) hstray, rfl⟩

/-- Where a row stops too early, the innermost token offends that something is open behind. -/
theorem offends_of_finish {growth : Growth} {error : Error}
    (h : growth.progress.finish = .error error) :
    ∃ offender, Offends growth.tokens error.flaw offender ∧ error.position = offender.position := by
  rcases growth with ⟨_ | ⟨⟨kind | _, openedAt⟩, rest⟩, trees⟩
  · cases h
  · next items =>
      cases h
      rw [Growth.tokens_delimiter]
      exact ⟨_, .unclosed (Growth.viable ⟨rest, trees⟩), rfl⟩
  · cases h
    have hsplit : Growth.tokens ⟨(.quoteMark, openedAt) :: rest, trees⟩ =
        Growth.tokens ⟨rest, trees⟩ ++ [⟨.quoteMark, openedAt⟩] := by
      simp [Growth.tokens, Stem.tokens]
    rw [hsplit]
    exact ⟨_, .dangling (Growth.viable ⟨rest, trees⟩), rfl⟩

/-- An unreadable row of tokens has an offender, and the error is about it. -/
theorem offends_of_formsOf {row : List Token} {error : Error} (h : formsOf row = .error error) :
    ∃ offender, Offends row error.flaw offender ∧ error.position = offender.position := by
  cases hfold : row.foldlM Progress.step Progress.start with
  | error misfit =>
      have herror : misfit = error := by
        rw [formsOf, hfold] at h
        exact Except.error.inj h
      subst herror
      have hmisfit : row.foldlM Progress.step Growth.start.progress = .error misfit := hfold
      rcases Growth.exists_misfit hmisfit with
        ⟨front, token, behind, next, rfl, hfront, hstep⟩
      have htokens : next.tokens = front := Growth.tokens_foldlM hfront
      rw [← htokens]
      exact offends_of_step hstep behind
  | ok progress =>
      have hgrow := Growth.progress_foldlM row .start
      have hstart : Growth.start.progress = Progress.start := rfl
      rw [hstart, hfold] at hgrow
      rcases Option.map_eq_some_iff.mp hgrow.symm with ⟨growth, hgrowth, rfl⟩
      have htokens : growth.tokens = row := Growth.tokens_foldlM hgrowth
      rw [formsOf, hfold] at h
      rw [← htokens]
      exact offends_of_finish h

/-! ## Source text -/

/-- A text that cannot be cut into tokens has a first character that no token begins with. -/
theorem stuck_of_tokens {source : String} {error : Error} (h : tokens source = .error error) :
    error.position = (LineIndex.ofSource source).position error.position.offset ∧
      ∃ before c after, Stuck (c :: after) ∧ source.toList = before ++ c :: after ∧
        error.flaw = .unexpectedChar c ∧ error.position.Counts before := by
  rcases cuts_tokensFrom .start source.toList with ⟨pieces, rest, hmunched, hresult⟩
  rw [← tokens, h] at hresult
  rcases hresult with ⟨c, after, rfl, hstuck, rfl⟩
  have hcounts := LineIndex.counts_position hmunched.chars_eq
  rw [LineIndex.position_eq_advanceBy hmunched.chars_eq] at hcounts
  refine ⟨?_, _, c, after, hstuck, hmunched.chars_eq, rfl, hcounts⟩
  rw [hcounts.offset, LineIndex.position_eq_advanceBy hmunched.chars_eq]

/-- Symbols and errors know where they stand in the source text, by bytes from the start, by line
breaks and by characters behind the last line break.

What is read is what the tokens come to whose positions the line index looks up, by the last line that
starts no later than they do and the characters from there on.  The symbols of a text that is read are
met in the order of its tokens, each of them a symbol in the text or the name that a quote mark stands
for; only values of map keys that occur again are left out.  Each symbol in the text carries the place
where its name stands, and these places are further and further behind.  A text that is not read has a
character that no token begins with, or a token that offends, and the error carries the place where
that stands. -/
theorem readAll_places (source : String) :
    readAll source = (lex source).bind formsOf ∧
    (∀ forms, readAll source = .ok forms →
      ∃ row symbols, lex source = .ok row ∧ MeetsAll forms symbols ∧
        symbols.Sublist (row.filterMap Token.symbol?) ∧
        (∀ others, MeetsAll forms others → others.Perm symbols) ∧
        (∀ symbol ∈ symbols, symbol = .unplaced "quote" ∨
          ∃ position, symbol.position = some position ∧
            position = (LineIndex.ofSource source).position position.offset ∧
            position.Marks source symbol.name.toList) ∧
        (symbols.filterMap Symbol.position).Pairwise fun place later =>
          place.offset < later.offset) ∧
    ∀ error, readAll source = .error error →
      error.position = (LineIndex.ofSource source).position error.position.offset ∧
      ((∃ before c after, Stuck (c :: after) ∧ source.toList = before ++ c :: after ∧
          error.flaw = .unexpectedChar c ∧ error.position.Counts before) ∨
        ∃ row token, lex source = .ok row ∧ Offends row error.flaw token ∧
          error.position = token.position ∧
          error.position.Marks source token.lexeme.chars) := by
  rw [lex_eq_tokens]
  cases htokens : tokens source with
  | error stuck =>
      have hread : readAll source = .error stuck := by
        rw [readAll, htokens]
        rfl
      rw [hread]
      refine ⟨rfl, fun forms hforms => ?_, fun error herror => ?_⟩
      · cases hforms
      · cases herror
        obtain ⟨hindex, hstuck⟩ := stuck_of_tokens htokens
        exact ⟨hindex, .inl hstuck⟩
  | ok row =>
      have hread : readAll source = formsOf row := by
        rw [readAll, htokens]
        rfl
      obtain ⟨hmarks, hincreasing⟩ := marks_of_tokens htokens
      rw [hread]
      refine ⟨rfl, ?_, ?_⟩
      · intro forms hforms
        rcases formsOf_eq_ok_iff.mp hforms with ⟨trees, rfl, rfl⟩
        rcases Tree.exists_meetsAll trees with ⟨symbols, hmeets, hsublist⟩
        rw [Tree.allValues_eq_map] at hmeets
        refine ⟨_, symbols, rfl, hmeets, hsublist, fun others hothers => hmeets.perm hothers, ?_, ?_⟩
        · intro symbol hsymbol
          rcases List.mem_filterMap.mp (hsublist.subset hsymbol) with ⟨token, hmem, htoken⟩
          refine (Token.eq_of_symbol? htoken).imp_right ?_
          rintro ⟨hlexeme, hposition⟩
          have hmarked := hmarks token hmem
          rw [hlexeme] at hmarked
          exact ⟨token.position, hposition, hmarked⟩
        · exact (pairwise_symbols hincreasing).sublist (hsublist.filterMap _)
      · intro error herror
        rcases offends_of_formsOf herror with ⟨token, hoffends, hposition⟩
        have hmarked := hmarks token hoffends.mem
        rw [← hposition] at hmarked
        exact ⟨hmarked.1, .inr ⟨row, token, rfl, hoffends, hposition, hmarked.2⟩⟩

/-- A symbol behind a character of two bytes on the second line, and a bracket that nothing opens. -/
theorem readAll_places_lines :
    (∃ symbols, MeetsAll [.symbol ⟨"a", some ⟨1, 1, 0⟩⟩, .text "é",
        .list [.symbol (.unplaced "quote"), .symbol ⟨"b", some ⟨2, 6, 8⟩⟩]] symbols ∧
      (symbols.filterMap Symbol.position).Pairwise fun place later =>
        place.offset < later.offset) ∧
    ∃ row token, lex "a\né)" = .ok row ∧ Offends row (.unexpectedToken ")") token ∧
      token.position = (LineIndex.ofSource "a\né)").position 4 ∧
      Position.Marks ⟨2, 2, 4⟩ "a\né)" token.lexeme.chars := by
  have hread : readAll "a\n\x22é\x22 \x27b" = .ok [.symbol ⟨"a", some ⟨1, 1, 0⟩⟩, .text "é",
      .list [.symbol (.unplaced "quote"), .symbol ⟨"b", some ⟨2, 6, 8⟩⟩]] := by
    cbv
  have hfail : readAll "a\né)" = .error ⟨.unexpectedToken ")", ⟨2, 2, 4⟩⟩ := by
    cbv
  constructor
  · rcases (readAll_places _).2.1 _ hread with ⟨row, symbols, -, hmeets, -, -, -, hplaces⟩
    exact ⟨symbols, hmeets, hplaces⟩
  · obtain ⟨hindex, hoffender⟩ := (readAll_places _).2.2 _ hfail
    rcases hoffender with ⟨_, _, _, _, _, hflaw, _⟩ | ⟨row, token, hrow, hoffends, hposition, hmarks⟩
    · cases hflaw
    · exact ⟨row, token, hrow, hoffends, hposition.symm.trans hindex, hmarks⟩

end Reader
end LazyLisp
