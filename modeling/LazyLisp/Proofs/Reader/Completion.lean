import LazyLisp.Proofs.Reader.Ending
import LazyLisp.Proofs.Reader.Final
import LazyLisp.Proofs.Reader.Inert

/-!
# Completion — how incomplete text can be finished

An incomplete text can be finished by what is still missing: a closing quote, a form for the quote
marks, and the closing brackets of all that is open, innermost first.  What comes out need not be
correct, since a map can have an odd number of forms, but no more text is asked for.  There is one
exception.  A string that is broken off, by a backslash in front of a line break, stays open whatever
follows, and keeps the text incomplete.  This file defines:

* `Decided`, the results that are no call for more text;
* `Progress.pending` and `Progress.Ready`, the brackets that are open, and that no quote mark waits;
* `closers`, the text that closes brackets;
* `Completes`, that a text can be cut into tokens and is not incomplete if another one follows;
* `BrokenOff`, that the error of a text is a string that is broken off;
* `Missing`, the two things that an incomplete text can ask for.

Main results: `decided_closers`, that closing all brackets decides a text; `exists_completion` and
`readAll_of_brokenOff`, which texts can be completed and which stay as they are; and
`completes_iff_not_brokenOff`.
-/

namespace LazyLisp
namespace Reader

open scoped Computability

/-! ## Decided results -/

/-- It succeeds, or fails with an error that no further text takes back. -/
def Decided {α : Type} (result : Except Error α) : Prop :=
  ∀ error, result = .error error → error.isIncomplete = false

theorem decided_ok {α : Type} (a : α) : Decided (.ok a) := by
  intro error h
  cases h

theorem decided_error {α : Type} {error : Error} (h : error.isIncomplete = false) :
    Decided (.error error : Except Error α) := by
  intro other heq
  cases heq
  exact h

theorem isIncomplete_of_mapEntries {items : List Value} {flaw : Flaw}
    (h : mapEntries items = .error flaw) (position : Position) :
    Error.isIncomplete ⟨flaw, position⟩ = false := by
  fun_induction mapEntries items with
  | case1 => cases h
  | case2 =>
      cases h
      rfl
  | case3 key value rest ih | case4 name value rest ih =>
      cases hrest : mapEntries rest with
      | ok pairs =>
          rw [hrest] at h
          cases h
      | error other =>
          rw [hrest] at h
          cases h
          exact ih hrest
  | case5 =>
      cases h
      rfl

theorem isIncomplete_of_closeForm {delimiter : Delimiter} {items : List Value} {flaw : Flaw}
    (h : closeForm delimiter items = .error flaw) (position : Position) :
    Error.isIncomplete ⟨flaw, position⟩ = false := by
  cases delimiter with
  | paren => cases h
  | bracket => cases h
  | brace =>
      rw [closeForm] at h
      split at h
      · cases h
        rfl
      · cases hentries : mapEntries items with
        | ok pairs =>
            rw [hentries] at h
            cases h
        | error other =>
            rw [hentries] at h
            cases h
            exact isIncomplete_of_mapEntries hentries position

theorem isIncomplete_of_textForm {body : List Char} {flaw : Flaw} (h : textForm body = .error flaw)
    (position : Position) : Error.isIncomplete ⟨flaw, position⟩ = false := by
  rw [textForm] at h
  split at h
  · cases h
  · cases h
    rfl

theorem isIncomplete_of_numberForm {digits : List Char} {flaw : Flaw}
    (h : numberForm digits = .error flaw) (position : Position) :
    Error.isIncomplete ⟨flaw, position⟩ = false := by
  rw [numberForm] at h
  split at h
  · cases h
  · cases h
    rfl

/-- Only an open string is an error that further text could take back. -/
theorem decided_step (progress : Progress) {token : Token}
    (h : ∀ body, token.lexeme ≠ .openText body) : Decided (progress.step token) := by
  rcases token with ⟨lexeme, position⟩
  cases lexeme with
  | opening delimiter => exact decided_ok _
  | quoteMark => exact decided_ok _
  | key name => exact decided_ok _
  | symbol name => exact decided_ok _
  | openText body => exact (h body rfl).elim
  | number digits =>
      simp only [Progress.step]
      cases hform : numberForm digits with
      | ok form => exact decided_ok _
      | error flaw => exact decided_error (isIncomplete_of_numberForm hform position)
  | text body =>
      simp only [Progress.step]
      cases hform : textForm body with
      | ok form => exact decided_ok _
      | error flaw => exact decided_error (isIncomplete_of_textForm hform position)
  | closing delimiter =>
      simp only [Progress.step]
      split
      · next _ _ openedAt _ _ =>
          split
          · split
            · exact decided_ok _
            · next flaw hform => exact decided_error (isIncomplete_of_closeForm hform openedAt)
          · exact decided_error rfl
      · exact decided_error rfl

theorem decided_foldlM {row : List Token} (h : Closed row) (progress : Progress) :
    Decided (row.foldlM Progress.step progress) := by
  induction row generalizing progress with
  | nil => exact decided_ok _
  | cons token rest ih =>
      obtain ⟨htoken, hrest⟩ := List.forall_mem_cons.mp h
      rw [List.foldlM_cons]
      cases hstep : progress.step token with
      | ok next => exact ih hrest next
      | error error => exact decided_error (decided_step progress htoken error hstep)

/-! ## Closing what is open -/

namespace Progress

/-- The brackets that are open, innermost first. -/
def pending (progress : Progress) : List Delimiter :=
  progress.opened.filterMap fun entry => match entry.1 with
    | .delimiter delimiter _ => some delimiter
    | .quoteMark => none

/-- No quote mark waits for the next form. -/
def Ready (progress : Progress) : Prop :=
  ∀ entry, progress.opened.head? = some entry → entry.1 ≠ .quoteMark

/-- A form that is complete goes to the innermost bracket, and quote marks in between are used up. -/
theorem deliver_ready (form : Value) (forms : List Value) (opened : List (Opening × Position)) :
    (deliver form forms opened).Ready ∧
      (deliver form forms opened).pending = Progress.pending ⟨opened, forms⟩ := by
  induction opened generalizing form with
  | nil =>
      refine ⟨fun entry hentry => ?_, rfl⟩
      cases hentry
  | cons entry rest ih =>
      rcases entry with ⟨_ | _, position⟩
      · refine ⟨fun entry hentry => ?_, rfl⟩
        cases hentry
        exact fun heq => by cases heq
      · exact ih form.quoted

theorem add_ready (progress : Progress) (form : Value) :
    (progress.add form).Ready ∧ (progress.add form).pending = progress.pending :=
  deliver_ready form progress.forms progress.opened

/-- The innermost open bracket is what the next closing one meets. -/
theorem Ready.exists_opened {progress : Progress} (h : progress.Ready) {delimiter : Delimiter}
    {outer : List Delimiter} (hpending : progress.pending = delimiter :: outer) :
    ∃ items position rest, progress.opened = (.delimiter delimiter items, position) :: rest ∧
      Progress.pending ⟨rest, progress.forms⟩ = outer := by
  rcases progress with ⟨_ | ⟨⟨_ | _, position⟩, rest⟩, forms⟩
  · cases hpending
  · next inner items =>
      obtain ⟨rfl, houter⟩ := List.cons.inj hpending
      exact ⟨items, position, rest, rfl, houter⟩
  · exact (h _ rfl rfl).elim

theorem Ready.finish {progress : Progress} (h : progress.Ready) (hpending : progress.pending = []) :
    Decided progress.finish := by
  rcases progress with ⟨_ | ⟨⟨_ | _, position⟩, rest⟩, forms⟩
  · exact decided_ok _
  · cases hpending
  · exact (h _ rfl rfl).elim

end Progress

/-- Once all brackets are closed, innermost first, no more text is asked for. -/
theorem decided_closers {row : List Token} {progress : Progress} (hready : progress.Ready)
    (hrow : row.map Token.lexeme = progress.pending.map .closing) :
    Decided (row.foldlM Progress.step progress >>= Progress.finish) := by
  induction row generalizing progress with
  | nil => exact hready.finish (List.map_eq_nil_iff.mp hrow.symm)
  | cons token rest ih =>
      rcases token with ⟨lexeme, position⟩
      cases hpending : progress.pending with
      | nil =>
          rw [hpending] at hrow
          cases hrow
      | cons delimiter outer =>
          rw [hpending] at hrow
          obtain ⟨rfl, hrest⟩ := List.cons.inj hrow
          obtain ⟨items, openedAt, opened, hopened, houter⟩ := hready.exists_opened hpending
          rw [List.foldlM_cons]
          simp only [Progress.step, hopened, if_true]
          cases hform : closeForm delimiter items.reverse with
          | error flaw => exact decided_error (isIncomplete_of_closeForm hform openedAt)
          | ok form =>
              obtain ⟨hready', hpending'⟩ :=
                Progress.add_ready { progress with opened := opened } form
              refine ih hready' (hrest.trans ?_)
              rw [hpending', houter]

/-- The text that closes brackets. -/
def closers (delimiters : List Delimiter) : List Char :=
  delimiters.map Delimiter.closing

theorem exists_tokensFrom_closers (position : Position) (delimiters : List Delimiter) :
    ∃ row, tokensFrom position (closers delimiters) = .ok row ∧
      row.map Token.lexeme = delimiters.map .closing := by
  induction delimiters generalizing position with
  | nil => exact ⟨[], by rw [closers, List.map_nil, tokensFrom], rfl⟩
  | cons delimiter rest ih =>
      obtain ⟨row, hrow, hlexemes⟩ := ih (position.advanceBy [delimiter.closing])
      refine ⟨⟨.closing delimiter, position⟩ :: row, ?_, ?_⟩
      · have hcons : closers (delimiter :: rest) = delimiter.closing :: closers rest := rfl
        rw [hcons, tokensFrom_closing, hrow, Except.map_ok]
      · rw [List.map_cons, List.map_cons, hlexemes]

/-! ## Texts that can be completed -/

/-- With the second text behind it, the first one can be cut into tokens and asks for no more. -/
def Completes (a b : String) : Prop :=
  (∃ row, tokens (a ++ b) = .ok row) ∧ Decided (readAll (a ++ b))

section Texts

variable {a b : String} {row : List Token} {progress : Progress}

theorem formsOf_append_of_ok (h : row.foldlM Progress.step .start = .ok progress)
    (later : List Token) :
    formsOf (row ++ later) = later.foldlM Progress.step progress >>= Progress.finish := by
  rw [formsOf, List.foldlM_append, h]
  rfl

theorem completes_of_tokens (h : row.foldlM Progress.step .start = .ok progress)
    (later : List Token) (htokens : tokens (a ++ b) = .ok (row ++ later))
    (hlater : Decided (later.foldlM Progress.step progress >>= Progress.finish)) :
    Completes a b := by
  refine ⟨⟨_, htokens⟩, ?_⟩
  have hread : readAll (a ++ b) = formsOf (row ++ later) := by
    rw [readAll, htokens]
    rfl
  rw [hread, formsOf_append_of_ok h]
  exact hlater

/-- Where all tokens are complete, one more form and closing brackets complete the text. -/
theorem exists_completes_of_complete (h : row.foldlM Progress.step .start = .ok progress)
    (htokens : ∀ more, tokensFrom .start (a.toList ++ '\n' :: more) =
      (row ++ ·) <$> tokensFrom (Position.start.advanceBy a.toList) ('\n' :: more)) :
    ∃ b, Completes a b := by
  generalize Position.start.advanceBy a.toList = place at htokens
  let opened := place.advanceBy ['\n']
  let closed := opened.advanceBy ['(']
  obtain ⟨hready, hpending⟩ := progress.add_ready (.list [])
  obtain ⟨closing, hclosing, hlexemes⟩ :=
    exists_tokensFrom_closers (closed.advanceBy [')']) progress.pending
  have hmore : tokensFrom place ('\n' :: '(' :: ')' :: closers progress.pending) =
      .ok (⟨.opening .paren, opened⟩ :: ⟨.closing .paren, closed⟩ :: closing) := by
    calc
      tokensFrom place ('\n' :: '(' :: ')' :: closers progress.pending)
          = tokensFrom opened ('(' :: ')' :: closers progress.pending) :=
        tokensFrom_separator (by decide)
      _ = (⟨.opening .paren, opened⟩ :: ·) <$>
            tokensFrom closed (')' :: closers progress.pending) :=
        tokensFrom_opening .paren opened _
      _ = (⟨.opening .paren, opened⟩ :: ·) <$> ((⟨.closing .paren, closed⟩ :: ·) <$>
            tokensFrom (closed.advanceBy [')']) (closers progress.pending)) := by
        rw [show ')' = Delimiter.paren.closing from rfl, tokensFrom_closing]
      _ = _ := by rw [hclosing, Except.map_ok, Except.map_ok]
  refine ⟨String.ofList ('\n' :: '(' :: ')' :: closers progress.pending), completes_of_tokens h
    (⟨.opening .paren, opened⟩ :: ⟨.closing .paren, closed⟩ :: closing) ?_ ?_⟩
  · rw [tokens, String.toList_append, String.toList_ofList, htokens, hmore, Except.map_ok]
  · have hform : ∀ row : List Token,
        (⟨.opening .paren, opened⟩ :: ⟨.closing .paren, closed⟩ :: row).foldlM Progress.step
          progress = row.foldlM Progress.step (progress.add (.list [])) := fun _ => rfl
    rw [hform]
    exact decided_closers hready (by rw [hlexemes, hpending])

/-- A string that is not closed can be closed, or else it is broken off. -/
theorem closable_or_broken {rest : List Char} (h : ∀ tail, (splitText rest).2 ≠ '\x22' :: tail) :
    (∃ fix, rest ++ fix ∈ textItem∗) ∨
      ∃ body ∈ textItem∗, ∃ tail, rest = body ++ '\\' :: '\n' :: tail := by
  have hsplit := splitText_append rest
  have hbody := fst_splitText_mem rest
  rcases snd_splitText rest with hnil | ⟨tail, hquote⟩ | ⟨tail, hbackslash, rfl | ⟨after, rfl⟩⟩
  · left
    rw [hnil, List.append_nil] at hsplit
    refine ⟨[], ?_⟩
    rw [List.append_nil, ← hsplit]
    exact hbody
  · exact (h tail hquote).elim
  -- A backslash at the end of the text takes another one with it.
  · left
    rw [hbackslash] at hsplit
    refine ⟨['\\'], ?_⟩
    have hpair : ['\\', '\\'] ∈ textItem :=
      .inr (mem_exactly_mul_iff.mpr ⟨['\\'], ⟨'\\', by decide, rfl⟩, rfl⟩)
    have hpairs := append_mem_kstar hpair (Language.nil_mem_kstar textItem)
    rw [← hsplit, List.append_assoc, ← kstar_mul_kstar]
    exact Language.append_mem_mul hbody hpairs
  · right
    rw [hbackslash] at hsplit
    exact ⟨_, hbody, after, hsplit.symm⟩

/-- Where a string is open to the end of the text, a quote and closing brackets complete the text. -/
theorem exists_completes_of_open (h : row.foldlM Progress.step .start = .ok progress)
    {place : Position} {rest fix : List Char} (hfix : rest ++ fix ∈ textItem∗)
    (htokens : ∀ more, tokensFrom .start (a.toList ++ more) =
      (row ++ ·) <$> tokensFrom place ('\x22' :: (rest ++ more))) : ∃ b, Completes a b := by
  obtain ⟨closing, hclosing, hlexemes⟩ := exists_tokensFrom_closers
    (place.advanceBy (Lexeme.text (rest ++ fix)).chars) progress.pending
  have hmore : tokensFrom place ('\x22' :: (rest ++ (fix ++ '\x22' :: closers progress.pending))) =
      .ok (⟨.text (rest ++ fix), place⟩ :: closing) := by
    have hscan := scan?_text hfix (closers progress.pending)
    simp only [List.cons_append, List.append_assoc, List.nil_append] at hscan
    rw [tokensFrom_of_some (by decide) (by decide) hscan, hclosing, Except.map_ok]
  refine ⟨String.ofList (fix ++ '\x22' :: closers progress.pending), completes_of_tokens h
    (⟨.text (rest ++ fix), place⟩ :: closing) ?_ ?_⟩
  · rw [tokens, String.toList_append, String.toList_ofList, htokens, hmore, Except.map_ok]
  · rw [List.foldlM_cons]
    simp only [Progress.step]
    cases hform : textForm (rest ++ fix) with
    | error flaw => exact decided_error (isIncomplete_of_textForm hform place)
    | ok form =>
        obtain ⟨hready, hpending⟩ := progress.add_ready form
        exact decided_closers hready (by rw [hlexemes, hpending])

end Texts

/-! ## Texts that cannot -/

/-- The error of the text is a string that is broken off: in it, a backslash stands in front of a line
break. -/
def BrokenOff (text : List Char) (error : Error) : Prop :=
  ∃ front body rest, text = front ++ '\x22' :: (body ++ '\\' :: '\n' :: rest) ∧ body ∈ textItem∗ ∧
    error = ⟨.unterminatedString, Position.start.advanceBy front⟩

/-- Bytes are counted, and there are some in every piece of text. -/
theorem eq_nil_of_advanceBy_eq {position : Position} {text : List Char}
    (h : position.advanceBy text = position) : text = [] := by
  by_contra hne
  have hlt := offset_lt_advanceBy position hne
  rw [h] at hlt
  exact Nat.lt_irrefl _ hlt

/-- Different places in a text have different positions. -/
theorem front_eq_of_advanceBy_eq {front front' rest rest' : List Char} {position : Position}
    (h : front ++ rest = front' ++ rest')
    (hplace : position.advanceBy front = position.advanceBy front') : front = front' := by
  rcases List.append_eq_append_iff.mp h with ⟨more, rfl, _⟩ | ⟨more, rfl, _⟩
  · rw [Position.advanceBy_append] at hplace
    rw [eq_nil_of_advanceBy_eq hplace.symm, List.append_nil]
  · rw [Position.advanceBy_append] at hplace
    rw [eq_nil_of_advanceBy_eq hplace, List.append_nil]

section Errors

variable {a : String} {error : Error} {row : List Token} {progress : Progress}

/-- Where reading asks for more text, there are tokens, and their forms are incomplete. -/
theorem exists_tokens_of_incomplete (h : readAll a = .error error)
    (hincomplete : error.isIncomplete = true) :
    ∃ all, tokens a = .ok all ∧ formsOf all = .error error := by
  rw [readAll] at h
  cases htokens : tokens a with
  | ok all =>
      rw [htokens] at h
      exact ⟨all, rfl, h⟩
  | error unexpected =>
      rw [htokens] at h
      cases h
      obtain ⟨_, _, _, _, rfl⟩ := unexpected_of_tokensFrom htokens
      cases hincomplete

/-- Where reading asks for more text, it is not because of tokens that are complete. -/
theorem exists_progress_of_incomplete (h : readAll a = .error error)
    (hincomplete : error.isIncomplete = true) (hrow : Closed row)
    {later : Except Error (List Token)} (htokens : tokens a = (row ++ ·) <$> later) :
    ∃ progress, row.foldlM Progress.step .start = .ok progress := by
  obtain ⟨all, hall, hforms⟩ := exists_tokens_of_incomplete h hincomplete
  rw [htokens] at hall
  cases later with
  | error unexpected => cases hall
  | ok more =>
      cases hall
      cases hfold : row.foldlM Progress.step .start with
      | ok progress => exact ⟨progress, rfl⟩
      | error other =>
          rw [formsOf_append_of_error hfold] at hforms
          cases hforms
          rw [decided_foldlM hrow .start _ hfold] at hincomplete
          cases hincomplete

/-- Without an open string, none is the error. -/
theorem flaw_ne_of_closed (hrow : Closed row) (h : formsOf row = .error error) :
    error.flaw ≠ .unterminatedString := by
  intro hflaw
  rw [formsOf] at h
  cases hfold : row.foldlM Progress.step .start with
  | error other =>
      rw [hfold] at h
      cases h
      have hdecided := decided_foldlM hrow .start _ hfold
      rw [Error.isIncomplete, hflaw] at hdecided
      cases hdecided
  | ok progress =>
      rw [hfold] at h
      -- Then something is open at the end, or a quote mark waits there.
      rcases progress with ⟨_ | ⟨⟨_ | _, position⟩, rest⟩, forms⟩
      · cases h
      · cases h
        cases hflaw
      · cases h
        cases hflaw

theorem exists_openText {rest : List Char} (h : ∀ tail, (splitText rest).2 ≠ '\x22' :: tail) :
    ∃ body after, scanText rest = (.openText body, after) := by
  unfold scanText
  split
  · next body tail heq => exact (h tail (by rw [heq])).elim
  · exact ⟨_, _, rfl⟩
  · exact ⟨_, _, rfl⟩

/-- The first string that is not closed is the error, whatever stands behind it. -/
theorem readAll_of_openText (hfold : row.foldlM Progress.step .start = .ok progress)
    {place : Position} {rest body after : List Char} (hscan : scanText rest = (.openText body, after))
    (htokens : tokens a = (row ++ ·) <$> tokensFrom place ('\x22' :: rest))
    (hlexes : ∃ all, tokens a = .ok all) : readAll a = .error ⟨.unterminatedString, place⟩ := by
  have hquote : tokensFrom place ('\x22' :: rest) = (⟨.openText body, place⟩ :: ·) <$>
      tokensFrom (place.advanceBy (Lexeme.openText body).chars) after :=
    tokensFrom_of_some (by decide) (by decide)
      ((Lexeme.scan?_quote rest).trans (congrArg some hscan))
  obtain ⟨all, hall⟩ := hlexes
  rw [readAll, htokens, hquote]
  rw [htokens, hquote] at hall
  cases hafter : tokensFrom (place.advanceBy (Lexeme.openText body).chars) after with
  | error unexpected =>
      rw [hafter] at hall
      cases hall
  | ok later =>
      have hforms : formsOf (row ++ ⟨.openText body, place⟩ :: later) =
          .error ⟨.unterminatedString, place⟩ := by
        rw [formsOf_append_of_ok hfold]
        rfl
      exact hforms

/-- What a text asks for: its tokens are complete and forms or brackets are missing, or else the first
string that is not closed is the error. -/
inductive Missing (a : String) (error : Error) : Prop where
  | forms (row : List Token) (progress : Progress)
      (taken : row.foldlM Progress.step .start = .ok progress)
      (other : error.flaw ≠ .unterminatedString)
      (later : ∀ more, tokensFrom .start (a.toList ++ '\n' :: more) =
        (row ++ ·) <$> tokensFrom (Position.start.advanceBy a.toList) ('\n' :: more))
  | quote (row : List Token) (progress : Progress)
      (taken : row.foldlM Progress.step .start = .ok progress)
      (front rest : List Char) (split : a.toList = front ++ '\x22' :: rest)
      (unclosed : ∀ tail, (splitText rest).2 ≠ '\x22' :: tail)
      (place : error = ⟨.unterminatedString, Position.start.advanceBy front⟩)
      (later : ∀ more, tokensFrom .start (a.toList ++ more) =
        (row ++ ·) <$> tokensFrom (Position.start.advanceBy front) ('\x22' :: (rest ++ more)))

theorem missing_of_incomplete (h : readAll a = .error error)
    (hincomplete : error.isIncomplete = true) : Missing a error := by
  obtain ⟨all, hall, hforms⟩ := exists_tokens_of_incomplete h hincomplete
  cases ending_tokensFrom .start a.toList with
  | error other now =>
      rw [tokens, now] at hall
      cases hall
  | complete row closed now later =>
      have htokens : tokens a = (row ++ ·) <$> .ok [] := by
        rw [tokens, now, Except.map_ok, List.append_nil]
      obtain ⟨progress, hfold⟩ := exists_progress_of_incomplete h hincomplete closed htokens
      rw [tokens, now, Except.ok.injEq] at hall
      rw [← hall] at hforms
      exact .forms row progress hfold (flaw_ne_of_closed closed hforms) later
  | openText row closed front rest split unclosed later =>
      have htokens : tokens a =
          (row ++ ·) <$> tokensFrom (Position.start.advanceBy front) ('\x22' :: rest) := by
        simpa [tokens] using later []
      obtain ⟨progress, hfold⟩ := exists_progress_of_incomplete h hincomplete closed htokens
      obtain ⟨_, _, hscan⟩ := exists_openText unclosed
      have hread := readAll_of_openText hfold hscan htokens ⟨all, hall⟩
      rw [h] at hread
      exact .quote row progress hfold front rest split unclosed (Except.error.inj hread) later

/-- An incomplete text can be completed, unless its error is a string that is broken off. -/
theorem exists_completion (h : readAll a = .error error) (hincomplete : error.isIncomplete = true)
    (hbroken : ¬BrokenOff a.toList error) : ∃ b, Completes a b := by
  cases missing_of_incomplete h hincomplete with
  | forms row progress taken other later => exact exists_completes_of_complete taken later
  | quote row progress taken front rest split unclosed place later =>
      rcases closable_or_broken unclosed with ⟨fix, hfix⟩ | ⟨body, hbody, tail, rfl⟩
      · exact exists_completes_of_open taken hfix later
      · exact (hbroken ⟨front, body, tail, split, hbody, place⟩).elim

/-- Behind a string that is broken off, every text that can be cut into tokens leaves the error as it
is. -/
theorem readAll_of_brokenOff (h : readAll a = .error error) (hbroken : BrokenOff a.toList error)
    (b : String) (hlexes : ∃ all, tokens (a ++ b) = .ok all) : readAll (a ++ b) = .error error := by
  obtain ⟨front, body, tail, htext, hbody, rfl⟩ := hbroken
  cases missing_of_incomplete h rfl with
  | forms row progress taken other later => exact (other rfl).elim
  | quote row progress taken before rest split unclosed place later =>
      -- The first string that is not closed is the one that is broken off.
      obtain rfl :=
        front_eq_of_advanceBy_eq (htext.symm.trans split) (congrArg Error.position place)
      obtain ⟨_, rfl⟩ := List.cons.inj (List.append_cancel_left (htext.symm.trans split))
      have hscan : scanText (body ++ '\\' :: '\n' :: (tail ++ b.toList)) =
          (.openText (body ++ ['\\']), '\n' :: (tail ++ b.toList)) := by
        rw [scanText, splitText_append_of_mem hbody]
        simp [splitText]
      refine readAll_of_openText taken hscan ?_ hlexes
      rw [tokens, String.toList_append, later]
      simp

/-- More input can finish what is open, but for one kind of text.  Take a source text that reading
finds incomplete.  There is a text to go on with that leaves nothing open, unless the error is about a
string in which a backslash stands in front of a line break.  If it is, then the text stays incomplete
with the very same error, whatever tokens follow. -/
theorem completes_iff_not_brokenOff (h : readAll a = .error error)
    (hincomplete : error.isIncomplete = true) :
    ((∃ b, Completes a b) ↔ ¬BrokenOff a.toList error) ∧
      (BrokenOff a.toList error → ∀ b, (∃ row, tokens (a ++ b) = .ok row) →
        readAll (a ++ b) = .error error) := by
  refine ⟨⟨?_, exists_completion h hincomplete⟩, fun hbroken => readAll_of_brokenOff h hbroken⟩
  rintro ⟨b, hlexes, hdecided⟩ hbroken
  have hsame := hdecided error (readAll_of_brokenOff h hbroken b hlexes)
  rw [hincomplete] at hsame
  cases hsame

/-- A string that stops behind a backslash, in a map behind a quote mark, can be completed. -/
theorem completes_iff_not_brokenOff_backslash :
    readAll "\x7b:a '\"x\\" = .error ⟨.unterminatedString, ⟨1, 6, 5⟩⟩ ∧
      ∃ b, Completes "\x7b:a '\"x\\" b := by
  have hread : readAll "\x7b:a '\"x\\" = .error ⟨.unterminatedString, ⟨1, 6, 5⟩⟩ := by cbv
  refine ⟨hread, (completes_iff_not_brokenOff hread rfl).1.mpr ?_⟩
  -- There is no line break in it.
  rintro ⟨front, body, rest, htext, _⟩
  have hline : '\n' ∈ "\x7b:a '\"x\\".toList := by
    rw [htext]
    simp
  exact absurd hline (by decide)

/-- A quote, a backslash and a line break: nothing completes this text. -/
theorem not_completes_broken_off :
    readAll "\"\\\n" = .error ⟨.unterminatedString, .start⟩ ∧ ∀ b, ¬Completes "\"\\\n" b := by
  have hread : readAll "\"\\\n" = .error ⟨.unterminatedString, .start⟩ := by cbv
  have hbroken : BrokenOff "\"\\\n".toList ⟨.unterminatedString, .start⟩ :=
    ⟨[], [], [], by decide, Language.nil_mem_kstar _, rfl⟩
  refine ⟨hread, ?_⟩
  rintro b ⟨hlexes, hdecided⟩
  cases hdecided _ (readAll_of_brokenOff hread hbroken b hlexes)

end Errors

end Reader
end LazyLisp
