import LazyLisp.Proofs.Reader.Slices
import LazyLisp.Proofs.Text.Escapes

/-!
# Descent — reading without fallbacks

Tokens can also be read by recursive descent, from nothing but their kinds and their places.  Their
texts are cut out of the source when they are asked for, and whatever could go wrong there has a
branch of its own.  Here such a descent is compared with the reader, and none of these branches is
ever taken.  This file defines:

* `TokenKind` and `Span`, what is left of a token without its text;
* `Fallback`, the branches that stand in for something impossible, and `Stop`, why a descent ends;
* `Descent.form`, `Descent.seq` and `Descent.items`, the descent, with `Descent.readAll` and
  `Descent.readOne` for whole texts;
* `FormOutcome` and `ItemsOutcome`, that a descent comes to what the steps of the reader come to.

Main result: `fallbacks_unreachable`.
-/

namespace LazyLisp
namespace Reader

open scoped Computability

/-! ## The descent -/

/-- What a token is, apart from what it says. -/
inductive TokenKind where
  | opening (delimiter : Delimiter)
  | closing (delimiter : Delimiter)
  | quoteMark
  | number
  | text
  | openText
  | key
  | symbol
deriving DecidableEq

def Lexeme.kind : Lexeme → TokenKind
  | .opening delimiter => .opening delimiter
  | .closing delimiter => .closing delimiter
  | .quoteMark => .quoteMark
  | .number _ => .number
  | .text _ => .text
  | .openText _ => .openText
  | .key _ => .key
  | .symbol _ => .symbol

/-- The kind that closes what a kind opens, and the character that it is opened with. -/
def TokenKind.closer? : TokenKind → Option (TokenKind × Char)
  | .opening delimiter => some (.closing delimiter, delimiter.opening)
  | _ => none

/-- A token by its place: where it starts, and the byte behind it. -/
structure Span where
  kind : TokenKind
  start : Position
  stop : Nat

def Token.span (token : Token) : Span := ⟨token.lexeme.kind, token.position, token.stop.offset⟩

/-- The branches that stand in for something impossible. -/
inductive Fallback where
  /-- A token does not lie within the source text, between boundaries of characters. -/
  | slice
  /-- There is no text between the quotes of a string. -/
  | body
  /-- There is no text behind the colon of a key. -/
  | name
  /-- The text of a number is none. -/
  | number
  /-- What opens a sequence has no closer. -/
  | opener
  /-- A backslash at the end of a string escapes nothing. -/
  | backslash
deriving DecidableEq

/-- Why a descent ends before it has a result.  Fallbacks do not go on with some other value, so that
the result tells whether one was taken. -/
inductive Stop where
  | fallback (branch : Fallback)
  | error (error : Error)

/-- What was read, and the spans behind it, no more than `bound` of them. -/
structure Parsed (α : Type) (bound : Nat) where
  value : α
  later : List Span
  length_le : later.length ≤ bound

namespace Descent

/-- What has to be there, or a fallback. -/
def require {α : Type} (branch : Fallback) : Option α → Except Stop α
  | some a => .ok a
  | none => .error (.fallback branch)

/-- The source text of a token. -/
def slice (source : String) (span : Span) : Except Stop String :=
  require .slice (slice? source span.start.offset span.stop)

def number (source : String) (span : Span) : Except Stop Value := do
  let text ← slice source span
  let n ← require .number (Decimal.ofString? text)
  .ok (.number n)

def text (source : String) (span : Span) : Except Stop Value := do
  let text ← slice source span
  let body ← require .body (slice? text 1 (text.utf8ByteSize - 1))
  match Quoted.decode body.toList with
  | .ok decoded => .ok (.text (String.ofList decoded))
  | .error escape =>
      -- No other escape is a backslash alone.
      if escape = "\\" then .error (.fallback .backslash)
      else .error (.error ⟨.badEscape escape, span.start⟩)

def key (source : String) (span : Span) : Except Stop Value := do
  let text ← slice source span
  let name ← require .name (slice? text 1 text.utf8ByteSize)
  .ok (.key ⟨name⟩)

def symbol (source : String) (span : Span) : Except Stop Value := do
  let name ← slice source span
  .ok (.symbol ⟨name, some span.start⟩)

/-- A closing bracket in the place of a form. -/
def stray (source : String) (span : Span) : Except Stop Value := do
  let text ← slice source span
  .error (.error ⟨.unexpectedToken text, span.start⟩)

/-- A flaw in a form is an error at its first token. -/
def located (position : Position) {α : Type} (result : Except Flaw α) : Except Stop α :=
  result.mapError fun flaw => .error ⟨flaw, position⟩

/-- A form that is one token. -/
def leaf (rest : List Span) (value : Except Stop Value) : Except Stop (Parsed Value rest.length) :=
  (⟨·, rest, le_rfl⟩) <$> value

/-- Make something of what was read. -/
def conclude {α β : Type} {bound limit : Nat} (result : Except Stop (Parsed α bound))
    (f : α → Except Stop β) (hle : bound ≤ limit) : Except Stop (Parsed β limit) := do
  let parsed ← result
  let value ← f parsed.value
  .ok ⟨value, parsed.later, parsed.length_le.trans hle⟩

mutual

/-- The form that begins with `span`. -/
def form (source : String) (span : Span) (rest : List Span) :
    Except Stop (Parsed Value rest.length) :=
  match span.kind with
  | .opening delimiter =>
      conclude (seq source span rest) (fun forms => located span.start (closeForm delimiter forms))
        le_rfl
  | .closing _ => leaf rest (stray source span)
  | .quoteMark =>
      match rest with
      | [] => .error (.error ⟨.danglingQuote, span.start⟩)
      | next :: rest =>
          conclude (form source next rest) (fun form => .ok form.quoted) (Nat.le_succ _)
  | .number => leaf rest (number source span)
  | .text => leaf rest (text source span)
  | .openText => .error (.error ⟨.unterminatedString, span.start⟩)
  | .key => leaf rest (key source span)
  | .symbol => leaf rest (symbol source span)
termination_by (rest.length, 2)

/-- The forms behind `span`, up to what closes it. -/
def seq (source : String) (span : Span) (rest : List Span) :
    Except Stop (Parsed (List Value) rest.length) :=
  match span.kind.closer? with
  | none => .error (.fallback .opener)
  | some (close, opening) => items source close ⟨.unclosedDelimiter opening, span.start⟩ [] rest
termination_by (rest.length, 1)

/-- The forms up to `close`, behind those that are read already, the latest of them first. -/
def items (source : String) (close : TokenKind) (unclosed : Error) (read : List Value)
    (row : List Span) : Except Stop (Parsed (List Value) row.length) :=
  match row with
  | [] => .error (.error unclosed)
  | next :: rest =>
      if next.kind = close then .ok ⟨read.reverse, rest, Nat.le_succ _⟩
      else
        match form source next rest with
        | .error stop => .error stop
        | .ok inner =>
            have hle : inner.later.length ≤ rest.length := inner.length_le
            conclude (items source close unclosed (inner.value :: read) inner.later) .ok
              (Nat.le_succ_of_le hle)
termination_by (row.length, 0)

end

/-- Every form of a row. -/
def forms (source : String) (row : List Span) : Except Stop (List Value) :=
  match row with
  | [] => .ok []
  | span :: rest =>
      match form source span rest with
      | .error stop => .error stop
      | .ok parsed =>
          have : parsed.later.length ≤ rest.length := parsed.length_le
          (parsed.value :: ·) <$> forms source parsed.later
termination_by row.length

/-- Every form of a source text. -/
def readAll (source : String) : Except Stop (List Value) := do
  let row ← (tokens source).mapError .error
  forms source (row.map Token.span)

/-- The only form of a source text; a text without any reads as nil. -/
def readOne (source : String) : Except Stop Value := do
  let row ← (tokens source).mapError .error
  match row.map Token.span with
  | [] => .ok .nil
  | span :: rest =>
      let parsed ← form source span rest
      match parsed.later with
      | [] => .ok parsed.value
      | next :: _ => .error (.error ⟨.trailingInput, next.start⟩)

end Descent

/-! ## Forms of one token -/

section Leaves

variable {source : String} {position : Position}

theorem slice_span {token : Token} (h : token.Sound source) :
    Descent.slice source token.span = .ok (String.ofList token.lexeme.chars) := by
  rw [Descent.slice, Token.span, h.slice, Descent.require]

theorem number_span {digits : List Char} (h : Token.Sound source ⟨.number digits, position⟩) :
    Descent.number source (Token.span ⟨.number digits, position⟩) =
      Descent.located position (numberForm digits) := by
  have hnumber := h.number digits rfl
  rw [Descent.number, slice_span h, numberForm, hnumber]
  simp only [Lexeme.chars, Except.bind, bind, hnumber, Descent.require]
  rfl

theorem text_span {body : List Char} (h : Token.Sound source ⟨.text body, position⟩) :
    Descent.text source (Token.span ⟨.text body, position⟩) =
      Descent.located position (textForm body) := by
  obtain ⟨hbody, hdangling⟩ := h.text body rfl
  rw [Descent.text, slice_span h, textForm]
  simp only [bind, Except.bind, hbody, Descent.require, String.toList_ofList]
  cases hdecode : Quoted.decode body with
  | ok decoded => rfl
  | error escape =>
      have hescape : escape ≠ "\\" := by
        rintro rfl
        exact hdangling (Quoted.dangling_of_decode hdecode)
      simp only [if_neg hescape]
      rfl

theorem key_span {name : List Char} (h : Token.Sound source ⟨.key name, position⟩) :
    Descent.key source (Token.span ⟨.key name, position⟩) =
      Descent.located position (.ok (.key ⟨String.ofList name⟩)) := by
  rw [Descent.key, slice_span h]
  simp only [bind, Except.bind, h.key name rfl, Descent.require]
  rfl

theorem symbol_span {name : List Char} (h : Token.Sound source ⟨.symbol name, position⟩) :
    Descent.symbol source (Token.span ⟨.symbol name, position⟩) =
      Descent.located position (.ok (.symbol ⟨String.ofList name, some position⟩)) := by
  rw [Descent.symbol, slice_span h]
  rfl

theorem stray_span {delimiter : Delimiter} (h : Token.Sound source ⟨.closing delimiter, position⟩) :
    Descent.stray source (Token.span ⟨.closing delimiter, position⟩) =
      .error (.error ⟨.unexpectedToken (String.ofList [delimiter.closing]), position⟩) := by
  rw [Descent.stray, slice_span h]
  rfl

end Leaves

/-! ## Forms and sequences -/

/-- The token closes what is innermost. -/
def Progress.ClosedBy (progress : Progress) (token : Token) : Prop :=
  ∃ delimiter items position outer, token.lexeme = .closing delimiter ∧
    progress.opened = (.delimiter delimiter items, position) :: outer

theorem not_closedBy_nil (forms : List Value) (token : Token) :
    ¬Progress.ClosedBy ⟨[], forms⟩ token := by
  rintro ⟨_, _, _, _, -, hopened⟩
  cases hopened

/-- What a form makes of the progress, if there is no flaw in it. -/
def Progress.complete (progress : Progress) (position : Position) (form : Except Flaw Value) :
    Except Error Progress :=
  match form with
  | .ok value => .ok (progress.add value)
  | .error flaw => .error ⟨flaw, position⟩

/-- Where a form is read from `token` on, the steps of the reader add the same form, wherever they
begin, or they fail with the same error before it is complete. -/
inductive FormOutcome (token : Token) (rest : List Token) {bound : Nat} :
    Except Stop (Parsed Value bound) → Prop where
  | form {front later : List Token} {parsed : Parsed Value bound} :
      rest = front ++ later → parsed.later = later.map Token.span →
      (∀ progress : Progress,
        (token :: front).foldlM Progress.step progress = .ok (progress.add parsed.value)) →
        FormOutcome token rest (.ok parsed)
  | fails {error : Error} :
      (∀ progress : Progress, ¬progress.ClosedBy token →
        Fails progress (token :: rest) progress.forms.length error) →
        FormOutcome token rest (.error (.error error))

/-- Where forms are read up to a bracket, behind those in `read`, so do the steps of the reader inside
of that bracket. -/
inductive ItemsOutcome (delimiter : Delimiter) (openedAt : Position) (read : List Value)
    (row : List Token) {bound : Nat} : Except Stop (Parsed (List Value) bound) → Prop where
  | closed {front later : List Token} {closedAt : Position} {parsed : Parsed (List Value) bound} :
      row = front ++ ⟨.closing delimiter, closedAt⟩ :: later →
      parsed.later = later.map Token.span →
      (∀ outer forms,
        front.foldlM Progress.step ⟨(.delimiter delimiter read, openedAt) :: outer, forms⟩ =
          .ok ⟨(.delimiter delimiter parsed.value.reverse, openedAt) :: outer, forms⟩) →
        ItemsOutcome delimiter openedAt read row (.ok parsed)
  | fails {error : Error} :
      (∀ outer forms, Fails ⟨(.delimiter delimiter read, openedAt) :: outer, forms⟩ row
        forms.length error) →
        ItemsOutcome delimiter openedAt read row (.error (.error error))

theorem kind_eq_closing_iff {lexeme : Lexeme} {delimiter : Delimiter} :
    lexeme.kind = .closing delimiter ↔ lexeme = .closing delimiter := by
  cases lexeme <;> simp [Lexeme.kind]

/-- A token that is a form by itself. -/
theorem FormOutcome.leaf {token : Token} {rest : List Token} {result : Except Flaw Value}
    (hstep : ∀ progress : Progress, progress.step token = progress.complete token.position result) :
    FormOutcome token rest
      (Descent.leaf (rest.map Token.span) (Descent.located token.position result)) := by
  cases result with
  | ok value =>
      refine .form (List.nil_append rest).symm rfl fun progress => ?_
      rw [List.foldlM_cons, hstep]
      rfl
  | error flaw => exact .fails fun progress _ => .token rest (hstep progress)

/-- A bracket that closes nothing. -/
theorem FormOutcome.stray {delimiter : Delimiter} {position : Position} {rest : List Token} :
    FormOutcome ⟨.closing delimiter, position⟩ rest
      (Descent.leaf (rest.map Token.span)
        (.error (.error ⟨.unexpectedToken (String.ofList [delimiter.closing]), position⟩))) := by
  refine .fails fun progress hopen => .token rest ?_
  -- Nothing is open, or a bracket of another kind, or a quote mark waits for its form.
  rcases progress with ⟨_ | ⟨⟨_ | _, openedAt⟩, outer⟩, forms⟩
  · rfl
  · next opened items =>
      have hne : opened ≠ delimiter := by
        rintro rfl
        exact hopen ⟨_, _, _, _, rfl, rfl⟩
      simp only [Progress.step, if_neg hne]
      rfl
  · rfl

/-- A bracket and the forms behind it, up to what closes it. -/
theorem FormOutcome.bracket {delimiter : Delimiter} {position : Position} {rest : List Token}
    {bound : Nat} {result : Except Stop (Parsed (List Value) bound)}
    (h : ItemsOutcome delimiter position [] rest result) :
    FormOutcome ⟨.opening delimiter, position⟩ rest
      (Descent.conclude result
        (fun forms => Descent.located position (closeForm delimiter forms)) le_rfl) := by
  have hopen : ∀ progress : Progress, progress.step ⟨.opening delimiter, position⟩ =
      .ok ⟨(.delimiter delimiter [], position) :: progress.opened, progress.forms⟩ := fun _ => rfl
  cases h with
  | fails hfails => exact .fails fun progress _ => .later (hopen progress) (hfails _ _)
  | @closed front later closedAt inner hrest hlater hfront =>
      have hclose : ∀ progress : Progress,
          Progress.step
              ⟨(.delimiter delimiter inner.value.reverse, position) :: progress.opened,
                progress.forms⟩ ⟨.closing delimiter, closedAt⟩ =
            progress.complete position (closeForm delimiter inner.value) := by
        intro progress
        simp only [Progress.step, if_true, List.reverse_reverse]
        rfl
      simp only [Descent.conclude, bind, Except.bind]
      cases hform : closeForm delimiter inner.value with
      | ok value =>
          have hsplit : rest = (front ++ [⟨.closing delimiter, closedAt⟩]) ++ later := by
            simp [hrest]
          simp only [hform, Progress.complete] at hclose
          refine .form hsplit hlater fun progress => ?_
          simp only [List.foldlM_cons, List.foldlM_append, List.foldlM_nil, bind, Except.bind, hopen,
            hfront, hclose]
          rfl
      | error flaw =>
          simp only [hform, Progress.complete] at hclose
          rw [hrest]
          exact .fails fun progress _ =>
            .later (hopen progress) (.append (hfront _ _) (.token later (hclose progress)))

/-- A quote mark and the form behind it. -/
theorem FormOutcome.quoted {next : Token} {rest : List Token} {position : Position}
    {bound limit : Nat} {result : Except Stop (Parsed Value bound)} (h : FormOutcome next rest result)
    (hle : bound ≤ limit) :
    FormOutcome ⟨.quoteMark, position⟩ (next :: rest)
      (Descent.conclude result (fun form => .ok form.quoted) hle) := by
  have hopen : ∀ progress : Progress,
      progress.step ⟨.quoteMark, position⟩ = .ok (progress.push .quoteMark position) := fun _ => rfl
  cases h with
  | @form front later inner hrest hlater hfront =>
      have hsplit : next :: rest = (next :: front) ++ later := by rw [hrest, List.cons_append]
      refine .form hsplit hlater fun progress => ?_
      rw [List.foldlM_cons, hopen]
      exact hfront (progress.push .quoteMark position)
  | fails hfails =>
      refine .fails fun progress _ => .later (hopen progress) (hfails _ ?_)
      -- The quote mark is innermost now, and no bracket closes that.
      rintro ⟨_, _, _, _, -, hopened⟩
      cases hopened

/-- One more form inside a bracket. -/
theorem ItemsOutcome.cons {delimiter : Delimiter} {openedAt : Position} {read : List Value}
    {next : Token} {front later : List Token} {value : Value} {bound limit : Nat}
    {result : Except Stop (Parsed (List Value) bound)}
    (hfront : ∀ progress : Progress,
      (next :: front).foldlM Progress.step progress = .ok (progress.add value))
    (h : ItemsOutcome delimiter openedAt (value :: read) later result) (hle : bound ≤ limit) :
    ItemsOutcome delimiter openedAt read (next :: (front ++ later))
      (Descent.conclude result .ok hle) := by
  have hfold : ∀ outer forms,
      (next :: front).foldlM Progress.step ⟨(.delimiter delimiter read, openedAt) :: outer, forms⟩ =
        .ok ⟨(.delimiter delimiter (value :: read), openedAt) :: outer, forms⟩ :=
    fun outer forms => hfront _
  cases h with
  | @closed more behind closedAt all hrow hbehind hmore =>
      have hsplit : next :: (front ++ later) =
          ((next :: front) ++ more) ++ ⟨.closing delimiter, closedAt⟩ :: behind := by
        simp [hrow]
      refine .closed hsplit hbehind fun outer forms => ?_
      rw [List.foldlM_append, hfold]
      exact hmore outer forms
  | fails hfails => exact .fails fun outer forms => .append (hfold outer forms) (hfails outer forms)

section Outcomes

variable {source : String}

mutual

/-- By induction on the length of the row, one case for each kind of token. -/
theorem form_outcome (token : Token) (rest : List Token)
    (h : ∀ other ∈ token :: rest, other.Sound source) :
    FormOutcome token rest (Descent.form source token.span (rest.map Token.span)) := by
  obtain ⟨hsound, hrest⟩ := List.forall_mem_cons.mp h
  rcases token with ⟨lexeme, position⟩
  rw [Descent.form.eq_def]
  cases lexeme with
  | opening delimiter =>
      dsimp only [Token.span, Lexeme.kind]
      rw [Descent.seq.eq_def]
      exact .bracket (items_outcome delimiter position [] rest hrest)
  | closing delimiter =>
      rw [stray_span hsound]
      exact .stray
  | quoteMark =>
      cases rest with
      | nil => exact .fails fun progress _ => .later rfl (.finish rfl)
      | cons next rest =>
          rw [List.map_cons]
          exact .quoted (form_outcome next rest hrest) _
  | number digits =>
      rw [number_span hsound]
      exact .leaf fun progress => rfl
  | text body =>
      rw [text_span hsound]
      exact .leaf fun progress => rfl
  | openText body => exact .fails fun progress _ => .token rest rfl
  | key name =>
      rw [key_span hsound]
      exact .leaf fun progress => rfl
  | symbol name =>
      rw [symbol_span hsound]
      exact .leaf fun progress => rfl
termination_by (rest.length, 1)

theorem items_outcome (delimiter : Delimiter) (openedAt : Position) (read : List Value)
    (row : List Token) (h : ∀ token ∈ row, token.Sound source) :
    ItemsOutcome delimiter openedAt read row
      (Descent.items source (.closing delimiter)
        ⟨.unclosedDelimiter delimiter.opening, openedAt⟩ read (row.map Token.span)) := by
  rw [Descent.items.eq_def]
  cases row with
  | nil => exact .fails fun outer forms => .finish rfl
  | cons next rest =>
      rw [List.map_cons]
      dsimp only
      split
      · next hkind =>
          -- The bracket is closed, and nothing stands in front of what closes it.
          rcases next with ⟨lexeme, position⟩
          obtain rfl := kind_eq_closing_iff.mp hkind
          refine .closed (List.nil_append _).symm rfl fun outer forms => ?_
          rw [List.reverse_reverse]
          rfl
      · next hkind =>
          obtain ⟨-, hrest⟩ := List.forall_mem_cons.mp h
          have hform := form_outcome next rest h
          generalize Descent.form source next.span (rest.map Token.span) = result at hform ⊢
          cases hform with
          | fails hfails =>
              refine .fails fun outer forms => hfails _ ?_
              rintro ⟨_, _, _, _, hlexeme, hopened⟩
              cases hopened
              exact hkind (kind_eq_closing_iff.mpr hlexeme)
          | @form front later parsed hsplit hlater hfront =>
              subst hsplit
              rcases parsed with ⟨value, behind, hle⟩
              obtain rfl : behind = later.map Token.span := hlater
              have hbehind : ∀ token ∈ later, token.Sound source :=
                fun token hmem => hrest token (List.mem_append_right _ hmem)
              exact .cons hfront (items_outcome delimiter openedAt (value :: read) later hbehind) _
termination_by (row.length, 0)

end

/-- All forms of a row, behind those in `read`, are what the steps of the reader come to. -/
theorem forms_outcome (row : List Token) (h : ∀ token ∈ row, token.Sound source)
    (read : List Value) :
    (∃ values, Descent.forms source (row.map Token.span) = .ok values ∧
      row.foldlM Progress.step ⟨[], read⟩ = .ok ⟨[], values.reverse ++ read⟩) ∨
    ∃ error n, Descent.forms source (row.map Token.span) = .error (.error error) ∧
      Fails ⟨[], read⟩ row n error := by
  induction hlength : row.length using Nat.strongRecOn generalizing row read with
  | ind length ih =>
      rw [Descent.forms.eq_def]
      cases row with
      | nil => exact .inl ⟨[], rfl, rfl⟩
      | cons token rest =>
          have hform := form_outcome token rest h
          rw [List.map_cons]
          dsimp only
          generalize Descent.form source token.span (rest.map Token.span) = result at hform ⊢
          cases hform with
          | @fails error hfails =>
              exact .inr ⟨error, _, rfl, hfails _ (not_closedBy_nil read token)⟩
          | @form front later parsed hsplit hlater hfront =>
              subst hsplit
              rcases parsed with ⟨value, behind, hle⟩
              obtain rfl : behind = later.map Token.span := hlater
              have hbehind : ∀ other ∈ later, other.Sound source :=
                fun other hmem => h other (by simp [hmem])
              have hshorter : later.length < length := by
                rw [← hlength, List.length_cons, List.length_append]
                omega
              have hfold : (token :: front).foldlM Progress.step ⟨[], read⟩ =
                  .ok ⟨[], value :: read⟩ := hfront _
              rcases ih later.length hshorter later hbehind (value :: read) rfl with
                ⟨values, hvalues, hlast⟩ | ⟨error, n, hvalues, hfails⟩
              · refine .inl ⟨value :: values, by simp only [hvalues]; rfl, ?_⟩
                rw [← List.cons_append, List.foldlM_append, hfold, List.reverse_cons,
                  List.append_assoc]
                exact hlast
              · exact .inr ⟨error, n, by simp only [hvalues]; rfl, .append hfold hfails⟩

theorem forms_eq_formsOf {row : List Token} (h : ∀ token ∈ row, token.Sound source) :
    Descent.forms source (row.map Token.span) = (formsOf row).mapError .error := by
  rcases forms_outcome row h [] with ⟨values, hvalues, hfold⟩ | ⟨error, n, hvalues, hfails⟩
  · have hforms : formsOf row = .ok values := by
      rw [formsOf, Progress.start, hfold, List.append_nil]
      exact congrArg Except.ok values.reverse_reverse
    rw [hvalues, hforms]
    rfl
  · have hforms : formsOf row = .error error := exists_fails_iff.mpr ⟨n, hfails⟩
    rw [hvalues, hforms]
    rfl

end Outcomes

/-! ## Source text -/

section Source

variable {source : String} {row : List Token}

theorem Descent.readAll_eq (h : ∀ row, tokens source = .ok row → ∀ token ∈ row, token.Sound source) :
    Descent.readAll source = (Reader.readAll source).mapError .error := by
  cases hrow : tokens source with
  | error error =>
      rw [Descent.readAll, Reader.readAll, hrow]
      rfl
  | ok row =>
      rw [Descent.readAll, Reader.readAll, hrow]
      exact forms_eq_formsOf (h row hrow)

theorem Descent.readOne_eq (h : ∀ row, tokens source = .ok row → ∀ token ∈ row, token.Sound source) :
    Descent.readOne source = (Reader.readOne source).mapError .error := by
  cases hrow : tokens source with
  | error error =>
      rw [Descent.readOne, Reader.readOne, hrow]
      rfl
  | ok row =>
      have hsound := h row hrow
      rw [Descent.readOne, hrow]
      cases row with
      | nil =>
          rw [Reader.readOne, hrow]
          rfl
      | cons token rest =>
          have hform := form_outcome token rest hsound
          simp only [bind, Except.bind, Except.mapError, List.map_cons]
          generalize Descent.form source token.span (rest.map Token.span) = result at hform ⊢
          cases hform with
          | @fails error hfails =>
              have hstart : Fails .start (token :: rest) 0 error :=
                hfails .start (not_closedBy_nil [] token)
              rw [readOne_of_fails hrow hstart]
          | @form front later parsed hsplit hlater hfront =>
              obtain ⟨tree, htokens, hvalue⟩ := exists_tree_of_foldlM (hfront .start)
              rw [hsplit, ← List.cons_append, htokens] at hrow
              rw [Reader.readOne, hrow]
              simp only [bind, Except.bind, firstForm_tokens_append, hlater]
              cases later with
              | nil => simp [hvalue]
              | cons next behind => rfl

/-- The errors of the reader are no fallbacks. -/
theorem mapError_ne_fallback {α : Type} (result : Except Error α) (branch : Fallback) :
    result.mapError Stop.error ≠ .error (.fallback branch) := by
  intro h
  cases result <;> cases h

theorem flaw_ne_badNumber {error : Error} (h : ∀ token ∈ row, token.Sound source)
    (hforms : formsOf row = .error error) (word : String) : error.flaw ≠ .badNumber word := by
  obtain ⟨offender, hoffends, -⟩ := offends_of_formsOf hforms
  intro hflaw
  rw [hflaw] at hoffends
  cases hoffends with
  | @number front behind digits position _ hnone =>
      have hsome := (h ⟨.number digits, position⟩ (by simp)).number digits rfl
      rw [hnone] at hsome
      cases hsome
  | entries _ hclose =>
      rcases flaw_of_closeForm hclose with heq | ⟨found, heq⟩ <;> cases heq

/-- No number in a sound text is refused. -/
theorem badNumber_unreachable
    (h : ∀ row, tokens source = .ok row → ∀ token ∈ row, token.Sound source) (word : String)
    (position : Position) :
    Reader.readAll source ≠ .error ⟨.badNumber word, position⟩ ∧
      Reader.readOne source ≠ .error ⟨.badNumber word, position⟩ := by
  cases hrow : tokens source with
  | error error =>
      obtain ⟨-, _, c, _, -, -, hflaw, -⟩ := stuck_of_tokens hrow
      constructor
      · intro hread
        rw [Reader.readAll, hrow] at hread
        cases hread
        cases hflaw
      · intro hread
        rw [Reader.readOne, hrow] at hread
        cases hread
        cases hflaw
  | ok row =>
      constructor
      · intro hread
        rw [readAll_of_tokens_ok hrow] at hread
        exact flaw_ne_badNumber (h row hrow) hread word rfl
      · intro hread
        rcases fails_of_readOne hrow hread with hflaw | hfails
        · cases hflaw
        · exact flaw_ne_badNumber (h row hrow) (exists_fails_iff.mpr ⟨_, hfails⟩) word rfl

end Source

/-- A descent never takes a fallback.  The source text may be as long as any that can be stored, which
is less than `2 ^ 63` characters.

* All tokens are sound.  The text of each of them is cut out of the source, between boundaries of
  characters; a number is read as what its sign, its digits and its point spell out; the text between
  the quotes of a string is there, and ends in no backslash that escapes nothing; and so is the name
  behind the colon of a key.
* Reading by descent comes to what the reader comes to, be it forms or one of its errors, and so it is
  never stopped by a fallback.
* The reader refuses no number. -/
theorem fallbacks_unreachable (source : String) (hlength : source.length < 2 ^ 63) :
    (∀ row, tokens source = .ok row → ∀ token ∈ row, token.Sound source) ∧
    Descent.readAll source = (readAll source).mapError .error ∧
    Descent.readOne source = (readOne source).mapError .error ∧
    (∀ branch, Descent.readAll source ≠ .error (.fallback branch) ∧
      Descent.readOne source ≠ .error (.fallback branch)) ∧
    ∀ word position, readAll source ≠ .error ⟨.badNumber word, position⟩ ∧
      readOne source ≠ .error ⟨.badNumber word, position⟩ := by
  have hsound : ∀ row, tokens source = .ok row → ∀ token ∈ row, token.Sound source :=
    fun _ hrow _ hmem => sound_of_mem hlength hrow hmem
  have hall := Descent.readAll_eq hsound
  have hone := Descent.readOne_eq hsound
  refine ⟨hsound, hall, hone, fun branch => ?_, badNumber_unreachable hsound⟩
  rw [hall, hone]
  exact ⟨mapError_ne_fallback _ branch, mapError_ne_fallback _ branch⟩

/-- Characters of two bytes, a zero in front of a number, and an escape at the end of a string. -/
theorem fallbacks_unreachable_escape :
    "\x7b:é \x27(-01.50 \x22λ\\\\\x22 μ)\x7d".length < 2 ^ 63 ∧
    slice? "\x7b:é \x27(-01.50 \x22λ\\\\\x22 μ)\x7d" 14 20 = some "\x22λ\\\\\x22" ∧
    Decimal.ofString? "-01.50" = some ⟨-150, 2⟩ ∧
    Descent.readOne "\x7b:é \x27(-01.50 \x22λ\\\\\x22 μ)\x7d" =
      .ok (.map [(⟨"é"⟩, Value.quoted (.list [.number ⟨-150, 2⟩, .text "λ\\",
        .symbol ⟨"μ", some ⟨1, 20, 21⟩⟩]))]) := by
  have hlength : "\x7b:é \x27(-01.50 \x22λ\\\\\x22 μ)\x7d".length < 2 ^ 63 := by decide
  obtain ⟨hsound, -, hone, -, -⟩ := fallbacks_unreachable _ hlength
  have htokens : tokens "\x7b:é \x27(-01.50 \x22λ\\\\\x22 μ)\x7d" = .ok
      [⟨.opening .brace, ⟨1, 1, 0⟩⟩, ⟨.key ['é'], ⟨1, 2, 1⟩⟩, ⟨.quoteMark, ⟨1, 5, 5⟩⟩,
        ⟨.opening .paren, ⟨1, 6, 6⟩⟩, ⟨.number ['-', '0', '1', '.', '5', '0'], ⟨1, 7, 7⟩⟩,
        ⟨.text ['λ', '\\', '\\'], ⟨1, 14, 14⟩⟩, ⟨.symbol ['μ'], ⟨1, 20, 21⟩⟩,
        ⟨.closing .paren, ⟨1, 21, 23⟩⟩, ⟨.closing .brace, ⟨1, 22, 24⟩⟩] := by
    cbv
  have hread : readOne "\x7b:é \x27(-01.50 \x22λ\\\\\x22 μ)\x7d" =
      .ok (.map [(⟨"é"⟩, Value.quoted (.list [.number ⟨-150, 2⟩, .text "λ\\",
        .symbol ⟨"μ", some ⟨1, 20, 21⟩⟩]))]) := by
    cbv
  have hstring := hsound _ htokens ⟨.text ['λ', '\\', '\\'], ⟨1, 14, 14⟩⟩ (by simp)
  have hnumber := hsound _ htokens ⟨.number ['-', '0', '1', '.', '5', '0'], ⟨1, 7, 7⟩⟩ (by simp)
  refine ⟨hlength, hstring.slice, ?_, ?_⟩
  · exact hnumber.number _ rfl
  · rw [hone, hread]
    rfl

end Reader
end LazyLisp
