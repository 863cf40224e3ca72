import LazyLisp.Proofs.Async.Foreground
import LazyLisp.Proofs.Machine.Evaluates
import LazyLisp.Proofs.Value.ReadBack

/-!
# Code — source text inside a program

A program can hold another program as a string, read it and evaluate what it has read.  Reading one
form and reading all forms agree on a text that one form can be read from, and both leave the form
to be evaluated in the same scope with the same things waiting, so it makes no difference that the
text is quoted.  This file defines `Program.quotation`, the program that does this for a given source
text.

Main results: `Reader.readAll_quotation`, how that program is read; `Async.quietly_quotation`, that it
comes down to the form, whatever waits; and `Program.run_quotation`, a property of whole programs.
-/

namespace LazyLisp

/-- The program that reads the given source text and evaluates what it has read. -/
def Program.quotation (source : String) : String :=
  "(eval (parse " ++ (Value.text source).inspect ++ "))"

/-- That program as a form.  The symbols stand at the given places. -/
def Program.quotationForm (outer inner : Option Position) (source : String) : Value :=
  .list [.symbol ⟨"eval", outer⟩, .list [.symbol ⟨"parse", inner⟩, .text source]]

/-! ## Reading it -/

namespace Value

variable {copy : Value}

theorem exists_symbol_of_equal {symbol : Symbol} (h : (Value.symbol symbol).equal copy = true) :
    ∃ position, copy = .symbol ⟨symbol.name, position⟩ := by
  cases copy with
  | symbol other =>
      obtain ⟨name, position⟩ := other
      simp only [Value.equal, beq_iff_eq] at h
      exact ⟨position, by rw [h]⟩
  | _ => cases h

theorem eq_text_of_equal {text : String} (h : (Value.text text).equal copy = true) :
    copy = .text text := by
  cases copy with
  | text other =>
      simp only [Value.equal, beq_iff_eq] at h
      rw [h]
  | _ => cases h

theorem exists_pair_of_equal {first second : Value}
    (h : (Value.list [first, second]).equal copy = true) :
    ∃ first' second', copy = .list [first', second'] ∧ first.equal first' = true ∧
      second.equal second' = true := by
  cases copy with
  | list items =>
      rcases items with _ | ⟨first', _ | ⟨second', _ | ⟨third, rest⟩⟩⟩
      all_goals simp [Value.equal, Value.equalAll] at h
      exact ⟨first', second', rfl, h⟩
  | _ => cases h

end Value

namespace Reader

/-- Equality ignores the places of symbols, and nothing else of this form. -/
theorem exists_quotationForm {source : String} {copy : Value}
    (h : (Program.quotationForm none none source).equal copy = true) :
    ∃ outer inner, copy = Program.quotationForm outer inner source := by
  obtain ⟨head, operand, rfl, hhead, hoperand⟩ := Value.exists_pair_of_equal h
  obtain ⟨reader, text, rfl, hreader, htext⟩ := Value.exists_pair_of_equal hoperand
  obtain ⟨outer, rfl⟩ := Value.exists_symbol_of_equal hhead
  obtain ⟨inner, rfl⟩ := Value.exists_symbol_of_equal hreader
  obtain rfl := Value.eq_text_of_equal htext
  exact ⟨outer, inner, rfl⟩

theorem yields_quotation (source : String) :
    Yields (Program.quotation source).toList (Derives (Program.quotationForm none none source)) := by
  have heval : Symbol.IsToken ⟨"eval", none⟩ := by
    unfold Symbol.IsToken
    cbv
  have hparse : Symbol.IsToken ⟨"parse", none⟩ := by
    unfold Symbol.IsToken
    cbv
  have hinner := yields_list (.intercalate derivesAll_nil derivesAll_cons
    (.cons (yields_symbol hparse) (.cons (yields_encode source) .nil)))
  have houter := yields_list (.intercalate derivesAll_nil derivesAll_cons
    (.cons (yields_symbol heval) (.cons hinner .nil)))
  have htext : bracketed "(" ")" ["eval", bracketed "(" ")" ["parse", Quoted.encode source]] =
      Program.quotation source := by
    apply String.toList_inj.mp
    simp [bracketed, Program.quotation, Value.inspect, Value.inspectAt]
  rw [← htext]
  exact houter

/-- The quoted text is read as one string, wherever it contains quotes or backslashes. -/
theorem readAll_quotation (source : String) :
    ∃ outer inner, readAll (Program.quotation source) =
      .ok [Program.quotationForm outer inner source] := by
  obtain ⟨row, ⟨tree, rfl, hequal⟩, htokens⟩ := (yields_quotation source).tokens
  obtain ⟨outer, inner, htree⟩ := exists_quotationForm hequal
  refine ⟨outer, inner, ?_⟩
  rw [← htree]
  exact readAll_of_tokens htokens

end Reader

/-! ## Evaluating it -/

/-- In the scope, `eval` and `parse` are bound to the builtins, which go by the given names. -/
def Store.Interprets (store : Store) (scope : Scope) (evaluator reader : String) : Prop :=
  store.get scope "eval" = .ok (.func (.native evaluator .evaluate)) ∧
    store.get scope "parse" = .ok (.func (.native reader .read))

namespace Async

open Machine

variable {host : Host} {holds : Store → Prop} {scope : Scope} {source reader evaluator : String}
  {form : Value}

/-- A value that is not suspended passes through a trampoline. -/
theorem step_trampoline_of_inert (h : form.Inert) (site : Option CallSite) (stack : List Pending)
    (me : EvaluationId) (store : Store) :
    step host ⟨.run (.done (.ok form)), .trampoline site :: stack, me, store⟩ =
      .next ⟨.run (.done (.ok form)), stack, me, store⟩ := by
  cases h
  all_goals rfl

/-- A form whose head is bound to a function calls the function. -/
theorem quietly_call {symbol : Symbol} {func : Func}
    (hget : ∀ store, holds store → store.get scope symbol.name = .ok (.func func))
    (operands : List Value) (site : Option CallSite) (stack : List Pending) (me : EvaluationId) :
    Quietly host holds
      (.working (.run (Form.step (.list (.symbol symbol :: operands)) scope))
        (.trampoline site :: stack) me)
      (.working (.resume (.call func (.symbol symbol) operands scope))
        (.trampoline ((func.callSite? (.symbol symbol)).or site) :: stack) me) := by
  refine .head (.step (fun _ heq => by cases heq) fun _ _ => rfl) ?_
  -- The head is looked up.
  refine .head (.step (fun _ heq => by cases heq) fun store h => step_symbol (hget store h) _) ?_
  refine .head (.step (fun _ heq => by cases heq) fun _ _ => rfl) ?_
  refine .head (.step (fun _ heq => by cases heq) fun _ _ => rfl) ?_
  exact .single (.step (fun _ heq => by cases heq) fun _ _ => rfl)

/-- Reading a text comes to the form in it. -/
theorem quietly_read {symbol : Symbol}
    (hget : ∀ store, holds store → store.get scope symbol.name = .ok (.func (.native reader .read)))
    (hread : Reader.readOne source = .ok form) (stack : List Pending) (me : EvaluationId) :
    Quietly host holds
      (.working (.run (Form.step (.list [.symbol symbol, .text source]) scope))
        (.trampoline none :: stack) me)
      (.working (.run (.done (.ok form))) stack me) := by
  refine (quietly_call hget [.text source] none stack me).trans ?_
  refine .head (.step (fun _ heq => by cases heq) fun _ _ => rfl) ?_
  refine .head (.step (fun _ heq => by cases heq) fun _ _ => rfl) ?_
  refine .head (.step (fun _ heq => by cases heq) fun _ _ => rfl) ?_
  refine .head (.step (fun _ heq => by cases heq) fun _ _ => rfl) ?_
  refine .single (.step (fun _ heq => by cases heq) fun store _ => ?_)
  simp only [Script.bind_done_ok, hread]
  exact step_trampoline_of_inert (Reader.inert_of_readOne hread) _ stack me store

/-- Whatever waits, the quotation comes down to the form in the text. -/
theorem quietly_quotation (hbound : ∀ store, holds store → store.Interprets scope evaluator reader)
    (outer inner : Option Position) (hread : Reader.readOne source = .ok form)
    (stack : List Pending) (me : EvaluationId) :
    Quietly host holds
      (.working (.run (Form.step (Program.quotationForm outer inner source) scope))
        (.trampoline none :: stack) me)
      (.working (.run (Form.step form scope)) (.trampoline none :: stack) me) := by
  refine (quietly_call (fun store h => (hbound store h).1) _ none stack me).trans ?_
  -- The operand is evaluated, and what it comes to is left to be evaluated in its place.
  refine .head (.step (fun _ heq => by cases heq) fun _ _ => rfl) ?_
  refine .head (.step (fun _ heq => by cases heq) fun _ _ => rfl) ?_
  refine (quietly_read (fun store h => (hbound store h).2) hread _ me).trans ?_
  refine .head (.step (fun _ heq => by cases heq) fun _ _ => rfl) ?_
  refine .head (.step (fun _ heq => by cases heq) fun _ _ => rfl) ?_
  exact .single (.step (fun _ heq => by cases heq) fun _ _ => rfl)

end Async

/-! ## Whole programs -/

namespace Program

open Machine Reader Async

variable {host : Host} {holds : Store → Prop} {source : String} {form : Value}

/-- What a program starts with. -/
def opening (source : String) (scope : Scope) : Activity :=
  .working (.run (evaluate source scope)) [] mainEvaluation

/-- A form is evaluated, and the program comes to what the form comes to. -/
def lastForm (form : Value) (scope : Scope) : Activity :=
  .working (.run (Form.step form scope)) [.trampoline none,
    .await fun result => (Script.done result).bind fun value => evaluateAll scope value []]
    mainEvaluation

/-- A program of one form leaves it to be evaluated. -/
theorem quietly_lastForm (h : readAll source = .ok [form]) (scope : Scope) :
    Quietly host holds (opening source scope) (lastForm form scope) := by
  have hscript : evaluate source scope =
      (Script.value form scope).bind fun value => evaluateAll scope value [] := by
    rw [evaluate, h]
    rfl
  rw [opening, hscript]
  exact .single (.step (fun _ heq => by cases heq) fun _ _ => rfl)

/-- The quotation of a text and the text itself, as programs, come down to the same. -/
theorem exists_quietly_quotation (host : Host) {scope : Scope} {evaluator reader : String}
    (hbound : ∀ store, holds store → store.Interprets scope evaluator reader)
    (hread : readOne source = .ok form) :
    ∃ activity, Quietly host holds (opening (quotation source) scope) activity ∧
      Quietly host holds (opening source scope) activity := by
  obtain ⟨outer, inner, hquotation⟩ := readAll_quotation source
  have hform : Quietly host holds (opening (quotation source) scope) _ :=
    quietly_lastForm hquotation scope
  have hquoted := hform.trans (quietly_quotation hbound outer inner hread _ _)
  rcases readAll_of_readOne hread with hform | ⟨hempty, rfl⟩
  · exact ⟨lastForm form scope, hquoted, quietly_lastForm hform scope⟩
  -- A text without any form is a program that comes to nil at once.
  · have hdirect : evaluate source scope = pure .nil := by
      rw [evaluate, hempty]
      rfl
    refine ⟨opening source scope, hquoted.trans ?_, .refl⟩
    rw [opening, hdirect]
    refine .head (.step (fun _ heq => by cases heq) fun _ _ => rfl) ?_
    exact .single (.step (fun _ heq => by cases heq) fun _ _ => rfl)

/-- Evaluating quoted source text is the same as running it.  Take a text that one form can be read
from, any point of an execution at which the main thread is at rest, and a scope in which `eval` and
`parse` are bound to the builtins, and stay so whatever the workers do meanwhile.  The program that
reads and evaluates the text and the text itself as a program come to the same point, by steps that
leave the store alone.  So they come to the same ends, be it an outcome or a standstill: the same
value, or the same failure with its trace, and the same store, which is what has been printed, the
frames and the cells, with the workers at the same. -/
theorem run_quotation {start system : System} {log : Log} (hstart : start.Fresh)
    (h : Execution host start log system) (hrests : system.Rests) {scope : Scope}
    {evaluator reader : String}
    (hbound : ∀ later, Proceeds host system later → later.store.Interprets scope evaluator reader)
    (hread : readOne source = .ok form) :
    (∃ activity,
      Quietly host (·.Interprets scope evaluator reader) (opening (quotation source) scope)
          activity ∧
        Quietly host (·.Interprets scope evaluator reader) (opening source scope) activity) ∧
      ∀ last, last.Ended host →
        (Proceeds host (system.begun (.ofScript (evaluate (quotation source) scope))) last ↔
          Proceeds host (system.begun (.ofScript (evaluate source scope))) last) := by
  obtain ⟨activity, hquoted, hdirect⟩ := exists_quietly_quotation host (fun _ h => h) hread
  refine ⟨⟨activity, hquoted, hdirect⟩, fun last hlast => ?_⟩
  have hsteady := steady_of_execution hstart h
  have hquotation := proceeds_iff_of_quietly hquoted hsteady hrests hbound hlast
  have hsource := proceeds_iff_of_quietly hdirect hsteady hrests hbound hlast
  exact hquotation.trans hsource.symm

/-- A text with a string in it that ends in a backslash, quoted and run. -/
theorem run_quotation_print :
    quotation "(prn \"a\\\\\")" = "(eval (parse \"(prn \\\"a\\\\\\\\\\\")\"))" ∧
      ∃ last, Proceeds .empty
          (System.begun ⟨.base, fun _ => .idle⟩
            (.ofScript (evaluate (quotation "(prn \"a\\\\\")") .base))) last ∧
        last.threads mainEvaluation = .finished (.ok .nil) ∧
        last.store = { Store.base with output := "a\\\n" } := by
  let start : System := ⟨.base, fun _ => .idle⟩
  have hstart : start.Fresh := ⟨rfl, fun _ => rfl⟩
  have hread : readOne "(prn \"a\\\\\")" =
      .ok (.list [.symbol ⟨"prn", some ⟨1, 2, 1⟩⟩, .text "a\\"]) := by
    cbv
  have hform : readAll "(prn \"a\\\\\")" =
      .ok [.list [.symbol ⟨"prn", some ⟨1, 2, 1⟩⟩, .text "a\\"]] := by
    cbv
  have hrun : Machine.run .empty 41 (.ofScript (evaluate "(prn \"a\\\\\")" .base) .base) =
      .finished (.ok .nil) { Store.base with output := "a\\\n" } := by
    rw [evaluate, hform]
    rfl
  have hsource := proceeds_of_run (steady_of_fresh hstart) (.inl rfl) (.script _ _) rfl
    (fun _ _ => rfl) hrun rfl
  -- Nobody else is there, so the names stay bound.
  have hbound : ∀ later, Proceeds .empty start later →
      later.store.Interprets .base "eval" "parse" := by
    intro later hlater
    cases eq_of_proceeds_idle hlater fun _ => rfl
    exact ⟨rfl, rfl⟩
  have hended : (start.put mainEvaluation (.finished (.ok .nil))
      { Store.base with output := "a\\\n" }).Ended .empty := .inl ⟨_, System.threads_put ..⟩
  have hquotation := run_quotation hstart .refl (.inl rfl) hbound hread
  exact ⟨by decide +kernel, _, (hquotation.2 _ hended).mpr hsource, System.threads_put .., rfl⟩

end Program
end LazyLisp
