import LazyLisp.Proofs.Direct.Memoization
import LazyLisp.Proofs.Direct.Trampoline

/-!
# Programs — memoization is invisible

A program that cannot change bindings or print does not notice that lazy bindings are resolved only
once: it comes to the same in call by name, where every read of a binding evaluates its form from
scratch.  There is one difference.  A binding that demands itself fails in call by need and has no
outcome in call by name, so programs are compared on runs in which no binding does.  This file
defines:

* `Store.quietBase`, the store that programs start from that cannot change bindings or print;
* `Value.outline` and `Result.outline`, what is compared of results.

Main results: `Direct.halts_program_iff`, that the machine runs programs as direct evaluation does,
and `Direct.finished_iff_byName`.
-/

namespace LazyLisp

/-! ## The quiet part of the language -/

/-- The names of builtins that change bindings, print or start workers. -/
def Builtin.loudNames : List String := ["def!", "defn!", "free!", "prn", "async", "wait"]

/-- The outermost frame without them. -/
def Store.quietBase : Store :=
  { frames := #[Builtin.frame.filter fun entry => entry.1 ∉ Builtin.loudNames] }

theorem Builtin.quiet_of_mem_table :
    ∀ entry ∈ Builtin.table, entry.1 ∉ Builtin.loudNames → entry.2.Quiet := by
  simp [Builtin.table, Builtin.loudNames, Operation.Quiet]

theorem Store.wellFormed_quietBase : Store.quietBase.WellFormed .quiet := by
  have hentries : ∀ entry ∈ Builtin.frame.filter fun entry => entry.1 ∉ Builtin.loudNames,
      Binding.EntryAlike .quiet Store.quietBase.link entry entry := by
    intro entry hmem
    rcases List.mem_filter.mp hmem with ⟨hframe, hloud⟩
    refine ⟨rfl, ?_⟩
    -- Constants are inert, and the functions that are left are quiet.
    rcases List.mem_append.mp hframe with hconstant | hbuiltin
    · rcases List.mem_map.mp hconstant with ⟨⟨name, value⟩, hvalue, rfl⟩
      have hinert : value.Inert := by
        simp only [Builtin.constants, List.mem_cons, Prod.mk.injEq, List.not_mem_nil, or_false]
          at hvalue
        rcases hvalue with ⟨_, rfl⟩ | ⟨_, rfl⟩ | ⟨_, rfl⟩
        · exact .nil
        · exact .bool true
        · exact .bool false
      exact .value (hinert.alike _ _)
    · rcases List.mem_map.mp hbuiltin with ⟨⟨name, operation⟩, htable, rfl⟩
      exact .value (.func (.native (Builtin.quiet_of_mem_table _ htable (by simpa using hloud))))
  refine ⟨fun frame frame' hframe => ?_, fun cell cell' hcell => ?_⟩
  · rcases hframe with ⟨rfl, hlt⟩
    have hzero : frame = 0 := Nat.lt_one_iff.mp hlt
    subst hzero
    exact ⟨hlt, hlt, List.forall₂_same.mpr hentries⟩
  · exact absurd hcell.2 (Nat.not_lt_zero cell)

/-! ## What is compared -/

mutual

/-- A value in which functions are known by name and parameters only. -/
def Value.outline : Value → Value
  | .list items => .list (Value.outlineAll items)
  | .vector items => .vector (Value.outlineAll items)
  | .map entries => .map (Entries.outline entries)
  | .func (.closure name params _ _) => .func (.closure name params .nil ⟨0, []⟩)
  | value => value

def Value.outlineAll : List Value → List Value
  | [] => []
  | value :: rest => value.outline :: Value.outlineAll rest

def Entries.outline : List (Key × Value) → List (Key × Value)
  | [] => []
  | (key, value) :: rest => (key, value.outline) :: Entries.outline rest

end

/-- A value by its outline, and a failure by its cause. -/
def Result.outline : Result → Except Cause Value
  | .ok value => .ok value.outline
  | .error failure => .error failure.cause

mutual

theorem Value.Alike.outline_eq {link : Link} {value value' : Value} :
    value.Alike .quiet link value' → value.outline = value'.outline
  | .nil => rfl
  | .bool _ => rfl
  | .number _ => rfl
  | .text _ => rfl
  | .symbol h => by rw [h.eq rfl]
  | .key _ => rfl
  | .list h => by simp only [Value.outline, h.outlineAll_eq]
  | .vector h => by simp only [Value.outline, h.outlineAll_eq]
  | .map h => by simp only [Value.outline, h.outline_eq]
  | .func (.native _) => rfl
  | .func (.closure hparams _ _) => by
      rw [Value.outline, Value.outline, Symbol.eq_of_forall₂_alike hparams rfl]

theorem Value.AllAlike.outlineAll_eq {link : Link} {items items' : List Value} :
    Value.AllAlike .quiet link items items' → Value.outlineAll items = Value.outlineAll items'
  | .nil => rfl
  | .cons hvalue hrest => by
      simp only [Value.outlineAll, hvalue.outline_eq, hrest.outlineAll_eq]

theorem Entries.Alike.outline_eq {link : Link} {entries entries' : List (Key × Value)} :
    Entries.Alike .quiet link entries entries' → Entries.outline entries = Entries.outline entries'
  | .nil => rfl
  | .cons hvalue hrest => by simp only [Entries.outline, hvalue.outline_eq, hrest.outline_eq]

end

theorem Result.Alike.outline_eq {link : Link} {result result' : Result}
    (h : Result.Alike .quiet link result result') : result.outline = result'.outline := by
  cases h with
  | ok hvalue => exact congrArg Except.ok hvalue.outline_eq
  | error hfailure => exact congrArg Except.error hfailure.1

/-! ## Programs on the machine -/

namespace Direct

open Machine

variable {host : Host}

/-- The outcome of a program for the main evaluation. -/
def perform (discipline : Discipline) (host : Host) (fuel : Nat) (source : String) (scope : Scope)
    (store : Store) : Option (Result × Store) :=
  outcome discipline host fuel mainEvaluation none (.run (Program.evaluate source scope)) store

variable {discipline : Discipline} {guard : State → Prop} {result : Result} {store store' : Store}

theorem halts_done_iff (hgoverns : Governs discipline guard)
    (hresult : ∀ work, result ≠ .ok (.suspended work)) {final : Result} :
    (∃ steps, Halts host guard steps (.ofScript (.done result) store) final store') ↔
      ∃ fuel, outcome discipline host fuel mainEvaluation none (.run (.done result)) store =
        some (final, store') := by
  constructor
  · rintro ⟨steps, h⟩
    cases h with
    | halt _ hstep =>
        cases hstep
        exact ⟨1, outcome_done hresult 0 mainEvaluation store⟩
    | next _ hstep _ => cases hstep
  · rintro ⟨fuel, h⟩
    cases outcome_unique h (outcome_done hresult 0 mainEvaluation store)
    exact ⟨0, .halt (hgoverns.running _ _ _ _) rfl⟩

/-- The machine evaluates a form on an otherwise empty stack as direct evaluation does, and goes on
with its outcome. -/
theorem halts_eval_iff (hgoverns : Governs discipline guard) {form : Value} {scope : Scope}
    {next : Result → Script Value} :
    (∃ steps, Halts host guard steps (.ofScript (.eval form scope next) store) result store') ↔
      ∃ fuel first middle, outcome discipline host fuel mainEvaluation none
          (.run (Form.step form scope)) store = some (first, middle) ∧
        ∃ steps, Halts host guard steps (.ofScript (next first) middle) result store' := by
  constructor
  · rintro ⟨steps, h⟩
    rcases h.of_next rfl with ⟨_, _, _, hform⟩
    rcases outcome_of_halts hgoverns hform with ⟨fuel, first, middle, _, _, hfirst, hrest⟩
    rcases hrest.of_next rfl with ⟨rest, _, _, hnext⟩
    exact ⟨fuel, first, middle, hfirst, rest, hnext⟩
  · rintro ⟨fuel, first, middle, hfirst, steps, hnext⟩
    have hpath := path_of_outcome hgoverns hfirst [.await next]
    have hawait := hgoverns.running (.done first) [.await next] mainEvaluation middle
    have hstart := hgoverns.running (.eval form scope next) [] mainEvaluation store
    exact Halts.of_path (.head ⟨hstart, rfl⟩ (hpath.tail ⟨hawait, rfl⟩)) hnext

theorem outcome_eval_iff {form : Value} {scope : Scope} {next : Result → Script Value}
    {final : Result × Store} :
    (∃ fuel, outcome discipline host fuel mainEvaluation none (.run (.eval form scope next)) store =
      some final) ↔
      ∃ fuel first middle, outcome discipline host fuel mainEvaluation none
          (.run (Form.step form scope)) store = some (first, middle) ∧
        ∃ fuel', outcome discipline host fuel' mainEvaluation none (.run (next first)) middle =
          some final := by
  constructor
  · rintro ⟨fuel, h⟩
    cases fuel with
    | zero => cases h
    | succ fuel =>
        rw [outcome] at h
        split at h
        · next first middle hfirst => exact ⟨fuel, first, middle, hfirst, fuel, h⟩
        · cases h
  · rintro ⟨fuel, first, middle, hfirst, fuel', hnext⟩
    refine ⟨max fuel fuel' + 1, ?_⟩
    rw [outcome, outcome_mono (Nat.le_max_left fuel fuel') hfirst]
    exact outcome_mono (Nat.le_max_right fuel fuel') hnext

theorem halts_evaluateAll_iff (hgoverns : Governs discipline guard) {scope : Scope}
    {forms : List Value} {last : Value} (hlast : ∀ work, last ≠ .suspended work) :
    (∃ steps, Halts host guard steps (.ofScript (Program.evaluateAll scope last forms) store) result
        store') ↔
      ∃ fuel, outcome discipline host fuel mainEvaluation none
        (.run (Program.evaluateAll scope last forms)) store = some (result, store') := by
  induction forms generalizing last store with
  | nil =>
      refine halts_done_iff hgoverns fun work hwork => ?_
      cases hwork
      exact hlast work rfl
  | cons form rest ih =>
      refine (halts_eval_iff hgoverns).trans (.trans ?_ outcome_eval_iff.symm)
      -- A failure ends the program, and a value is followed by the rest of it.
      have hnext : ∀ {fuel first middle}, outcome discipline host fuel mainEvaluation none
          (.run (Form.step form scope)) store = some (first, middle) →
          ((∃ steps, Halts host guard steps (.ofScript ((Script.done first).bind fun value =>
              Program.evaluateAll scope value rest) middle) result store') ↔
            ∃ fuel', outcome discipline host fuel' mainEvaluation none
              (.run ((Script.done first).bind fun value =>
                Program.evaluateAll scope value rest)) middle = some (result, store')) := by
        intro fuel first middle hfirst
        cases first with
        | error failure => exact halts_done_iff hgoverns fun work => by simp
        | ok value => exact ih (ne_suspended_of_outcome hfirst)
      constructor
      · rintro ⟨fuel, first, middle, hfirst, hrest⟩
        exact ⟨fuel, first, middle, hfirst, (hnext hfirst).mp hrest⟩
      · rintro ⟨fuel, first, middle, hfirst, hrest⟩
        exact ⟨fuel, first, middle, hfirst, (hnext hfirst).mpr hrest⟩

/-- The machine runs a program to its end exactly if direct evaluation has an outcome for it. -/
theorem halts_program_iff (hgoverns : Governs discipline guard) {source : String} {scope : Scope} :
    (∃ steps, Halts host guard steps (.ofScript (Program.evaluate source scope) store) result
        store') ↔
      ∃ fuel, perform discipline host fuel source scope store = some (result, store') := by
  simp only [perform, Program.evaluate]
  cases Reader.readAll source with
  | error error => exact halts_done_iff hgoverns fun work => by simp
  | ok forms => exact halts_evaluateAll_iff hgoverns fun work => by simp

/-! ## Call by need and call by name -/

theorem quiet_program (source : String) (scope : Scope) :
    (Program.evaluate source scope).Quiet := by
  have hall : ∀ (forms : List Value) (last : Value),
      (Program.evaluateAll scope last forms).Plain := by
    intro forms
    induction forms with
    | nil => exact fun last => .pure last
    | cons form rest ih => exact fun _ => .bind (.value form scope) ih
  rw [Program.evaluate]
  split
  · exact (hall _ _).quiet
  · exact .done _

/-- The outermost frame is its own image: there are no cells yet. -/
theorem shares_quietBase (host : Host) :
    Shares host Store.quietBase Store.quietBase Store.quietBase := by
  refine ⟨rfl, rfl, fun id cell hcell => ?_, Store.wellFormed_quietBase, .refl _,
    Store.wellFormed_quietBase⟩
  cases hcell

/-- Memoization is invisible: where nothing changes bindings or prints, a program comes to the same
in call by need, if no binding demands itself, and in call by name. -/
theorem finished_iff_byName (host : Host) (source : String) (outline : Except Cause Value) :
    (∃ fuel result store, Program.run host fuel source .base .quietBase = .finished result store ∧
        (∀ state, Path host anyState (.ofScript (Program.evaluate source .base) .quietBase) state →
          ¬ state.RaisesSelfDependence) ∧ result.outline = outline) ↔
      ∃ fuel result store,
        perform .byName host fuel source .base .quietBase = some (result, store) ∧
          result.outline = outline := by
  have hshares := shares_quietBase host
  have hscope : Scope.base.Alike Store.quietBase.link Scope.base := ⟨⟨rfl, Nat.one_pos⟩, .nil⟩
  have halike : Control.Alike .quiet Store.quietBase.link (.run (Program.evaluate source .base))
      (.run (Program.evaluate source .base)) :=
    .run ((Program.evaluate_alike source hscope).imp fun _ _ _ => .value)
  have hquiet := quiet_program source .base
  constructor
  · rintro ⟨fuel, result, store, hfinished, hguard, houtline⟩
    rcases finished_iff_halts.mp ⟨fuel, hfinished⟩ with ⟨steps, hhalts⟩
    -- Without a binding that demands itself, strict call by need comes to the same.
    have hstrict := halts_guarded_iff.mpr ⟨hhalts, hguard⟩
    rcases (halts_program_iff governs_strict).mp ⟨steps, hstrict⟩ with ⟨fuel', hperform⟩
    rcases reproduces_of_strict hperform hshares halike hquiet with ⟨_, _, _, hreproduces, _⟩
    rcases hreproduces with ⟨hname, _, _, _, hresult⟩
    exact ⟨_, _, _, hname, (Result.Alike.outline_eq hresult).symm.trans houtline⟩
  · rintro ⟨fuel, result, store, hname, houtline⟩
    have hruns : RunsBeyond host fuel Store.quietBase Store.quietBase := by
      rintro id name work ⟨_, _, _, hcell⟩
      cases hcell
    have hterminates : Terminates host none (.run (Program.evaluate source .base)) .quietBase :=
      terminates_of_byName hname hshares halike hquiet hruns
    rcases hterminates with ⟨fuel', ⟨result', store'⟩, hperform⟩
    rcases reproduces_of_strict hperform hshares halike hquiet with ⟨_, _, _, hreproduces, _⟩
    rcases hreproduces with ⟨hname', _, _, _, hresult⟩
    -- What is reproduced is the outcome that there is.
    cases outcome_unique hname hname'
    rcases (halts_program_iff governs_strict).mpr ⟨fuel', hperform⟩ with ⟨steps, hstrict⟩
    rcases halts_guarded_iff.mp hstrict with ⟨hhalts, hguard⟩
    rcases finished_iff_halts.mpr ⟨steps, hhalts⟩ with ⟨fuel'', hfinished⟩
    exact ⟨fuel'', result', store', hfinished, hguard,
      (Result.Alike.outline_eq hresult).trans houtline⟩

end Direct
end LazyLisp
