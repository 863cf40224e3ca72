import LazyLisp.Host.Functions
import LazyLisp.Proofs.Lockstep.System
import LazyLisp.Proofs.Ready.Value
import Mathlib.Tactic

/-!
# Session — no suspended work gets into data

Programs are evaluated one after the other on the main thread, while workers go on in the
background.  Whatever the programs do, suspended work only ever stands where it is going to be
resumed: never in a result, in a binding, in the outcome of a cell, in the body of a function, or in
a call that a function receives.  This file defines:

* `Async.Session`, the systems that programs lead to, from a base store with functions of the host
  program;
* `Async.System.Ready`, the invariant: what threads do and what the store holds is ready.

Main results: `Async.inStep_of_step` is what a step preserves, `Async.inStep_of_session` what a
session preserves, and `Async.session_ready` what follows for results, bindings, cells and calls.
-/

namespace LazyLisp

/-! ## Where sessions begin -/

/-- Functions of the host program are alike themselves. -/
theorem Store.install_alike {likeness : Likeness} {store store' : Store}
    (h : store.Alike likeness store') (scope : Scope) {names : List String}
    (hnames : ∀ name ∈ names, likeness.operations (.host name)) :
    (store.install scope names).Alike likeness (store'.install scope names) := by
  induction names generalizing store store' with
  | nil => exact h
  | cons name rest ih =>
      have hoperation := hnames name List.mem_cons_self
      have hfunc : Func.Alike likeness .same (.native name (.host name))
          (.native name (.host name)) := .native hoperation
      have hset := h.set scope name (.func hfunc)
      exact ih hset fun other hmem => hnames other (List.mem_cons_of_mem _ hmem)

namespace Async

open Machine

variable {host : Host} {names : List String} {system system' : System} {entries : Log}

/-- The systems that programs lead to, one after the other.  They begin in the base scope, with the
given functions of the host program.  Between two programs somebody may take the printed text away,
and the world may change. -/
inductive Session (host : Host) (names : List String) : System → Prop where
  | start : Session host names ⟨Store.base.install .base names, fun _ => .idle⟩
  | program {system : System} (source output : String) (world : World) :
      Session host names system → system.Rests →
        Session host names (system.put mainEvaluation
          (activityOf (.ofScript (Program.evaluate source .base) system.store))
          { system.store with output := output, world := world })
  /-- Any thread takes a step, but no other evaluation is begun on the main thread. -/
  | step {system system' : System} {entries : Log} :
      Session host names system → Step host system entries system' →
        (system.Rests → system'.Rests) → Session host names system'

/-! ## The invariant -/

section InStep

variable {likeness : Likeness}

/-- What is read from source text is alike itself. -/
theorem program_inStep (source : String) :
    Script.InStep likeness (Value.Alike likeness .same) (Program.evaluate source .base)
      (Program.evaluate source .base) :=
  (Program.evaluate_alike source (Scope.alike_same .base)).inStep rfl

/-- One step of any thread.  Only the begin of an evaluation could bring in anything new. -/
theorem inStep_of_step (hhost : host.InStep likeness) (hgrow : likeness.TracesGrow)
    (h : system.InStep likeness system) (hstep : Step host system entries system')
    (hrests : system.Rests → system'.Rests) : system'.InStep likeness system' := by
  cases hstep with
  | @begin state hidle _ _ _ =>
      have hworking := system.threads_put mainEvaluation (activityOf state) state.store
      rcases hrests hidle with hnone | ⟨result, hfinished⟩
      · rw [hworking] at hnone
        cases hnone
      · rw [hworking] at hfinished
        cases hfinished
  | turn hturn => exact hturn.inStep_self hhost hgrow h

/-- Wherever programs lead, the system is in step with itself, for every likeness that keeps nothing
out of it. -/
theorem inStep_of_session (hhost : host.InStep likeness) (hgrow : likeness.TracesGrow)
    (hoperations : ∀ operation, likeness.operations operation) (h : Session host names system) :
    system.InStep likeness system := by
  induction h with
  | start =>
      have hbase : Store.base.Alike likeness Store.base :=
        Store.base_alike fun entry _ => hoperations entry.2
      exact .of_idle (Store.install_alike hbase .base fun name _ => hoperations (.host name))
        (fun _ => rfl) fun _ => rfl
  | @program system source output world _ _ ih =>
      have hbegin := ofScript_inStep (program_inStep source) ih.store
      have hstore : Store.Alike likeness { system.store with output := output, world := world }
          { system.store with output := output, world := world } :=
        { ih.store with output := rfl, world := rfl }
      exact ih.put (Activity.inStep_of_state hbegin) hstore mainEvaluation
  | step _ hstep hrests ih => exact inStep_of_step hhost hgrow ih hstep hrests

end InStep

/-- What threads do, and what the store holds, concerns ready values only. -/
def System.Ready (system : System) : Prop :=
  system.InStep .ready system

theorem ready_of_session (hhost : host.Ready) (h : Session host names system) : system.Ready :=
  inStep_of_session hhost.inStep Likeness.ready_tracesGrow (fun _ => trivial) h

/-! ## What is ready in a session -/

/-- No suspended work gets into data, whatever programs are evaluated: natives return ready values
for ready forms, and that suffices.  At every point of a session, all results are ready, of programs
and of workers; so are all outcomes of cells and all work that waits in them, all plain bindings,
and the function, the head and the operands of every call that is made.  Ready functions have ready
bodies.  And when nothing is being evaluated, the next program comes to a ready value or a
failure. -/
theorem session_ready (hhost : host.Ready) (h : Session host names system) :
    (∀ thread value, system.threads thread = .finished (.ok value) → value.Ready) ∧
      (∀ (cell : CellId) name value,
        system.store.cells[cell]? = some ⟨name, .settled (.ok value)⟩ → value.Ready) ∧
      (∀ (cell : CellId) name work,
        system.store.cells[cell]? = some ⟨name, .pending work⟩ → work.Ready) ∧
      (∀ frame name value, (name, .value value) ∈ system.store.frame frame → value.Ready) ∧
      (∀ thread func head operands scope stack evaluation,
        system.threads thread =
            .working (.resume (.call func head operands scope)) stack evaluation →
          func.Ready ∧ head.Ready ∧ ∀ operand ∈ operands, operand.Ready) ∧
      ∀ fuel source value store,
        Program.run host fuel source .base system.store = .finished (.ok value) store →
          value.Ready := by
  have hready := ready_of_session hhost h
  refine ⟨?_, ?_, ?_, ?_, ?_, ?_⟩
  · intro thread value hfinished
    have hactivity := hready.threads thread
    rw [hfinished] at hactivity
    cases hactivity with
    | finished hresult => exact Result.alike_ready_iff.mp hresult
  · intro cell name value hcell
    have halike := hready.store.cells cell
    rw [hcell] at halike
    cases halike with
    | some halike =>
        cases halike.state with
        | settled hresult => exact Result.alike_ready_iff.mp hresult
  · intro cell name work hcell
    have halike := hready.store.cells cell
    rw [hcell] at halike
    cases halike with
    | some halike =>
        cases halike.state with
        | pending hwork => exact Suspension.alike_ready_iff.mp hwork
  · intro frame name value hmem
    have hframe := List.forall₂_same.mp (hready.store.frame frame)
    cases (hframe _ hmem).2 with
    | value hvalue => exact hvalue.ready
  · intro thread func head operands scope stack evaluation hworking
    have hactivity := hready.threads thread
    rw [hworking] at hactivity
    cases hactivity with
    | working _ hdoing =>
        rcases hdoing with ⟨awaited, htask, _⟩
        cases htask with
        | resume hwork =>
            have hcall := Suspension.alike_ready_iff.mp hwork
            exact ⟨hcall.1, hcall.2.1, Value.allReady_iff.mp hcall.2.2⟩
  · intro fuel source value store hrun
    have hbegin := ofScript_inStep (program_inStep source) hready.store
    have houtcome := run_inStep hhost.inStep Likeness.ready_tracesGrow fuel hbegin
    have hsame : run host fuel (.ofScript (Program.evaluate source .base) system.store) =
        .finished (.ok value) store := hrun
    rw [hsame] at houtcome
    cases houtcome with
    | finished hresult _ => exact Result.alike_ready_iff.mp hresult

/-- The handle of a lazy binding and a call as a native function sees it: in the first session of a
host program with `raw`, the program `(def! a (list 1 (raw b)))` comes to a list that holds that
call, and no suspended work. -/
theorem session_ready_define :
    Host.standard.Ready ∧
      Session Host.standard ["raw"] ⟨Store.base.install .base ["raw"], fun _ => .idle⟩ ∧
      ∃ value store,
        Program.run Host.standard 80 "(def! a (list 1 (raw b)))" .base
            (Store.base.install .base ["raw"]) = .finished (.ok value) store ∧
          value = .list [.int 1, .list [.symbol ⟨"raw", some ⟨1, 18, 17⟩⟩,
            .symbol ⟨"b", some ⟨1, 22, 21⟩⟩]] ∧
          value.Ready := by
  have hstart : Session Host.standard ["raw"]
      ⟨Store.base.install .base ["raw"], fun _ => .idle⟩ := .start
  have hready := session_ready Host.standard_ready hstart
  have hread : Reader.readAll "(def! a (list 1 (raw b)))" =
      .ok [.list [.symbol ⟨"def!", some ⟨1, 2, 1⟩⟩, .symbol ⟨"a", some ⟨1, 7, 6⟩⟩,
        .list [.symbol ⟨"list", some ⟨1, 10, 9⟩⟩, .int 1,
          .list [.symbol ⟨"raw", some ⟨1, 18, 17⟩⟩, .symbol ⟨"b", some ⟨1, 22, 21⟩⟩]]]] := by
    cbv
  have hrun : ∃ store, Program.run Host.standard 80 "(def! a (list 1 (raw b)))" .base
      (Store.base.install .base ["raw"]) =
        .finished (.ok (.list [.int 1, .list [.symbol ⟨"raw", some ⟨1, 18, 17⟩⟩,
          .symbol ⟨"b", some ⟨1, 22, 21⟩⟩]])) store := by
    rw [Program.run, Program.evaluate, hread]
    exact ⟨_, rfl⟩
  rcases hrun with ⟨store, hrun⟩
  exact ⟨Host.standard_ready, hstart, _, store, hrun, rfl, hready.2.2.2.2.2 _ _ _ _ hrun⟩

end Async
end LazyLisp
