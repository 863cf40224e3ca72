import LazyLisp.Proofs.Lockstep.Machine

/-!
# Places — evaluation does not depend on where symbols were read

Every symbol remembers its place in source text, in code and in quoted data alike.  Places show in
traces, and nowhere else: they decide nothing, and no builtin lets them get into a value, a message
or printed text.  This file defines:

* `Operation.IsBuiltin`, the operations that are no functions of the host program;
* `Likeness.placeless`, under which nothing but places may differ.

Main result: `Machine.evaluate_placeless`, a property of two runs.
-/

namespace LazyLisp

/-! ## Alike up to places -/

/-- The operation belongs to the language. -/
def Operation.IsBuiltin (operation : Operation) : Prop :=
  ∀ name, operation ≠ .host name

/-- The places of symbols may differ, and with them the places that traces show. -/
def Likeness.placeless : Likeness where
  places _ _ := True
  traces trace trace' := trace.map CallSite.name = trace'.map CallSite.name
  thunks := True
  operations := Operation.IsBuiltin
  places_equivalence := ⟨fun _ => trivial, fun _ => trivial, fun _ _ => trivial⟩
  traces_equivalence := ⟨fun _ => rfl, Eq.symm, Eq.trans⟩

theorem Likeness.placeless_tracesGrow : Likeness.placeless.TracesGrow := by
  intro trace trace' site site' htrace hsite
  calc
    (trace.push site).map CallSite.name
        = (trace.map CallSite.name).push site.name := by simp
    _ = (trace'.map CallSite.name).push site'.name := by rw [htrace, hsite.1]
    _ = (trace'.push site').map CallSite.name := by simp

/-- No function of the host program is a builtin, so there is nothing to ask of them. -/
theorem Host.inStep_placeless (host : Host) : host.InStep .placeless :=
  fun name hbuiltin => absurd rfl (hbuiltin name)

theorem Builtin.isBuiltin_of_mem_table {entry : String × Operation} (h : entry ∈ Builtin.table) :
    entry.2.IsBuiltin := by
  intro name hname
  have hhost : (entry.1, Operation.host name) ∈ Builtin.table := by rwa [← hname]
  simp [Builtin.table] at hhost

/-! ## Two runs -/

namespace Machine

/-- Places never influence evaluation.  Take two forms, and two stores, that are the same except for
the places of symbols, with no other functions in them than builtins and those made by programs.
Evaluation comes to an end on both sides or on none, after the same number of steps.  At the end
the values are the same except for places, or the failures have the same cause and traces with the
same names; the same text has been printed; and the stores are again the same except for places. -/
theorem evaluate_placeless (host : Host) (fuel : Nat) {form form' : Value} (scope : Scope)
    {store store' : Store} (hform : form.Alike .placeless .same form')
    (hstore : store.Alike .placeless store') :
    Outcome.InStep .placeless (evaluate host fuel form scope store)
      (evaluate host fuel form' scope store') := by
  have hhost := host.inStep_placeless
  have hbegin := ofForm_inStep hform scope hstore
  exact run_inStep hhost Likeness.placeless_tracesGrow fuel hbegin

/-- A function that throws is called through a symbol that was read at `1:2` in the one form and at
no place in the other.  Both runs come to the same failure, with that place in the one trace only,
and leave alike stores. -/
theorem evaluate_placeless_throw :
    let body : Value := .list [.symbol (.unplaced "throw"), .text "no"]
    let store : Store := Store.base.set .base "f" (.func (.closure "f" [] body .base))
    let placed : Value := .list [.symbol ⟨"f", some ⟨1, 2, 1⟩⟩]
    let unplaced : Value := .list [.symbol (.unplaced "f")]
    placed.Alike .placeless .same unplaced ∧ store.Alike .placeless store ∧
      ∃ fuel later later',
        evaluate .empty fuel placed .base store =
            .finished (.error ⟨.thrown "no", #[⟨"f", some ⟨1, 2, 1⟩⟩]⟩) later ∧
          evaluate .empty fuel unplaced .base store =
            .finished (.error ⟨.thrown "no", #[⟨"f", none⟩]⟩) later' ∧
          later.Alike .placeless later' := by
  intro body store placed unplaced
  have hform : placed.Alike .placeless .same unplaced :=
    .list (.cons (.symbol ⟨rfl, trivial⟩) .nil)
  have hbody : body.Alike .placeless .same body :=
    .list (.cons (.symbol (Symbol.alike_self _)) (.cons (.text "no") .nil))
  have hbase : Store.base.Alike .placeless Store.base :=
    Store.base_alike fun _ hmem => Builtin.isBuiltin_of_mem_table hmem
  have hstore : store.Alike .placeless store :=
    hbase.set .base "f" (.func (.closure .nil hbody (Scope.alike_same .base)))
  refine ⟨hform, hstore, 40, _, _, rfl, rfl, ?_⟩
  have houtcome := evaluate_placeless .empty 40 .base hform hstore
  cases houtcome with
  | finished _ hlater => exact hlater

end Machine
end LazyLisp
