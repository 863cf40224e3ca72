import LazyLisp.Proofs.Machine.Operands

/-!
# InTurn — one evaluation after the other

A vector is evaluated by evaluating its elements in turn.  Each of them finds what those before it have
left, and the first failure ends it all.  This file defines `Machine.InTurn`, what comes of items that
come to their outcomes in turn, whatever is done with each of them.

Main results:

* `Path.ends_iff`, that a run ends as from any state that it goes through;
* `finished_eval_iff` and `finished_values_iff`, how a script ends that asks for forms;
* `evaluates_vector_iff`, what a vector comes to.
-/

namespace LazyLisp
namespace Machine

variable {host : Host} {me : EvaluationId} {scope : Scope} {store later : Store} {result : Result}

/-! ## Ends of runs -/

/-- A run ends as from any state that it goes through. -/
theorem Path.ends_iff {state state' : State} (h : Path host anyState state state')
    {outcome : Outcome} (hends : outcome.Ends) :
    (∃ fuel, run host fuel state = outcome) ↔ ∃ fuel, run host fuel state' = outcome := by
  obtain ⟨_, hreaches⟩ := h.reaches
  exact hreaches.ends_iff hends

theorem Path.finished_iff {state state' : State} (h : Path host anyState state state') :
    (∃ fuel, run host fuel state = .finished result later) ↔
      ∃ fuel, run host fuel state' = .finished result later := by
  have hends : (Outcome.finished result later).Ends := trivial
  exact h.ends_iff hends

/-- A run that waits for the outcome of a form ends only if the form comes to one, and from there. -/
theorem finished_eval_iff {form : Value} {next : Result → Script Value} {stack : List Pending} :
    (∃ fuel, run host fuel ⟨.run (.eval form scope next), stack, me, store⟩ =
        .finished result later) ↔
      ∃ first middle, Evaluates host me form scope store first middle ∧
        ∃ fuel, run host fuel ⟨.run (next first), stack, me, middle⟩ = .finished result later := by
  constructor
  · intro h
    obtain ⟨steps, hhalts⟩ := finished_iff_halts.mp h
    obtain ⟨_, -, -, hform⟩ := hhalts.of_next rfl
    obtain ⟨fuel, first, middle, rest, -, hfirst, hrest⟩ :=
      Direct.outcome_of_halts Direct.governs_need hform
    obtain ⟨_, -, -, hnext⟩ := hrest.of_next rfl
    have hevaluates : Evaluates host me form scope store first middle :=
      finished_iff_halts.mpr ((Direct.halts_iff_outcome Direct.governs_need).mpr ⟨fuel, hfirst⟩)
    exact ⟨first, middle, hevaluates, finished_iff_halts.mpr ⟨_, hnext⟩⟩
  · rintro ⟨first, middle, hfirst, hnext⟩
    exact (path_ask hfirst next stack).finished_iff.mpr hnext

/-- A result that is there ends a run under a trampoline, unless it is suspended. -/
theorem finished_done_iff {final : Result} (hfinal : ∀ work, final ≠ .ok (.suspended work)) :
    (∃ fuel, run host fuel ⟨.run (.done final), [.trampoline none], me, store⟩ =
        .finished result later) ↔ result = final ∧ later = store := by
  rw [finished_iff_halts, Direct.halts_iff_outcome Direct.governs_need]
  have hdone : Direct.outcome Discipline.need.traced host 1 me none (.run (.done final)) store =
      some (final, store) := Direct.outcome_done hfinal 0 me store
  constructor
  · rintro ⟨fuel, h⟩
    cases Direct.outcome_unique h hdone
    exact ⟨rfl, rfl⟩
  · rintro ⟨rfl, rfl⟩
    exact ⟨1, hdone⟩

/-! ## In turn -/

/-- The items come to their outcomes in turn.  The first failure is the outcome of all of them, and
otherwise it is their values. -/
inductive InTurn (comesTo : Value → Store → Result → Store → Prop) :
    List Value → Store → Except Failure (List Value) → Store → Prop where
  | nil {store : Store} : InTurn comesTo [] store (.ok []) store
  | fails {item : Value} {rest : List Value} {store later : Store} {failure : Failure} :
      comesTo item store (.error failure) later →
        InTurn comesTo (item :: rest) store (.error failure) later
  | next {item value : Value} {rest : List Value} {store middle later : Store}
      {outcome : Except Failure (List Value)} :
      comesTo item store (.ok value) middle → InTurn comesTo rest middle outcome later →
        InTurn comesTo (item :: rest) store (outcome.map (value :: ·)) later

namespace InTurn

variable {comesTo comesTo' : Value → Store → Result → Store → Prop} {items : List Value}
  {outcome : Except Failure (List Value)}

theorem cons_iff {item : Value} {rest : List Value} :
    InTurn comesTo (item :: rest) store outcome later ↔
      (∃ failure, comesTo item store (.error failure) later ∧ outcome = .error failure) ∨
        ∃ value middle others, comesTo item store (.ok value) middle ∧
          InTurn comesTo rest middle others later ∧ outcome = others.map (value :: ·) := by
  constructor
  · intro h
    cases h with
    | fails hitem => exact .inl ⟨_, hitem, rfl⟩
    | next hitem hrest => exact .inr ⟨_, _, _, hitem, hrest, rfl⟩
  · rintro (⟨failure, hitem, rfl⟩ | ⟨value, middle, others, hitem, hrest, rfl⟩)
    · exact .fails hitem
    · exact .next hitem hrest

/-- What comes of the items depends on what each of them comes to where its turn is. -/
theorem congr {f : Value → Value}
    (h : ∀ front item rest values middle, items = front ++ item :: rest →
      InTurn comesTo front store (.ok values) middle →
        ∀ result later, comesTo' (f item) middle result later ↔ comesTo item middle result later) :
    InTurn comesTo' (items.map f) store outcome later ↔ InTurn comesTo items store outcome later := by
  induction items generalizing store outcome with
  | nil => exact ⟨fun | .nil => .nil, fun | .nil => .nil⟩
  | cons item rest ih =>
      have hitem := h [] item rest [] store rfl .nil
      have hrest : ∀ value middle outcome, comesTo item store (.ok value) middle →
          (InTurn comesTo' (rest.map f) middle outcome later ↔
            InTurn comesTo rest middle outcome later) := by
        intro value middle outcome hvalue
        refine ih fun front next behind values middle' hsplit hfront => ?_
        exact h (item :: front) next behind (value :: values) middle'
          (congrArg (item :: ·) hsplit) (.next hvalue hfront)
      rw [List.map_cons, cons_iff, cons_iff]
      simp only [hitem]
      refine or_congr_right (exists₃_congr fun value middle others => ?_)
      refine and_congr_right fun hvalue => ?_
      rw [hrest value middle others hvalue]

/-- If none of the items changes the store, then nothing does. -/
theorem store_eq (h : InTurn comesTo items store outcome later)
    (hitems : ∀ item ∈ items, ∀ result later, comesTo item store result later → later = store) :
    later = store := by
  induction h with
  | nil => rfl
  | fails hitem => exact hitems _ List.mem_cons_self _ _ hitem
  | next hitem _ ih =>
      obtain rfl := hitems _ List.mem_cons_self _ _ hitem
      exact ih fun item hmem => hitems item (List.mem_cons_of_mem _ hmem)

end InTurn

/-! ## Forms in turn -/

/-- Forms that have come to values in turn. -/
theorem evaluatesAll_of_inTurn {forms values : List Value}
    (h : InTurn (fun form => Evaluates host me form scope) forms store (.ok values) later) :
    EvaluatesAll host me scope forms store values later := by
  generalize houtcome : (Except.ok values : Except Failure (List Value)) = outcome at h
  induction h generalizing values with
  | nil =>
      cases houtcome
      exact .nil
  | fails _ => cases houtcome
  | @next item value rest _ _ _ others hitem _ ih =>
      cases others with
      | error failure => cases houtcome
      | ok others =>
          cases houtcome
          exact .cons hitem (ih rfl)

/-- A script that asks for the values of forms goes on with what comes of them in turn. -/
theorem finished_values_iff {forms : List Value} {next : List Value → Script Value}
    {stack : List Pending} :
    (∃ fuel, run host fuel ⟨.run ((Script.values forms scope).bind next), stack, me, store⟩ =
        .finished result later) ↔
      ∃ outcome middle, InTurn (fun form => Evaluates host me form scope) forms store outcome middle ∧
        ∃ fuel, run host fuel ⟨.run ((Script.done outcome).bind next), stack, me, middle⟩ =
          .finished result later := by
  induction forms generalizing store next with
  | nil =>
      constructor
      · exact fun h => ⟨.ok [], store, .nil, h⟩
      · rintro ⟨_, _, ⟨⟩, h⟩
        exact h
  | cons form forms ih =>
      have hnext : ∀ value others, (Script.done (others.map (value :: ·))).bind next =
          (Script.done others).bind fun others => next (value :: others) := by
        intro value others
        cases others <;> rfl
      rw [bind_values_cons]
      refine finished_eval_iff.trans ?_
      constructor
      · rintro ⟨first, middle, hfirst, hrest⟩
        cases first with
        | error failure => exact ⟨.error failure, middle, .fails hfirst, hrest⟩
        | ok value =>
            obtain ⟨outcome, middle', hothers, hend⟩ := ih.mp hrest
            exact ⟨_, middle', .next hfirst hothers, (hnext value outcome).symm ▸ hend⟩
      · rintro ⟨outcome, middle, hforms, hend⟩
        rcases InTurn.cons_iff.mp hforms with
          ⟨failure, hfirst, rfl⟩ | ⟨value, middle', others, hfirst, hothers, rfl⟩
        · exact ⟨.error failure, middle, hfirst, hend⟩
        · rw [hnext] at hend
          exact ⟨.ok value, middle', hfirst, ih.mpr ⟨others, middle, hothers, hend⟩⟩

/-- A vector comes to the vector of what its elements come to in turn. -/
theorem evaluates_vector_iff {forms : List Value} :
    Evaluates host me (.vector forms) scope store result later ↔
      ∃ outcome, InTurn (fun form => Evaluates host me form scope) forms store outcome later ∧
        result = outcome.map Value.vector := by
  refine finished_values_iff.trans (exists_congr fun outcome => ?_)
  have hdone : (Script.done outcome).bind (fun values => .done (.ok (.vector values))) =
      .done (outcome.map Value.vector) := by
    cases outcome <;> rfl
  have hresult : ∀ work, outcome.map Value.vector ≠ .ok (.suspended work) := by
    cases outcome <;> exact fun _ heq => by cases heq
  constructor
  · rintro ⟨middle, hforms, hend⟩
    obtain ⟨rfl, rfl⟩ := (finished_done_iff hresult).mp (hdone ▸ hend)
    exact ⟨hforms, rfl⟩
  · rintro ⟨hforms, rfl⟩
    exact ⟨later, hforms, hdone.symm ▸ (finished_done_iff hresult).mpr ⟨rfl, rfl⟩⟩

end Machine
end LazyLisp
