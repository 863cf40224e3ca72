import LazyLisp.Proofs.Alike.Store

/-!
# Frame — frames that bind the same

A frame is a table, so the order of its entries does not count.  Two frames agree if they bind the
same names to alike things.  This file defines:

* `Likeness.exact`, under which nothing may differ but frames and cells;
* `Frame.Agrees`, frames that bind the same names to alike things.

Main result: `Frame.Agrees.insert_comm`, that names can be bound in either order.
-/

namespace LazyLisp

/-! ## What may differ -/

/-- Nothing may differ but the frames and cells that values refer to. -/
def Likeness.exact : Likeness where
  places := Eq
  traces := Eq
  thunks := True
  operations _ := True
  places_equivalence := eq_equivalence
  traces_equivalence := eq_equivalence

variable {link link' : Link}

/-! ## Frames -/

/-- The same names, bound to alike things, in whatever order. -/
def Frame.Agrees (link : Link) (frame frame' : Frame) : Prop :=
  ∀ name, Option.Rel (Binding.Alike .exact link) (frame.get? name) (frame'.get? name)

namespace Frame.Agrees

variable {frame frame' frame'' : Frame}

theorem nil : Frame.Agrees link [] [] :=
  fun _ => .none

theorem mono (hle : link ≤ link') (h : frame.Agrees link frame') : frame.Agrees link' frame' :=
  fun name => optionRel_imp (fun _ _ hbinding => hbinding.mono hle) (h name)

theorem comp (h : frame.Agrees link frame') (h' : frame'.Agrees link' frame'') :
    frame.Agrees (link.comp link') frame'' :=
  fun name => optionRel_comp (fun _ _ _ hfirst hsecond => hfirst.comp hsecond) (h name) (h' name)

theorem erase (h : frame.Agrees link frame') (erased : String) :
    (frame.erase erased).Agrees link (frame'.erase erased) := by
  intro name
  rw [Frame.get?_erase, Frame.get?_erase]
  split
  · exact .none
  · exact h name

theorem insert (h : frame.Agrees link frame') (bound : String) {binding binding' : Binding}
    (hbinding : binding.Alike .exact link binding') :
    (frame.insert bound binding).Agrees link (frame'.insert bound binding') := by
  intro name
  rw [Frame.get?_insert, Frame.get?_insert]
  split
  · exact .some hbinding
  · exact h name

/-- Two names can be bound in either order. -/
theorem insert_comm (h : frame.Agrees link frame') {bound other : String} (hne : bound ≠ other)
    {first first' second second' : Binding} (hfirst : first.Alike .exact link first')
    (hsecond : second.Alike .exact link second') :
    ((frame.insert bound first).insert other second).Agrees link
      ((frame'.insert other second').insert bound first') := by
  intro name
  simp only [Frame.get?_insert]
  by_cases hbound : name = bound
  · subst hbound
    simpa [hne] using hfirst
  · by_cases hother : name = other
    · simpa [hother, hne.symm] using hsecond
    · simpa [hbound, hother] using h name

end Frame.Agrees

end LazyLisp
