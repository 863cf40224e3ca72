import LazyLisp.Value.Basic
import Mathlib.Data.List.Perm.Subperm
import Mathlib.Data.String.Basic

/-!
# Entries — what map literals hold

A map is made from the entries of its literal, one after the other.

Main results:

* `Entries.get?_ofList`: each key leads to the value of its last occurrence;
* `Entries.ordered_ofList`: entries stand in the order of their keys, and no key stands twice;
* `Entries.ofList_of_ordered`: entries in that order are kept as they are;
* `Entries.ofList_subperm`: the entries of a literal are pairs of it, none of them more than once for
  each time it stands there.
-/

namespace LazyLisp
namespace Entries

/-! ## Members -/

theorem mem_insert {key : Key} {value : Value} {entries : List (Key × Value)}
    {entry : Key × Value} (h : entry ∈ insert key value entries) :
    entry = (key, value) ∨ entry ∈ entries := by
  induction entries with
  | nil => simpa [insert] using h
  | cons first rest ih =>
      obtain ⟨k, v⟩ := first
      -- The entry goes in front of a larger key, replaces its own, or goes further down.
      unfold insert at h
      split at h
      · simpa using h
      · split at h
        · rcases List.mem_cons.mp h with hfirst | hrest
          · exact .inl hfirst
          · exact .inr (List.mem_cons_of_mem _ hrest)
        · rcases List.mem_cons.mp h with hfirst | hrest
          · exact .inr (hfirst ▸ List.mem_cons_self)
          · exact (ih hrest).imp_right (List.mem_cons_of_mem _)

theorem mem_of_mem_ofList {pairs : List (Key × Value)} {entry : Key × Value}
    (h : entry ∈ ofList pairs) : entry ∈ pairs := by
  have hsubset : ofList pairs ⊆ pairs := by
    refine List.foldlRecOn (motive := (· ⊆ pairs)) pairs _ (List.nil_subset pairs) ?_
    intro entries hentries pair hpair entry hentry
    rcases mem_insert hentry with rfl | hmem
    · exact hpair
    · exact hentries hmem
  exact hsubset h

/-- Storing an entry keeps each entry at most as often as it was there. -/
theorem insert_subperm (key : Key) (value : Value) (entries : List (Key × Value)) :
    (insert key value entries).Subperm ((key, value) :: entries) := by
  induction entries with
  | nil => exact .refl _
  | cons first rest ih =>
      obtain ⟨k, v⟩ := first
      unfold insert
      split
      · exact .refl _
      · split
        · exact (List.Sublist.cons_cons _ (List.sublist_cons_self _ _)).subperm
        · have hdeeper := (List.subperm_cons (k, v)).mpr ih
          exact hdeeper.trans (List.Perm.swap _ _ _).subperm

/-- The entries of a literal are some of its pairs, in the order of their keys. -/
theorem ofList_subperm (pairs : List (Key × Value)) : (ofList pairs).Subperm pairs := by
  -- The entries that are there already stand for the pairs in front.
  have hfold : ∀ (pairs entries : List (Key × Value)),
      (pairs.foldl (fun entries pair => insert pair.1 pair.2 entries) entries).Subperm
        (entries ++ pairs) := by
    intro pairs
    induction pairs with
    | nil =>
        intro entries
        simp only [List.foldl_nil, List.append_nil]
        exact List.Subperm.refl entries
    | cons pair rest ih =>
        intro entries
        have hinsert := (List.subperm_append_right rest).mpr
          (insert_subperm pair.1 pair.2 entries)
        exact (ih _).trans (hinsert.trans List.perm_middle.symm.subperm)
  exact hfold pairs []

/-! ## Lookups -/

/-- Where a key occurs twice, the last occurrence counts. -/
theorem get?_ofList (key : Key) (pairs : List (Key × Value)) :
    get? key (ofList pairs) = pairs.reverse.lookup key := by
  -- Entries that are there already count only for keys that do not occur.
  have hfold : ∀ (pairs entries : List (Key × Value)),
      get? key (pairs.foldl (fun entries pair => insert pair.1 pair.2 entries) entries) =
        (pairs.reverse.lookup key).or (get? key entries) := by
    intro pairs
    induction pairs with
    | nil => simp
    | cons pair rest ih =>
        rcases pair with ⟨other, value⟩
        intro entries
        have hpair : get? key (insert other value entries) =
            ([(other, value)].lookup key).or (get? key entries) := by
          by_cases hkey : other = key
          · simp [get?_insert, hkey]
          · have hne : (key == other) = false := by simpa using Ne.symm hkey
            simp [get?_insert, List.lookup_cons, hkey, hne]
        simp [ih, hpair, List.lookup_append, Option.or_assoc]
  simpa [ofList, get?] using hfold pairs []

theorem mem_of_get? {key : Key} {value : Value} {entries : List (Key × Value)}
    (h : get? key entries = some value) : (key, value) ∈ entries := by
  induction entries with
  | nil => cases h
  | cons entry rest ih =>
      obtain ⟨k, v⟩ := entry
      unfold get? at h
      split at h
      · next hkey =>
          cases h
          exact hkey ▸ List.mem_cons_self
      · exact List.mem_cons_of_mem _ (ih h)

theorem exists_get?_of_mem {entry : Key × Value} {entries : List (Key × Value)}
    (h : entry ∈ entries) : ∃ value, get? entry.1 entries = some value := by
  induction entries with
  | nil => cases h
  | cons first rest ih =>
      unfold get?
      split
      · exact ⟨_, rfl⟩
      · next hkey =>
          refine ih ((List.mem_cons.mp h).resolve_left ?_)
          rintro rfl
          exact hkey rfl

/-! ## Order -/

/-- Entries in the order of their keys; so no key stands twice. -/
def Ordered (entries : List (Key × Value)) : Prop :=
  entries.Pairwise fun a b => a.1.name < b.1.name

theorem ordered_insert (key : Key) (value : Value) {entries : List (Key × Value)}
    (h : Ordered entries) : Ordered (insert key value entries) := by
  induction entries with
  | nil => simp [insert, Ordered]
  | cons entry rest ih =>
      obtain ⟨k, v⟩ := entry
      rcases List.pairwise_cons.mp h with ⟨hfirst, hrest⟩
      unfold insert
      split
      · next hlt =>
          refine List.pairwise_cons.mpr ⟨?_, h⟩
          intro other hother
          rcases List.mem_cons.mp hother with rfl | hmem
          · exact hlt
          · exact lt_trans hlt (hfirst other hmem)
      · next hlt =>
          split
          · next hkey =>
              subst hkey
              exact List.pairwise_cons.mpr ⟨hfirst, hrest⟩
          · next hkey =>
              have hname : k.name ≠ key.name := fun heq => hkey (congrArg Key.mk heq).symm
              have hgt : k.name < key.name := lt_of_le_of_ne (not_lt.mp hlt) hname
              refine List.pairwise_cons.mpr ⟨?_, ih hrest⟩
              intro other hother
              rcases mem_insert hother with rfl | hmem
              · exact hgt
              · exact hfirst other hmem

theorem ordered_ofList (pairs : List (Key × Value)) : Ordered (ofList pairs) := by
  refine List.foldlRecOn pairs _ .nil ?_
  intro entries hentries pair _
  exact ordered_insert pair.1 pair.2 hentries

/-- An entry with a key behind all others goes to the end. -/
theorem insert_of_lt {key : Key} {value : Value} {entries : List (Key × Value)}
    (h : ∀ entry ∈ entries, entry.1.name < key.name) :
    insert key value entries = entries ++ [(key, value)] := by
  induction entries with
  | nil => rfl
  | cons entry rest ih =>
      obtain ⟨k, v⟩ := entry
      have hk : k.name < key.name := h (k, v) List.mem_cons_self
      have hne : key ≠ k := fun heq => absurd (heq ▸ hk) (lt_irrefl _)
      rw [insert, if_neg hk.not_gt, if_neg hne, ih fun other hother =>
        h other (List.mem_cons_of_mem _ hother)]
      rfl

/-- Entries that are in order are a map literal of themselves. -/
theorem ofList_of_ordered {entries : List (Key × Value)} (h : Ordered entries) :
    ofList entries = entries := by
  -- The entries so far are in front of those to come.
  have hfold : ∀ (entries front : List (Key × Value)), Ordered (front ++ entries) →
      entries.foldl (fun entries pair => insert pair.1 pair.2 entries) front = front ++ entries := by
    intro entries
    induction entries with
    | nil => simp
    | cons entry rest ih =>
        intro front hordered
        have hlast : ∀ other ∈ front, other.1.name < entry.1.name := fun other hother =>
          (List.pairwise_append.mp hordered).2.2 other hother entry List.mem_cons_self
        rw [List.foldl_cons, insert_of_lt hlast, ih _ (by simpa using hordered)]
        simp
  exact hfold entries [] h

end Entries
end LazyLisp
