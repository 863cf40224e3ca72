import LazyLisp.Reader.LineIndex
import Mathlib.Data.List.DropRight

/-!
# LineIndex — the line index counts lines and characters

Positions that are looked up in a table of line starts are compared with what can be counted in the
text in front of them, and with the positions that the reader gets by moving along the text, one
character after the other.  This file defines:

* `Position.Counts` and `Position.Marks`, the positions that agree with the text in front of them.

Main results: `LineIndex.counts_position`, that the index counts lines and characters;
`LineIndex.position_eq_advanceBy`, that it agrees with moving along the text; and `lex_eq_tokens`,
that it makes no difference to the tokens.
-/

namespace LazyLisp

/-! ## Positions -/

namespace Position

/-- `position` is the place behind the text `before`: its offset is the bytes of that text, its line
is one more than the line breaks in it, and its column is one more than the characters behind the last
of them. -/
structure Counts (position : Position) (before : List Char) : Prop where
  offset : position.offset = (String.ofList before).utf8ByteSize
  line : position.line = before.count '\n' + 1
  column : position.column = (before.rtakeWhile (· ≠ '\n')).length + 1

/-- `text` stands at `position` in a source text. -/
def Marks (position : Position) (source : String) (text : List Char) : Prop :=
  ∃ before after, source.toList = before ++ (text ++ after) ∧ position.Counts before

/-- There is one place behind a text. -/
theorem Counts.unique {position other : Position} {before : List Char} (h : position.Counts before)
    (h' : other.Counts before) : position = other := by
  obtain ⟨line, column, offset⟩ := position
  obtain ⟨line', column', offset'⟩ := other
  rw [Position.mk.injEq]
  exact ⟨h.line.trans h'.line.symm, h.column.trans h'.column.symm, h.offset.trans h'.offset.symm⟩

theorem column_advanceBy (before : List Char) :
    (start.advanceBy before).column = (before.rtakeWhile (· ≠ '\n')).length + 1 := by
  induction before using List.reverseRecOn with
  | nil => rfl
  | append_singleton before c ih =>
      rw [advanceBy_append, advanceBy_cons, advanceBy_nil, List.rtakeWhile_concat]
      by_cases hc : c = '\n'
      · simp [advance, hc]
      · simp [advance, hc, ih]

theorem counts_advanceBy (before : List Char) : (start.advanceBy before).Counts before where
  offset := by simp [offset_advanceBy, start]
  line := by simp [line_advanceBy, start, Nat.add_comm]
  column := column_advanceBy before

end Position

namespace Reader

/-! ## Slices -/

theorem slice?_append (before slice after : String) :
    slice? (before ++ (slice ++ after)) before.utf8ByteSize
      (before.utf8ByteSize + slice.utf8ByteSize) = some slice := by
  have hstart : String.Pos.Raw.IsValid (before ++ (slice ++ after)) ⟨before.utf8ByteSize⟩ :=
    String.Pos.Raw.isValid_iff_exists_append.mpr ⟨before, slice ++ after, rfl, rfl⟩
  have hstop : String.Pos.Raw.IsValid (before ++ (slice ++ after))
      ⟨before.utf8ByteSize + slice.utf8ByteSize⟩ :=
    String.Pos.Raw.isValid_iff_exists_append.mpr
      ⟨before ++ slice, after, String.append_assoc.symm, by simp [String.rawEndPos]⟩
  rw [slice?, dif_pos ⟨hstart, hstop, Nat.le_add_right _ _⟩, Option.some.injEq,
    ← String.toByteArray_inj]
  calc
    (before ++ (slice ++ after)).toByteArray.extract before.utf8ByteSize
          (before.utf8ByteSize + slice.utf8ByteSize)
        = (before.toByteArray ++ (slice.toByteArray ++ after.toByteArray)).extract
            (before.toByteArray.size + 0) (before.toByteArray.size + slice.toByteArray.size) := by
      simp only [String.toByteArray_append, String.size_toByteArray, Nat.add_zero]
    _ = (slice.toByteArray ++ after.toByteArray).extract 0 slice.toByteArray.size :=
      ByteArray.extract_append_size_add
    _ = slice.toByteArray := ByteArray.extract_append_eq_left rfl

/-! ## Searching -/

/-- Where the table has a point in front of which all numbers pass, and behind which none does, the
search finds it. -/
theorem partitionPoint_eq {table : Array Nat} {test : Nat → Bool} {point low high : Nat}
    (hpass : ∀ i < point, table[i]?.any test = true)
    (hfail : ∀ i, point ≤ i → table[i]?.any test = false)
    (hlow : low ≤ point) (hhigh : point ≤ high) :
    partitionPoint table test low high = point := by
  fun_induction partitionPoint table test low high with
  | case1 low high hlt middle htest ih =>
      refine ih ?_ hhigh
      by_contra hle
      rw [hfail middle (by omega)] at htest
      cases htest
  | case2 low high hlt middle htest ih =>
      refine ih hlow ?_
      by_contra hle
      exact htest (hpass middle (by omega))
  | case3 low high hle => omega

/-! ## Line starts -/

theorem utf8ByteSize_ofList_append (text rest : List Char) :
    (String.ofList (text ++ rest)).utf8ByteSize =
      (String.ofList text).utf8ByteSize + (String.ofList rest).utf8ByteSize := by
  rw [String.ofList_append, String.utf8ByteSize_append]

theorem utf8ByteSize_ofList_cons (c : Char) (rest : List Char) :
    (String.ofList (c :: rest)).utf8ByteSize =
      c.utf8Size + (String.ofList rest).utf8ByteSize := by
  rw [← List.singleton_append, utf8ByteSize_ofList_append, ← String.singleton_eq_ofList,
    String.utf8ByteSize_singleton]

theorem startsBehind_append (offset : Nat) (text rest : List Char) :
    startsBehind offset (text ++ rest) =
      startsBehind offset text ++
        startsBehind (offset + (String.ofList text).utf8ByteSize) rest := by
  fun_induction startsBehind offset text with
  | case1 offset => simp
  | case2 offset text ih =>
      rw [List.cons_append, startsBehind, if_pos rfl, ih, utf8ByteSize_ofList_cons, List.cons_append,
        Nat.add_assoc]
      rfl
  | case3 offset c text hc ih =>
      rw [List.cons_append, startsBehind, if_neg hc, ih, utf8ByteSize_ofList_cons, Nat.add_assoc]

theorem length_startsBehind (offset : Nat) (text : List Char) :
    (startsBehind offset text).length = text.count '\n' := by
  fun_induction startsBehind offset text with
  | case1 offset => rfl
  | case2 offset text ih => simp [ih]
  | case3 offset c text hc ih => simp [ih, hc]

/-- Lines start behind the place where the text starts, and no later than it ends. -/
theorem bounds_of_mem_startsBehind {offset start : Nat} {text : List Char}
    (h : start ∈ startsBehind offset text) :
    offset < start ∧ start ≤ offset + (String.ofList text).utf8ByteSize := by
  fun_induction startsBehind offset text with
  | case1 offset => cases h
  | case2 offset text ih =>
      rw [utf8ByteSize_ofList_cons]
      have hbreak : '\n'.utf8Size = 1 := rfl
      rcases List.mem_cons.mp h with rfl | h
      · omega
      · have hbounds := ih h
        omega
  | case3 offset c text hc ih =>
      rw [utf8ByteSize_ofList_cons]
      have hbounds := ih h
      have hpositive := c.utf8Size_pos
      omega

/-- The last line of a text starts behind its last line break. -/
theorem getLast?_startsBehind (text : List Char) :
    (0 :: startsBehind 0 text).getLast? =
      some (String.ofList (text.rdropWhile (· ≠ '\n'))).utf8ByteSize := by
  induction text using List.reverseRecOn with
  | nil => rfl
  | append_singleton text c ih =>
      rw [startsBehind_append, Nat.zero_add, startsBehind, List.rdropWhile_concat]
      by_cases hc : c = '\n'
      · subst hc
        rw [if_pos rfl, startsBehind, ← List.cons_append, List.getLast?_concat, if_neg (by simp),
          utf8ByteSize_ofList_append]
        rfl
      · rw [if_neg hc, startsBehind, List.append_nil, ih, if_pos (by simpa using hc)]

/-! ## Positions in the index -/

namespace LineIndex

variable {source : String} {before after : List Char}

/-- The starts that are not behind an offset are those of the text in front of it. -/
theorem starts_split (h : source.toList = before ++ after) :
    (ofSource source).starts.toList = (0 :: startsBehind 0 before) ++
      startsBehind (String.ofList before).utf8ByteSize after := by
  rw [ofSource, List.toList_toArray, h, startsBehind_append, Nat.zero_add, List.cons_append]

/-- The search comes to the line of the offset. -/
theorem partitionPoint_starts (h : source.toList = before ++ after) :
    partitionPoint (ofSource source).starts (· ≤ (String.ofList before).utf8ByteSize) 0
      (ofSource source).starts.size = before.count '\n' + 1 := by
  have hlength : (0 :: startsBehind 0 before).length = before.count '\n' + 1 := by
    rw [List.length_cons, length_startsBehind]
  have hsplit := starts_split h
  have hget : ∀ i, (ofSource source).starts[i]? = ((0 :: startsBehind 0 before) ++
      startsBehind (String.ofList before).utf8ByteSize after)[i]? := fun i => by
    rw [← hsplit, Array.getElem?_toList]
  refine partitionPoint_eq (fun i hi => ?_) (fun i hi => ?_) (Nat.zero_le _) ?_
  · rw [hget, List.getElem?_append_left (by omega)]
    cases hstart : (0 :: startsBehind 0 before)[i]? with
    | none =>
        rw [List.getElem?_eq_none_iff] at hstart
        omega
    | some start =>
        rw [Option.any_some, decide_eq_true_eq]
        rcases List.mem_cons.mp (List.mem_of_getElem? hstart) with rfl | hmem
        · exact Nat.zero_le _
        · simpa using (bounds_of_mem_startsBehind hmem).2
  · rw [hget, List.getElem?_append_right (by omega)]
    cases hstart : (startsBehind (String.ofList before).utf8ByteSize after)[
        i - (0 :: startsBehind 0 before).length]? with
    | none => rfl
    | some start =>
        rw [Option.any_some, decide_eq_false_iff_not, not_le]
        exact (bounds_of_mem_startsBehind (List.mem_of_getElem? hstart)).1
  · rw [← Array.length_toList, hsplit, List.length_append, hlength]
    omega

/-- The search ends at the start of the line, behind the last line break. -/
theorem getElem?_starts (h : source.toList = before ++ after) :
    (ofSource source).starts[before.count '\n']? =
      some (String.ofList (before.rdropWhile (· ≠ '\n'))).utf8ByteSize := by
  have hlength : before.count '\n' < (0 :: startsBehind 0 before).length := by
    rw [List.length_cons, length_startsBehind]
    omega
  rw [← Array.getElem?_toList, starts_split h, List.getElem?_append_left hlength,
    ← getLast?_startsBehind, List.getLast?_eq_getElem?, List.length_cons, length_startsBehind,
    Nat.add_sub_cancel]

/-- The slice from there on holds what the column counts. -/
theorem slice?_line (h : source.toList = before ++ after) :
    slice? source (String.ofList (before.rdropWhile (· ≠ '\n'))).utf8ByteSize
      (String.ofList before).utf8ByteSize =
        some (String.ofList (before.rtakeWhile (· ≠ '\n'))) := by
  have hbefore : before.rdropWhile (· ≠ '\n') ++ before.rtakeWhile (· ≠ '\n') = before :=
    List.rdropWhile_append_rtakeWhile
  have hslice := slice?_append (String.ofList (before.rdropWhile (· ≠ '\n')))
    (String.ofList (before.rtakeWhile (· ≠ '\n'))) (String.ofList after)
  rw [← String.ofList_append, ← String.ofList_append, ← List.append_assoc, hbefore, ← h,
    String.ofList_toList, ← utf8ByteSize_ofList_append, hbefore] at hslice
  exact hslice

/-- At the boundary of a character the index counts what stands in front of it. -/
theorem counts_position (h : source.toList = before ++ after) :
    ((ofSource source).position (String.ofList before).utf8ByteSize).Counts before := by
  have hline := partitionPoint_starts h
  refine ⟨rfl, hline, ?_⟩
  simp only [position, hline, Nat.add_sub_cancel, getElem?_starts h, Option.getD_some]
  rw [ofSource, slice?_line h]
  simp

/-- So it agrees with moving along the text, one character after the other. -/
theorem position_eq_advanceBy (h : source.toList = before ++ after) :
    (ofSource source).position (String.ofList before).utf8ByteSize =
      Position.start.advanceBy before :=
  (counts_position h).unique (Position.counts_advanceBy before)

end LineIndex

/-! ## Tokens -/

/-- Wherever the reader has got to, it goes on as if it looked its positions up. -/
theorem lexFrom_eq_tokensFrom {source : String} {before text : List Char}
    (h : source.toList = before ++ text) :
    lexFrom (.ofSource source) (String.ofList before).utf8ByteSize text =
      tokensFrom (Position.start.advanceBy before) text := by
  generalize hposition : Position.start.advanceBy before = position
  fun_induction tokensFrom position text generalizing before with
  | case1 position => rw [lexFrom]
  | case2 position c rest hseparator ih =>
      rw [lexFrom, if_pos hseparator]
      have hmoved := @ih (before ++ [c]) (by simp [h])
        (by rw [Position.advanceBy_append, hposition]; rfl)
      rwa [utf8ByteSize_ofList_append, ← String.singleton_eq_ofList,
        String.utf8ByteSize_singleton] at hmoved
  | case3 position rest hlength hseparator ih =>
      rw [lexFrom, if_neg hseparator, if_pos rfl]
      have hsplit : rest.takeWhile (· ≠ '\n') ++ skipComment rest = rest :=
        List.takeWhile_append_dropWhile
      have hmoved := @ih (before ++ ';' :: rest.takeWhile (· ≠ '\n'))
        (by rw [List.append_assoc, List.cons_append, hsplit, h])
        (by rw [Position.advanceBy_append, hposition])
      rwa [utf8ByteSize_ofList_append] at hmoved
  | case4 position c rest hseparator hcomment hscan =>
      rw [lexFrom, if_neg hseparator, if_neg hcomment]
      split
      · rw [LineIndex.position_eq_advanceBy h, hposition]
      · next hsome =>
          rw [hscan] at hsome
          cases hsome
  | case5 position c rest hseparator hcomment lexeme after hscan hlength ih =>
      rw [lexFrom, if_neg hseparator, if_neg hcomment]
      split
      · next hnone =>
          rw [hscan] at hnone
          cases hnone
      · next lexeme' after' hsome =>
          rw [hscan] at hsome
          cases hsome
          have hmoved := @ih (before ++ lexeme.chars)
            (by rw [List.append_assoc, Lexeme.scan?_chars hscan, h])
            (by rw [Position.advanceBy_append, hposition])
          rw [utf8ByteSize_ofList_append] at hmoved
          simp only [hmoved, LineIndex.position_eq_advanceBy h, hposition]

/-- The reader takes its positions along the text, and comes to those of the index. -/
theorem lex_eq_tokens (source : String) : lex source = tokens source := by
  have hsource : source.toList = [] ++ source.toList := rfl
  exact lexFrom_eq_tokensFrom hsource

end Reader
end LazyLisp
