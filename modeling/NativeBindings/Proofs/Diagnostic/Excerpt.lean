import NativeBindings.Diagnostic.Excerpt

set_option autoImplicit false
set_option relaxedAutoImplicit false

/-!
Which spans can be drawn. Main statement: the reports of diagnostics are complete just if no span of
a registered text begins or ends inside a character of it.
-/

namespace NativeBindings

namespace Text

/-- An offset lies between two characters of a text or at an end of it. -/
def Boundary (offset : Nat) (cs : List Char) : Prop :=
  ∃ before after, cs = before ++ after ∧ byteCount before = offset

private theorem boundary_zero (cs : List Char) : Boundary 0 cs := ⟨[], cs, rfl, rfl⟩

private theorem boundary_cons_iff {n : Nat} {c : Char} {cs : List Char} (hn : n ≠ 0) :
    Boundary n (c :: cs) ↔ c.utf8Size ≤ n ∧ Boundary (n - c.utf8Size) cs := by
  constructor
  · rintro ⟨before, after, htext, hcount⟩
    cases before with
    | nil => exact absurd hcount (Ne.symm hn)
    | cons d before =>
      obtain ⟨rfl, rfl⟩ := List.cons.inj htext
      rw [byteCount_cons] at hcount
      exact ⟨by omega, before, after, rfl, by omega⟩
  · rintro ⟨hle, before, after, rfl, hcount⟩
    exact ⟨c :: before, after, rfl, by rw [byteCount_cons, hcount]; omega⟩

private theorem boundary_add_iff (xs : List Char) {n : Nat} {ys : List Char} :
    Boundary (byteCount xs + n) (xs ++ ys) ↔ Boundary n ys := by
  induction xs with
  | nil => simp
  | cons c xs ih =>
    have hpos := c.utf8Size_pos
    rw [byteCount_cons, List.cons_append, boundary_cons_iff (by omega), ← ih]
    have hrest : c.utf8Size + byteCount xs + n - c.utf8Size = byteCount xs + n := by omega
    rw [hrest]
    exact and_iff_right (by omega)

private theorem boundary_append_iff {n : Nat} {xs ys : List Char} (h : n ≤ byteCount xs) :
    Boundary n (xs ++ ys) ↔ Boundary n xs := by
  induction xs generalizing n with
  | nil =>
    obtain rfl : n = 0 := by simpa using h
    exact iff_of_true (boundary_zero _) (boundary_zero _)
  | cons c xs ih =>
    by_cases hn : n = 0
    · subst hn
      exact iff_of_true (boundary_zero _) (boundary_zero _)
    · rw [byteCount_cons] at h
      rw [List.cons_append, boundary_cons_iff hn, boundary_cons_iff hn, ih (by omega)]

end Text

namespace Excerpt

open Text (Boundary byteCount)

/-- A span, drawn back to the end of the text, begins or ends inside a character. -/
def Cuts (span : Span) (source : String) : Prop :=
  ¬ (Boundary (min span.start (byteCount source.toList)) source.toList ∧
    Boundary (min span.stop (byteCount source.toList)) source.toList)

theorem charsBefore_isSome_iff {n : Nat} {cs : List Char} (h : n ≤ byteCount cs) :
    (charsBefore n cs).isSome ↔ Boundary n cs := by
  fun_induction charsBefore n cs with
  | case1 cs => exact iff_of_true rfl (Text.boundary_zero cs)
  | case2 n => simp at h
  | case3 n c cs hle ih =>
    rw [Text.byteCount_cons] at h
    rw [Option.isSome_map, ih (by omega), Text.boundary_cons_iff (by omega)]
    exact (and_iff_right hle).symm
  | case4 n c cs hle =>
    rw [Text.boundary_cons_iff (by omega)]
    simp [hle]

private theorem flatten_splitLines (cs : List Char) : (splitLines cs).flatten = cs := by
  fun_induction splitLines cs with
  | case1 => rfl
  | case2 rest ih => simp [ih]
  | case3 c rest _ _ ih => simp [ih]
  | case4 c rest _ _ ih =>
    cases hlines : splitLines rest with
    | nil => simp_all [extendFirst]
    | cons l ls => simp_all [extendFirst]

/-- On the line of a byte, an offset at or just behind the byte is cut as in the whole text. The
induction is on the lines behind the one that is taken so far. -/
private theorem charsBefore_lineAt_isSome_iff {byte offset : Nat} (hbyte : byte ≤ offset)
    (hnear : offset ≤ byte + 1) (ls : List (List Char)) (number start : Nat) (l : List Char)
    (hstart : start ≤ byte) (hend : offset ≤ start + byteCount l + byteCount ls.flatten) :
    let line := lineAt byte ⟨number, start, l⟩ (placeLines (number + 1) (start + byteCount l) ls)
    (charsBefore (offset - line.start) line.content).isSome ↔
      Boundary (offset - start) (l ++ ls.flatten) := by
  induction ls generalizing number start l with
  | nil =>
    have hend : offset - start ≤ byteCount l := by simp at hend; omega
    simpa [placeLines, lineAt] using charsBefore_isSome_iff hend
  | cons next ls ih =>
    rw [placeLines, lineAt, List.flatten_cons]
    rw [List.flatten_cons, Text.byteCount_append] at hend
    by_cases hnext : start + byteCount l ≤ byte
    · rw [if_pos hnext]
      have hoffset : offset - start = byteCount l + (offset - (start + byteCount l)) := by omega
      rw [hoffset, Text.boundary_add_iff]
      exact ih (number + 1) (start + byteCount l) next hnext (by omega)
    · rw [if_neg hnext]
      have hwithin : offset - start ≤ byteCount l := by omega
      rw [Text.boundary_append_iff hwithin]
      exact charsBefore_isSome_iff hwithin

private theorem placeOn_isSome_iff {source : String} {byte offset : Nat} (hbyte : byte ≤ offset)
    (hnear : offset ≤ byte + 1) (hend : offset ≤ byteCount source.toList) :
    (placeOn (sourceLines source) byte offset).isSome ↔ Boundary offset source.toList := by
  have hflatten := flatten_splitLines source.toList
  rw [placeOn, Option.isSome_map, sourceLines]
  cases hlines : splitLines source.toList with
  | nil =>
    rw [hlines] at hflatten
    rw [← hflatten] at hend ⊢
    have hline : lineAt byte ⟨1, 0, []⟩ [⟨1, 0, []⟩] = ⟨1, 0, []⟩ := by simp [lineAt]
    rw [hline]
    exact charsBefore_isSome_iff hend
  | cons l ls =>
    rw [hlines, List.flatten_cons] at hflatten
    rw [← hflatten] at hend ⊢
    dsimp only
    rw [placeLines, lineAt, if_pos (Nat.zero_le byte)]
    exact charsBefore_lineAt_isSome_iff hbyte hnear ls 1 0 l (Nat.zero_le byte)
      (by simpa using hend)

theorem rows_isSome_iff (d : Diagnostic) (span : Span) (source : String) :
    (rows d span source).isSome ↔ ¬ Cuts span source := by
  have hordered := span.start_le_stop
  have hstart : min span.start (min span.stop (byteCount source.toList)) =
      min span.start (byteCount source.toList) := by omega
  have hfirst : (placeOf (sourceLines source) (min span.start (byteCount source.toList))).isSome ↔
      Boundary (min span.start (byteCount source.toList)) source.toList :=
    placeOn_isSome_iff (Nat.le_refl _) (Nat.le_succ _) (Nat.min_le_right _ _)
  have hlast : (endPlace (sourceLines source) (min span.start (byteCount source.toList))
      (min span.stop (byteCount source.toList))).isSome ↔
      Boundary (min span.stop (byteCount source.toList)) source.toList := by
    unfold endPlace
    split
    · rename_i hempty
      have hsame : min span.stop (byteCount source.toList) =
          min span.start (byteCount source.toList) := by omega
      rw [hfirst, hsame]
    · exact placeOn_isSome_iff (Nat.sub_le _ _) (by omega) (Nat.min_le_right _ _)
  rw [Cuts, Classical.not_not, ← hfirst, ← hlast]
  simp only [rows, hstart]
  cases placeOf (sourceLines source) (min span.start (byteCount source.toList)) with
  | none => simp
  | some first =>
    cases endPlace (sourceLines source) (min span.start (byteCount source.toList))
      (min span.stop (byteCount source.toList)) <;> simp

/-- A diagnostic points into a registered text and cuts a character of it. -/
def CutsOne (sources : Sources) (d : Diagnostic) : Prop :=
  ∃ span file, located sources d = some (span, file) ∧ Cuts span file.text

theorem report_complete_iff (sources : Sources) (d : Diagnostic) :
    (report sources d).complete = true ↔ ¬ CutsOne sources d := by
  unfold report CutsOne
  cases located sources d with
  | none => simp
  | some found =>
    obtain ⟨span, file⟩ := found
    have hdrawn := rows_isSome_iff d span file.text
    cases hrows : rows d span file.text <;> simp_all

theorem reportAll_complete_iff (sources : Sources) (sink : Sink) :
    (reportAll sources sink).complete = true ↔ ∀ d ∈ sink, ¬ CutsOne sources d := by
  induction sink with
  | nil => simp [reportAll]
  | cons d rest ih =>
    have hfirst := report_complete_iff sources d
    rw [reportAll, List.forall_mem_cons, ← hfirst, ← ih]
    cases hcomplete : (report sources d).complete <;> simp [hcomplete]

end Excerpt

end NativeBindings
