import Mathlib.Data.List.TakeWhile
import NativeBindings.Text.Position

set_option autoImplicit false
set_option relaxedAutoImplicit false

/-!
Offsets and places of a text. Main statement: the place after some first bytes of a text, in lines
and columns, is found again at their number, and no place is found beyond the end.
-/

namespace NativeBindings.Text

variable {column total start line : Nat} {b : UInt8} {rest : List UInt8}

/-! The bytes of a text. -/

private theorem length_toList_loop (b : ByteArray) (i : Nat) (read : List UInt8) :
    (ByteArray.toList.loop b i read).length = read.length + (b.size - i) := by
  fun_induction ByteArray.toList.loop b i read with
  | case1 i read hi ih =>
    rw [ih, List.length_cons]
    omega
  | case2 i read hi =>
    rw [List.length_reverse]
    omega

private theorem size_utf8Encode (cs : List Char) : cs.utf8Encode.size = byteCount cs := by
  induction cs with
  | nil => rfl
  | cons c cs ih =>
    rw [List.utf8Encode_cons, ByteArray.size_append, ih, byteCount_cons]
    simp [List.utf8Encode]

theorem length_bytes (s : String) : (bytes s).length = byteCount s.toList := by
  rw [bytes, ByteArray.toList, length_toList_loop, ← size_utf8Encode, String.utf8Encode_toList]
  exact Nat.zero_add _

/-! The place after some bytes. -/

private theorem takeWhile_ne_newline_iff {bs : List UInt8} :
    bs.takeWhile (· ≠ newline) = bs ↔ newline ∉ bs := by
  rw [List.takeWhile_eq_self_iff]
  constructor
  · intro h hmem
    exact of_decide_eq_true (h newline hmem) rfl
  · intro h c hc
    apply decide_eq_true
    rintro rfl
    exact h hc

private theorem LineColumn.column_after_of_notMem {before : List UInt8} (h : newline ∉ before) :
    (LineColumn.after before).column = before.length := by
  have hreverse : newline ∉ before.reverse := fun hmem => h (List.mem_reverse.mp hmem)
  rw [LineColumn.after, takeWhile_ne_newline_iff.mpr hreverse, List.length_reverse]

private theorem LineColumn.column_after_cons (h : b = newline ∨ newline ∈ rest) :
    (LineColumn.after (b :: rest)).column = (LineColumn.after rest).column := by
  by_cases hmem : newline ∈ rest
  · have hshort : (rest.reverse.takeWhile (· ≠ newline)).length ≠ rest.reverse.length := by
      intro hlength
      have hwhole := (List.takeWhile_prefix _).eq_of_length hlength
      exact takeWhile_ne_newline_iff.mp hwhole (List.mem_reverse.mpr hmem)
    rw [LineColumn.after, List.reverse_cons, List.takeWhile_append, if_neg hshort]
    rfl
  · obtain rfl : b = newline := h.resolve_right hmem
    have hwhole : rest.reverse.takeWhile (· ≠ newline) = rest.reverse :=
      takeWhile_ne_newline_iff.mpr fun hreverse => hmem (List.mem_reverse.mp hreverse)
    have hnone : [newline].takeWhile (· ≠ newline) = [] := rfl
    rw [LineColumn.after, List.reverse_cons, List.takeWhile_append, if_pos (congrArg _ hwhole),
      hnone, List.append_nil, LineColumn.after, hwhole]

/-! The lines of a text, byte by byte. -/

private theorem lines_ne_nil (b : UInt8) (rest : List UInt8) : lines (b :: rest) ≠ [] := by
  unfold lines
  split
  · exact List.cons_ne_nil _ _
  · split <;> exact List.cons_ne_nil _ _

private theorem offsetFrom_zero (b : UInt8) (rest : List UInt8) :
    offsetFrom column total (lines (b :: rest)) 0 start = min (start + (column - 1)) total := by
  obtain ⟨l, ls, hlines⟩ := List.exists_cons_of_ne_nil (lines_ne_nil b rest)
  rw [hlines, offsetFrom]

private theorem offsetFrom_newline (rest : List UInt8) :
    offsetFrom column total (lines (newline :: rest)) (line + 1) start =
      offsetFrom column total (lines rest) line (start + 1) := by
  rw [lines, if_pos rfl, offsetFrom, List.length_singleton]

private theorem offsetFrom_succ (hb : b ≠ newline) (rest : List UInt8) :
    offsetFrom column total (lines (b :: rest)) (line + 1) start =
      offsetFrom column total (lines rest) (line + 1) (start + 1) := by
  rw [lines, if_neg hb]
  cases lines rest with
  | nil => rfl
  | cons l ls =>
    show offsetFrom column total ls line (start + (l.length + 1)) =
      offsetFrom column total ls line (start + 1 + l.length)
    congr 1
    omega

private theorem offsetFrom_after (before behind : List UInt8) (start : Nat) :
    offsetFrom ((LineColumn.after before).column + 1) (start + (before ++ behind).length)
      (lines (before ++ behind)) (before.count newline) start = start + before.length := by
  induction before generalizing start with
  | nil =>
    cases behind with
    | nil => rfl
    | cons b rest =>
      rw [List.nil_append, List.count_nil, offsetFrom_zero]
      simp [LineColumn.after]
  | cons b before ih =>
    have hrest := ih (start + 1)
    have htotal : start + ((before ++ behind).length + 1) =
        start + 1 + (before ++ behind).length := by omega
    have hoffset : start + (before.length + 1) = start + 1 + before.length := by omega
    rw [List.cons_append, List.length_cons, List.length_cons, htotal, hoffset, ← hrest]
    by_cases hb : b = newline
    · subst hb
      rw [LineColumn.column_after_cons (.inl rfl), List.count_cons_self, offsetFrom_newline]
    · rw [List.count_cons_of_ne hb]
      -- Behind the last newline this byte counts in the column, in front of it it does not.
      cases hcount : before.count newline with
      | zero =>
        have hnone : newline ∉ before := List.count_eq_zero.mp hcount
        have hnone' : newline ∉ b :: before :=
          List.not_mem_cons_of_ne_of_not_mem (Ne.symm hb) hnone
        rw [offsetFrom_zero, LineColumn.column_after_of_notMem hnone', ← hcount, hrest,
          List.length_cons, List.length_append]
        omega
      | succ line =>
        have hmem : newline ∈ before := List.count_pos_iff.mp (by omega)
        rw [LineColumn.column_after_cons (.inr hmem), offsetFrom_succ hb]

theorem offsetFrom_le (ls : List (List UInt8)) (line start : Nat) :
    offsetFrom column total ls line start ≤ total := by
  fun_induction offsetFrom column total ls line start with
  | case1 => exact Nat.le_refl _
  | case2 => exact Nat.min_le_right _ _
  | case3 _ _ _ _ ih => exact ih

private theorem offsetFrom_column_zero (ls : List (List UInt8)) (line start : Nat) :
    offsetFrom 0 total ls line start = offsetFrom 1 total ls line start := by
  fun_induction offsetFrom 1 total ls line start with
  | case1 => rfl
  | case2 => rfl
  | case3 _ _ _ _ ih => exact ih

theorem offsetOf?_le_length {text : List UInt8} {offset : Nat}
    (h : offsetOf? text line column = some offset) : offset ≤ text.length := by
  cases line with
  | zero => cases h
  | succ line =>
    rw [← Option.some.inj h]
    exact offsetFrom_le (lines text) line 0

/-- The place after the first bytes of a text has their number for its offset, also behind the last
newline. Column zero counts as the first one. Only line zero is nowhere; every other place has an
offset within the text. -/
theorem offsetOf?_after_take (text : List UInt8) :
    (∀ p ≤ text.length,
      offsetOf? text (LineColumn.after (text.take p)).line
        ((LineColumn.after (text.take p)).column + 1) = some p) ∧
    (∀ line, offsetOf? text line 0 = offsetOf? text line 1) ∧
    (∀ line column, offsetOf? text line column = none ↔ line = 0) ∧
    ∀ line column offset, offsetOf? text line column = some offset → offset ≤ text.length := by
  refine ⟨?_, ?_, ?_, fun _ _ _ => offsetOf?_le_length⟩
  · intro p hp
    have hafter := offsetFrom_after (text.take p) (text.drop p) 0
    rw [List.take_append_drop, Nat.zero_add, Nat.zero_add, List.length_take_of_le hp] at hafter
    exact congrArg some hafter
  · intro line
    cases line with
    | zero => rfl
    | succ line => exact congrArg some (offsetFrom_column_zero (lines text) line 0)
  · intro line column
    cases line <;> simp [offsetOf?]

def letterLines : List UInt8 := [97, 98, newline, 99, 100, newline, newline]

/-- Inside a line, in an empty one, and behind the newline that ends the text. -/
theorem offsetOf?_after_take_lines :
    (4 ≤ letterLines.length ∧ offsetOf? letterLines 2 2 = some 4) ∧
    (6 ≤ letterLines.length ∧ offsetOf? letterLines 3 1 = some 6) ∧
    7 ≤ letterLines.length ∧ offsetOf? letterLines 4 1 = some 7 := by
  obtain ⟨hafter, -⟩ := offsetOf?_after_take letterLines
  have hinside : 4 ≤ letterLines.length := by decide
  have hempty : 6 ≤ letterLines.length := by decide
  have hbehind : 7 ≤ letterLines.length := by decide
  exact ⟨⟨hinside, hafter 4 hinside⟩, ⟨hempty, hafter 6 hempty⟩, hbehind, hafter 7 hbehind⟩

end NativeBindings.Text
