set_option autoImplicit false
set_option relaxedAutoImplicit false

/-!
Texts split at a character.
-/

namespace NativeBindings.Text

def split (separator : Char) : List Char → List (List Char)
  | [] => [[]]
  | c :: rest =>
    if c = separator then [] :: split separator rest
    else
      match split separator rest with
      | [] => [[c]]
      | part :: parts => (c :: part) :: parts

def joinWith (separator : Char) : List (List Char) → List Char
  | [] => []
  | [part] => part
  | part :: next :: rest => part ++ separator :: joinWith separator (next :: rest)

private theorem split_ne_nil (separator : Char) (cs : List Char) : split separator cs ≠ [] := by
  fun_cases split separator cs <;> simp_all

theorem joinWith_split (separator : Char) (cs : List Char) :
    joinWith separator (split separator cs) = cs := by
  induction cs with
  | nil => rfl
  | cons c rest ih =>
    have hne := split_ne_nil separator rest
    unfold split
    split
    · rename_i h
      cases hs : split separator rest with
      | nil => exact absurd hs hne
      | cons part parts => simp [joinWith, ← hs, ih, h]
    · cases hs : split separator rest with
      | nil => exact absurd hs hne
      | cons part parts =>
        rw [hs] at ih
        cases parts with
        | nil => simpa [joinWith] using ih
        | cons next more => simpa [joinWith] using ih

theorem split_append_cons (separator : Char) (before after : List Char) :
    split separator (before ++ separator :: after) =
      split separator before ++ split separator after := by
  induction before with
  | nil => simp [split]
  | cons c rest ih =>
    rw [List.cons_append, split, split, ih]
    split
    · rfl
    · obtain ⟨part, parts, hparts⟩ := List.exists_cons_of_ne_nil (split_ne_nil separator rest)
      rw [hparts]
      rfl

theorem split_of_notMem {separator : Char} {cs : List Char} (h : separator ∉ cs) :
    split separator cs = [cs] := by
  induction cs with
  | nil => rfl
  | cons c rest ih =>
    simp only [List.mem_cons, not_or] at h
    rw [split, if_neg (Ne.symm h.1), ih h.2]

theorem split_joinWith {separator : Char} {parts : List (List Char)} (hne : parts ≠ [])
    (h : ∀ part ∈ parts, separator ∉ part) :
    split separator (joinWith separator parts) = parts := by
  fun_induction joinWith separator parts with
  | case1 => exact absurd rfl hne
  | case2 part => exact split_of_notMem (h part List.mem_cons_self)
  | case3 part next rest ih =>
    rw [split_append_cons, split_of_notMem (h part List.mem_cons_self),
      ih (List.cons_ne_nil _ _) fun p hp => h p (List.mem_cons_of_mem _ hp)]
    rfl

theorem notMem_of_mem_split {separator : Char} {cs part : List Char}
    (h : part ∈ split separator cs) : separator ∉ part := by
  induction cs generalizing part with
  | nil => simp_all [split]
  | cons c rest ih =>
    rw [split] at h
    split at h
    · rcases List.mem_cons.mp h with rfl | h
      · exact List.not_mem_nil
      · exact ih h
    · rename_i hc
      obtain ⟨first, more, hsplit⟩ := List.exists_cons_of_ne_nil (split_ne_nil separator rest)
      rw [hsplit] at h ih
      rcases List.mem_cons.mp h with rfl | h
      · have hfirst := ih List.mem_cons_self
        simp only [List.mem_cons, not_or]
        exact ⟨Ne.symm hc, hfirst⟩
      · exact ih (List.mem_cons_of_mem _ h)

theorem intercalate_eq_joinWith (separator : Char) (parts : List (List Char)) :
    [separator].intercalate parts = joinWith separator parts := by
  fun_induction joinWith separator parts with
  | case1 => rfl
  | case2 part => simp
  | case3 part next rest ih => simp [ih]

theorem map_joinWith {f : Char → Char} {separator : Char} {parts : List (List Char)}
    (h : ∀ part ∈ parts, part.map f = part) :
    (joinWith separator parts).map f = joinWith (f separator) parts := by
  fun_induction joinWith separator parts with
  | case1 => rfl
  | case2 part => exact h part List.mem_cons_self
  | case3 part next rest ih =>
    rw [List.map_append, List.map_cons, ih fun p hp => h p (List.mem_cons_of_mem _ hp),
      h part List.mem_cons_self]
    rfl

theorem joinWith_concat_append (separator : Char) (parts : List (List Char))
    (last more : List Char) :
    joinWith separator (parts ++ [last]) ++ more =
      joinWith separator (parts ++ [last ++ more]) := by
  induction parts with
  | nil => rfl
  | cons part rest ih => cases rest <;> simp_all [joinWith]

end NativeBindings.Text
