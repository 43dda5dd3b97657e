import Mathlib.Data.List.FinRange
import NativeBindings.Proofs.KeepFirst

set_option autoImplicit false
set_option relaxedAutoImplicit false

/-!
Where the kept items of a list stand in it. Main statement: kept are exactly the items at the
positions before which no item has their key, in the order of these positions; so every key keeps
its first bearer, a second run changes nothing, and lists may lose their repetitions before they are
joined.
-/

namespace NativeBindings

variable {α β : Type}

/-- No item before the position has the key of the item there. -/
def Foremost (key : α → β) (items : List α) (i : Fin items.length) : Prop :=
  ∀ j < i, key (items.get j) ≠ key (items.get i)

instance [DecidableEq β] (key : α → β) (items : List α) (i : Fin items.length) :
    Decidable (Foremost key items i) :=
  inferInstanceAs (Decidable (∀ j < i, _))

private theorem foremost_zero (key : α → β) (x : α) (rest : List α) :
    Foremost key (x :: rest) (0 : Fin (rest.length + 1)) :=
  fun j hj => absurd hj (Fin.not_lt_zero j)

private theorem foremost_succ_iff {key : α → β} {x : α} {rest : List α} {i : Fin rest.length} :
    Foremost key (x :: rest) i.succ ↔ key x ≠ key (rest.get i) ∧ Foremost key rest i := by
  constructor
  · intro h
    exact ⟨h 0 i.succ_pos, fun j hj => h j.succ (Fin.succ_lt_succ_iff.mpr hj)⟩
  · rintro ⟨hx, hrest⟩ j
    cases j using Fin.cases with
    | zero => exact fun _ => hx
    | succ j => exact fun hj => hrest j (Fin.succ_lt_succ_iff.mp hj)

variable [DecidableEq β] {key : α → β}

-- The seen keys are general here, since every kept item adds its own to them.
private theorem keepFirstFrom_eq_map_filter (seen : List β) (items : List α) :
    keepFirstFrom key seen items =
      ((List.finRange items.length).filter fun i =>
        decide (key (items.get i) ∉ seen ∧ Foremost key items i)).map items.get := by
  induction items generalizing seen with
  | nil => rfl
  | cons x rest ih =>
    have hbehind : ∀ i : Fin rest.length,
        key ((x :: rest).get i.succ) ∉ seen ∧ Foremost key (x :: rest) i.succ ↔
          (key (rest.get i) ∉ seen ∧ key x ≠ key (rest.get i)) ∧ Foremost key rest i := by
      intro i
      rw [foremost_succ_iff, and_assoc]
      rfl
    have hfront : key ((x :: rest).get (0 : Fin (rest.length + 1))) ∉ seen ∧
        Foremost key (x :: rest) (0 : Fin (rest.length + 1)) ↔ key x ∉ seen :=
      and_iff_left (foremost_zero key x rest)
    have hpositions : List.finRange (x :: rest).length =
        (0 : Fin (rest.length + 1)) :: (List.finRange rest.length).map Fin.succ :=
      List.finRange_succ
    rw [hpositions, List.filter_cons, List.filter_map]
    simp only [hfront, decide_eq_true_eq, Function.comp_def, hbehind]
    unfold keepFirstFrom
    by_cases hx : key x ∈ seen
    · have hnew : ∀ i : Fin rest.length,
          key (rest.get i) ∉ seen ∧ key x ≠ key (rest.get i) ↔ key (rest.get i) ∉ seen :=
        fun i => and_iff_left_of_imp fun hi heq => hi (heq ▸ hx)
      simp only [hx, if_true, not_true_eq_false, if_false, hnew, ih, List.map_map]
      rfl
    · have hnew : ∀ i : Fin rest.length,
          key (rest.get i) ∉ seen ∧ key x ≠ key (rest.get i) ↔
            key (rest.get i) ∉ key x :: seen := by
        intro i
        rw [List.mem_cons, not_or, and_comm, ne_comm]
      simp only [hx, if_false, not_false_eq_true, if_true, hnew, ih, List.map_cons, List.map_map]
      rfl

theorem keepFirst_eq_map_foremost (items : List α) :
    keepFirst key items =
      ((List.finRange items.length).filter fun i => decide (Foremost key items i)).map
        items.get := by
  rw [keepFirst, keepFirstFrom_eq_map_filter]
  simp only [List.not_mem_nil, not_false_eq_true, true_and]

theorem keepFirst_sublist (items : List α) : (keepFirst key items).Sublist items := by
  rw [keepFirst_eq_map_foremost]
  conv_rhs => rw [← List.map_get_finRange items]
  exact List.filter_sublist.map items.get

private theorem find?_keepFirstFrom {seen : List β} {k : β} (hk : k ∉ seen) (items : List α) :
    (keepFirstFrom key seen items).find? (fun x => decide (key x = k)) =
      items.find? fun x => decide (key x = k) := by
  induction items generalizing seen with
  | nil => rfl
  | cons x rest ih =>
    by_cases hx : key x = k
    · have hnew : key x ∉ seen := hx ▸ hk
      rw [keepFirstFrom, if_neg hnew, List.find?_cons_of_pos (by simpa using hx),
        List.find?_cons_of_pos (by simpa using hx)]
    · rw [List.find?_cons_of_neg (by simpa using hx), keepFirstFrom]
      split
      · exact ih hk
      · rw [List.find?_cons_of_neg (by simpa using hx)]
        exact ih (by simp [hk, Ne.symm hx])

theorem find?_keepFirst (items : List α) (k : β) :
    (keepFirst key items).find? (fun x => decide (key x = k)) =
      items.find? fun x => decide (key x = k) :=
  find?_keepFirstFrom List.not_mem_nil items

theorem keepFirst_keepFirst (items : List α) :
    keepFirst key (keepFirst key items) = keepFirst key items :=
  keepFirst_of_nodup (nodup_keepFirst items)

theorem keepFirst_append_keepFirst (xs ys : List α) :
    keepFirst key (keepFirst key xs ++ keepFirst key ys) = keepFirst key (xs ++ ys) := by
  rw [keepFirst_append, keepFirst_append, keepFirst_keepFirst, keepFirst_keepFirst]
  congr 1
  apply List.filter_congr
  intro y _
  simp only [mem_keepFirst_map_iff]

/-- Of a list those items are kept, in their order, before which no item has their key. No key is
kept twice and none is lost, and its first bearer stands for it. A second run changes nothing, and
joined lists keep the same items as when each has lost its repetitions before. -/
theorem keepFirst_stable (key : α → β) (xs ys : List α) :
    keepFirst key xs =
      ((List.finRange xs.length).filter fun i => decide (Foremost key xs i)).map xs.get ∧
    (keepFirst key xs).Sublist xs ∧
    ((keepFirst key xs).map key).Nodup ∧
    (∀ k, k ∈ (keepFirst key xs).map key ↔ k ∈ xs.map key) ∧
    (∀ k, (keepFirst key xs).find? (fun x => decide (key x = k)) =
      xs.find? fun x => decide (key x = k)) ∧
    keepFirst key (keepFirst key xs) = keepFirst key xs ∧
    keepFirst key (xs ++ ys) = keepFirst key (keepFirst key xs ++ keepFirst key ys) := by
  refine ⟨keepFirst_eq_map_foremost xs, keepFirst_sublist xs, nodup_keepFirst xs,
    fun _ => mem_keepFirst_map_iff, find?_keepFirst xs, keepFirst_keepFirst xs, ?_⟩
  rw [keepFirst_append_keepFirst]

end NativeBindings
