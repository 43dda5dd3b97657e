import Mathlib.Data.List.TakeWhile
import NativeBindings.Declaration

set_option autoImplicit false
set_option relaxedAutoImplicit false

/-!
The variants of a declaration: each is the declaration itself with arguments left out at the end,
and every argument that it leaves out carries a default. A default in front of an argument without
one is of no use to any variant; which declarations have such a default is said here without
counting.
-/

namespace NativeBindings.Declaration

variable {d v : Declaration}

theorem mem_variants_iff : v ∈ d.variants ↔
    ∃ omitted ≤ d.trailingDefaults, v = d.truncated (d.arguments.length - omitted) := by
  simp only [variants, List.mem_map, List.mem_range, Nat.lt_succ_iff]
  constructor
  · rintro ⟨omitted, h, rfl⟩
    exact ⟨omitted, h, rfl⟩
  · rintro ⟨omitted, h, rfl⟩
    exact ⟨omitted, h, rfl⟩

theorem exists_truncated_of_mem_variants (h : v ∈ d.variants) :
    ∃ count, d.requiredCount ≤ count ∧ count ≤ d.arguments.length ∧ v = d.truncated count := by
  obtain ⟨omitted, homitted, rfl⟩ := mem_variants_iff.mp h
  refine ⟨d.arguments.length - omitted, ?_, Nat.sub_le _ _, rfl⟩
  exact Nat.sub_le_sub_left homitted _

private theorem truncated_length (d : Declaration) : d.truncated d.arguments.length = d := by
  simp [truncated]

theorem variants_eq_cons (d : Declaration) : ∃ rest, d.variants = d :: rest := by
  refine ⟨((List.range d.trailingDefaults).map (· + 1)).map fun omitted =>
    d.truncated (d.arguments.length - omitted), ?_⟩
  rw [variants, List.range_succ_eq_map, List.map_cons, Nat.sub_zero, truncated_length]

private theorem drop_requiredCount (d : Declaration) :
    d.arguments.drop d.requiredCount =
      (d.arguments.reverse.takeWhile Argument.hasDefault).reverse := by
  have hprefix := List.takeWhile_prefix Argument.hasDefault (l := d.arguments.reverse)
  rw [List.prefix_iff_eq_take.mp hprefix, List.reverse_take, List.reverse_reverse,
    List.length_reverse]
  rfl

theorem hasDefault_of_mem_drop {count : Nat} (h : d.requiredCount ≤ count) {a : Argument}
    (ha : a ∈ d.arguments.drop count) : a.hasDefault = true := by
  have hdrop : a ∈ d.arguments.drop d.requiredCount :=
    (List.drop_sublist_drop_left d.arguments h).mem ha
  rw [drop_requiredCount, List.mem_reverse] at hdrop
  exact List.mem_takeWhile_imp hdrop

theorem take_requiredCount (d : Declaration) :
    d.arguments.take d.requiredCount =
      (d.arguments.reverse.dropWhile Argument.hasDefault).reverse := by
  have hsplit := List.take_append_drop d.requiredCount d.arguments
  have hreverse : (d.arguments.reverse.dropWhile Argument.hasDefault).reverse ++
      (d.arguments.reverse.takeWhile Argument.hasDefault).reverse = d.arguments := by
    rw [← List.reverse_append, List.takeWhile_append_dropWhile, List.reverse_reverse]
  rw [drop_requiredCount] at hsplit
  exact List.append_cancel_right (hsplit.trans hreverse.symm)

/-- An argument with a default stands somewhere before one without. -/
def DefaultMisplaced (d : Declaration) : Prop :=
  ∃ before a after, d.arguments = before ++ a :: after ∧ a.hasDefault = true ∧
    ∃ b ∈ after, b.hasDefault = false

theorem hasMisplacedDefault_iff : d.hasMisplacedDefault = true ↔ d.DefaultMisplaced := by
  rw [hasMisplacedDefault, List.any_eq_true]
  constructor
  · rintro ⟨a, hmem, ha⟩
    have hrequired := d.take_requiredCount
    cases hkept : d.arguments.reverse.dropWhile Argument.hasDefault with
    | nil =>
      rw [hrequired, hkept] at hmem
      cases hmem
    | cons b rest =>
      -- The last required argument carries no default, so it stands behind the given one.
      have hb : b.hasDefault = false := by
        have hnot := List.head?_dropWhile_not Argument.hasDefault d.arguments.reverse
        rw [hkept] at hnot
        simpa using hnot
      have hrest : a ∈ rest := by
        rw [hrequired, hkept, List.mem_reverse] at hmem
        rcases List.mem_cons.mp hmem with rfl | hmem
        · rw [ha] at hb
          cases hb
        · exact hmem
      obtain ⟨later, earlier, rfl⟩ := List.append_of_mem hrest
      refine ⟨earlier.reverse, a, later.reverse ++ [b] ++ d.arguments.drop d.requiredCount, ?_, ha,
        b, by simp, hb⟩
      have hsplit := List.take_append_drop d.requiredCount d.arguments
      rw [hrequired, hkept] at hsplit
      exact hsplit.symm.trans (by simp)
  · rintro ⟨before, a, after, hsplit, ha, b, hmem, hb⟩
    refine ⟨a, ?_, ha⟩
    have hlt : before.length < d.requiredCount := by
      by_contra hle
      have hdrop : b ∈ d.arguments.drop before.length := by
        rw [hsplit, List.drop_left]
        exact List.mem_cons_of_mem _ hmem
      have hdefault := hasDefault_of_mem_drop (Nat.le_of_not_lt hle) hdrop
      rw [hb] at hdefault
      cases hdefault
    obtain ⟨more, hmore⟩ : ∃ more, d.requiredCount - before.length = more + 1 :=
      ⟨d.requiredCount - before.length - 1, by omega⟩
    rw [hsplit, List.take_append, hmore]
    simp

instance (d : Declaration) : Decidable d.DefaultMisplaced :=
  decidable_of_iff (d.hasMisplacedDefault = true) hasMisplacedDefault_iff

end NativeBindings.Declaration
