import NativeBindings.TypeTable

set_option autoImplicit false
set_option relaxedAutoImplicit false

/-!
When a table has an entry for a type, and what looking it up gives.
-/

namespace NativeBindings.TypeTable

variable {t : TypeTable} {type : NativeType} {function : String}

/-- The table has an entry for the type, or for what it points to if it is an explicit pointer. -/
def Maps (t : TypeTable) (type : NativeType) : Prop :=
  ∃ e ∈ t.entries, e.native = type.pointee.spelling

instance (t : TypeTable) (type : NativeType) : Decidable (t.Maps type) :=
  inferInstanceAs (Decidable (∃ e ∈ t.entries, _))

private theorem lastIndex?_reverse_find? {α : Type} (p : α → Bool) (xs : List α) :
    (lastIndex? p xs = none ∧ xs.reverse.find? p = none) ∨
      ∃ i x, lastIndex? p xs = some i ∧ xs[i]? = some x ∧ xs.reverse.find? p = some x := by
  induction xs with
  | nil => exact .inl ⟨rfl, rfl⟩
  | cons x rest ih =>
    rw [List.reverse_cons, List.find?_append, lastIndex?]
    rcases ih with ⟨hindex, hfind⟩ | ⟨i, y, hindex, hget, hfind⟩
    · cases h : p x with
      | false => exact .inl (by simp [hindex, hfind, h])
      | true => exact .inr ⟨0, x, by simp [hindex], rfl, by simp [hfind, h]⟩
    · exact .inr ⟨i + 1, y, by simp [hindex], hget, by simp [hfind]⟩

/-- Looking a type up gives the entry at its position, the last one that bears its name. -/
theorem lookup?_eq_position?_bind (native : String) :
    t.lookup? native = (t.position? native).bind (t.entries[·]?) := by
  rcases lastIndex?_reverse_find? (fun e : TypeEntry => e.native = native) t.entries with
    ⟨hindex, hfind⟩ | ⟨i, e, hindex, hget, hfind⟩
  · rw [lookup?, position?, hindex, hfind, Option.bind_none]
  · rw [lookup?, position?, hindex, hfind, Option.bind_some, hget]
theorem of_lookup?_eq_some {native : String} {e : TypeEntry} (h : t.lookup? native = some e) :
    e ∈ t.entries ∧ e.native = native := by
  have hmem := List.mem_of_find?_eq_some h
  have hnative := List.find?_some h
  exact ⟨List.mem_reverse.mp hmem, by simpa using hnative⟩

theorem lookup?_eq_none_iff : t.lookup? type.pointee.spelling = none ↔ ¬ t.Maps type := by
  simp [lookup?, Maps]

theorem resolve_eq_ok_iff {e : TypeEntry} :
    t.resolve type function = .ok e ↔ t.lookup? type.pointee.spelling = some e := by
  unfold resolve
  split <;> simp_all

theorem of_resolve_eq_ok {e : TypeEntry} (h : t.resolve type function = .ok e) :
    e ∈ t.entries ∧ e.native = type.pointee.spelling :=
  of_lookup?_eq_some (resolve_eq_ok_iff.mp h)

theorem resolve_of_not_maps (h : ¬ t.Maps type) (function : String) :
    t.resolve type function = .error ⟨type.pointee.spelling, function⟩ := by
  unfold resolve
  rw [lookup?_eq_none_iff.mpr h]

theorem exists_resolve_iff (function : String) :
    (∃ e, t.resolve type function = .ok e) ↔ t.Maps type := by
  constructor
  · rintro ⟨e, he⟩
    obtain ⟨hmem, hnative⟩ := of_resolve_eq_ok he
    exact ⟨e, hmem, hnative⟩
  · intro h
    cases hl : t.lookup? type.pointee.spelling with
    | none => exact absurd h (lookup?_eq_none_iff.mp hl)
    | some e => exact ⟨e, resolve_eq_ok_iff.mpr hl⟩

end NativeBindings.TypeTable
