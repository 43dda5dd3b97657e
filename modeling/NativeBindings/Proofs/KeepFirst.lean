import Mathlib.Data.List.Nodup
import Mathlib.Data.List.Perm.Basic
import NativeBindings.KeepFirst

set_option autoImplicit false
set_option relaxedAutoImplicit false

/-!
Which items of a list are kept where a key repeats: exactly one for every key, the first of its key,
in the order of the first occurrences. Which keys are kept, and how many items are left out, does
not depend on the order of the list.
-/

namespace NativeBindings

variable {α β : Type} [DecidableEq β] {key : α → β}

private theorem keepFirstFrom_map (seen : List β) (items : List α) :
    (keepFirstFrom key seen items).map key =
      ((items.map key).filter fun k => decide (k ∉ seen)).eraseDups := by
  induction items generalizing seen with
  | nil => rfl
  | cons x rest ih =>
    by_cases hx : key x ∈ seen
    · simp [keepFirstFrom, hx, ih]
    · simp only [keepFirstFrom, hx, if_false, List.map_cons, ih, decide_not, List.filter_cons,
        decide_false, Bool.not_false, if_true, List.eraseDups_cons, List.filter_filter]
      congr 2
      refine List.filter_congr fun k _ => ?_
      by_cases hk : k = key x <;> simp [hk]

theorem keepFirst_map (items : List α) :
    (keepFirst key items).map key = (items.map key).eraseDups := by
  rw [keepFirst, keepFirstFrom_map]
  simp

private theorem of_mem_keepFirstFrom {seen : List β} {items : List α} {x : α}
    (h : x ∈ keepFirstFrom key seen items) :
    key x ∉ seen ∧ ∃ before after, items = before ++ x :: after ∧ ∀ b ∈ before, key b ≠ key x := by
  induction items generalizing seen with
  | nil => cases h
  | cons y rest ih =>
    unfold keepFirstFrom at h
    split at h
    · rename_i hy
      obtain ⟨hx, before, after, rfl, hbefore⟩ := ih h
      refine ⟨hx, y :: before, after, rfl, List.forall_mem_cons.mpr ⟨?_, hbefore⟩⟩
      exact fun heq => hx (heq ▸ hy)
    · rename_i hy
      rcases List.mem_cons.mp h with rfl | h
      · exact ⟨hy, [], rest, rfl, by simp⟩
      · obtain ⟨hx, before, after, rfl, hbefore⟩ := ih h
        obtain ⟨hxy, hseen⟩ := not_or.mp (mt List.mem_cons.mpr hx)
        exact ⟨hseen, y :: before, after, rfl,
          List.forall_mem_cons.mpr ⟨fun heq => hxy heq.symm, hbefore⟩⟩

theorem of_mem_keepFirst {items : List α} {x : α} (h : x ∈ keepFirst key items) :
    ∃ before after, items = before ++ x :: after ∧ ∀ b ∈ before, key b ≠ key x :=
  (of_mem_keepFirstFrom h).2

theorem mem_of_mem_keepFirst {items : List α} {x : α} (h : x ∈ keepFirst key items) :
    x ∈ items := by
  obtain ⟨before, after, rfl, -⟩ := of_mem_keepFirst h
  simp

private theorem nodup_keepFirstFrom (seen : List β) (items : List α) :
    ((keepFirstFrom key seen items).map key).Nodup := by
  induction items generalizing seen with
  | nil => exact List.nodup_nil
  | cons x rest ih =>
    unfold keepFirstFrom
    split
    · exact ih seen
    · rw [List.map_cons, List.nodup_cons]
      refine ⟨fun hmem => ?_, ih _⟩
      obtain ⟨y, hy, heq⟩ := List.mem_map.mp hmem
      exact (of_mem_keepFirstFrom hy).1 (by simp [heq])

theorem nodup_keepFirst (items : List α) : ((keepFirst key items).map key).Nodup :=
  nodup_keepFirstFrom [] items

theorem mem_keepFirst_map_iff {items : List α} {k : β} :
    k ∈ (keepFirst key items).map key ↔ k ∈ items.map key := by
  rw [keepFirst_map, List.mem_eraseDups]

theorem exists_mem_keepFirst {items : List α} {x : α} (h : key x ∈ items.map key) :
    ∃ y ∈ keepFirst key items, key y = key x :=
  List.mem_map.mp (mem_keepFirst_map_iff.mpr h)

private theorem keepFirstFrom_congr {seen seen' : List β} (h : ∀ k, k ∈ seen ↔ k ∈ seen')
    (items : List α) : keepFirstFrom key seen items = keepFirstFrom key seen' items := by
  induction items generalizing seen seen' with
  | nil => rfl
  | cons x rest ih =>
    have hcons : ∀ k, k ∈ key x :: seen ↔ k ∈ key x :: seen' := by simp [h]
    simp only [keepFirstFrom, h, ih h, ih hcons]

-- The seen keys grow at their front, so the lists below agree as sets only.
private theorem keepFirstFrom_append_seen (seen seen' : List β) (items : List α) :
    keepFirstFrom key (seen ++ seen') items =
      (keepFirstFrom key seen' items).filter fun x => decide (key x ∉ seen) := by
  induction items generalizing seen' with
  | nil => rfl
  | cons x rest ih =>
    by_cases hx : key x ∈ seen'
    · simp [keepFirstFrom, hx, ih]
    · have hcons : ∀ k, k ∈ key x :: (seen ++ seen') ↔ k ∈ seen ++ key x :: seen' := by
        simp only [List.mem_cons, List.mem_append]
        tauto
      by_cases hs : key x ∈ seen
      · have hsame : ∀ k, k ∈ seen ++ seen' ↔ k ∈ seen ++ key x :: seen' := by
          intro k
          rw [← hcons k, List.mem_cons]
          refine ⟨.inr, fun hk => ?_⟩
          rcases hk with rfl | hk
          · exact List.mem_append_left _ hs
          · exact hk
        simp [keepFirstFrom, hx, hs, keepFirstFrom_congr hsame, ih]
      · simp [keepFirstFrom, hx, hs, keepFirstFrom_congr hcons, ih]

private theorem keepFirstFrom_append (seen : List β) (us vs : List α) :
    keepFirstFrom key seen (us ++ vs) =
      keepFirstFrom key seen us ++ keepFirstFrom key (us.map key ++ seen) vs := by
  induction us generalizing seen with
  | nil => rfl
  | cons u us ih =>
    by_cases hu : key u ∈ seen
    · have hsame : ∀ k, k ∈ us.map key ++ seen ↔ k ∈ (u :: us).map key ++ seen := by
        intro k
        rw [List.map_cons, List.cons_append, List.mem_cons]
        refine ⟨.inr, fun hk => ?_⟩
        rcases hk with rfl | hk
        · exact List.mem_append_right _ hu
        · exact hk
      simp only [List.cons_append, keepFirstFrom, hu, if_true, ih, keepFirstFrom_congr hsame]
    · have hcons : ∀ k, k ∈ us.map key ++ key u :: seen ↔ k ∈ (u :: us).map key ++ seen := by
        simp only [List.map_cons, List.mem_append, List.mem_cons]
        tauto
      simp only [List.cons_append, keepFirstFrom, hu, if_false, ih, keepFirstFrom_congr hcons]

theorem keepFirst_append (us vs : List α) :
    keepFirst key (us ++ vs) =
      keepFirst key us ++ (keepFirst key vs).filter fun x => decide (key x ∉ us.map key) := by
  rw [keepFirst, keepFirstFrom_append, keepFirstFrom_append_seen]
  rfl

theorem exists_keepFirst_append_cons {before : List α} {x : α}
    (h : ∀ b ∈ before, key b ≠ key x) (after : List α) :
    ∃ rest, keepFirst key (before ++ x :: after) = keepFirst key before ++ x :: rest := by
  have hnew : key x ∉ before.map key := by simpa using h
  refine ⟨(keepFirstFrom key [key x] after).filter fun y => decide (key y ∉ before.map key), ?_⟩
  rw [keepFirst_append]
  simp only [keepFirst, keepFirstFrom, List.not_mem_nil, if_false, List.filter_cons, hnew,
    not_false_eq_true, decide_true, if_true]

theorem keepFirst_append_cons_of_mem {before : List α} {x : α} (h : key x ∈ before.map key)
    (after : List α) : keepFirst key (before ++ x :: after) = keepFirst key (before ++ after) := by
  have hafter : keepFirstFrom key [key x] after =
      (keepFirst key after).filter fun y => decide (key y ∉ [key x]) :=
    keepFirstFrom_append_seen [key x] [] after
  rw [keepFirst_append, keepFirst_append]
  simp only [keepFirst, keepFirstFrom, List.not_mem_nil, if_false, List.filter_cons, h,
    not_true_eq_false, decide_false, Bool.false_eq_true, hafter, List.filter_filter]
  congr 1
  refine List.filter_congr fun y _ => ?_
  by_cases hy : key y = key x
  · simp [hy, h]
  · simp [hy]

theorem keepFirst_append_of_mem {before extra : List α} (h : ∀ x ∈ extra, key x ∈ before.map key)
    (after : List α) :
    keepFirst key (before ++ (extra ++ after)) = keepFirst key (before ++ after) := by
  induction extra with
  | nil => rfl
  | cons x extra ih =>
    obtain ⟨hx, hrest⟩ := List.forall_mem_cons.mp h
    rw [List.cons_append, keepFirst_append_cons_of_mem hx, ih hrest]

/-- The second list is the first one with copies put right before some of its items. -/
inductive Stutters : List α → List α → Prop where
  | nil : Stutters [] []
  | one (x : α) {xs ys : List α} (rest : Stutters xs ys) : Stutters (x :: xs) (x :: ys)
  | extra {x : α} {xs ys : List α} (rest : Stutters (x :: xs) ys) : Stutters (x :: xs) (x :: ys)

namespace Stutters

variable {xs ys : List α}

theorem refl (xs : List α) : Stutters xs xs := by
  induction xs with
  | nil => exact .nil
  | cons x xs ih => exact .one x ih

private theorem eq_cons {x : α} (h : Stutters (x :: xs) ys) : ∃ zs, ys = x :: zs := by
  cases h with
  | one _ _ => exact ⟨_, rfl⟩
  | extra _ => exact ⟨_, rfl⟩

theorem keepFirst_eq (h : Stutters xs ys) (before after : List α) :
    keepFirst key (before ++ (ys ++ after)) = keepFirst key (before ++ (xs ++ after)) := by
  induction h generalizing before with
  | nil => rfl
  | one x _ ih => simpa using ih (before ++ [x])
  | @extra x xs ys rest ih =>
    obtain ⟨zs, rfl⟩ := rest.eq_cons
    rw [← ih before]
    have hseen : key x ∈ (before ++ [x]).map key := by simp
    simpa using keepFirst_append_cons_of_mem hseen (zs ++ after)

end Stutters

section Items

variable {γ : Type}

private theorem keepFirstFrom_map_items (f : γ → α) (seen : List β) (items : List γ) :
    keepFirstFrom key seen (items.map f) = (keepFirstFrom (key ∘ f) seen items).map f := by
  induction items generalizing seen with
  | nil => rfl
  | cons x rest ih =>
    by_cases hx : key (f x) ∈ seen
    · simp [keepFirstFrom, hx, ih]
    · simp [keepFirstFrom, hx, ih]

private theorem repeatedFrom_map_items (f : γ → α) (seen : List β) (items : List γ) :
    repeatedFrom key seen (items.map f) = (repeatedFrom (key ∘ f) seen items).map f := by
  induction items generalizing seen with
  | nil => rfl
  | cons x rest ih =>
    by_cases hx : key (f x) ∈ seen
    · simp [repeatedFrom, hx, ih]
    · simp [repeatedFrom, hx, ih]

theorem keepFirst_map_items (f : γ → α) (items : List γ) :
    keepFirst key (items.map f) = (keepFirst (key ∘ f) items).map f :=
  keepFirstFrom_map_items f [] items

theorem repeated_map_items (f : γ → α) (items : List γ) :
    repeated key (items.map f) = (repeated (key ∘ f) items).map f :=
  repeatedFrom_map_items f [] items

end Items

private theorem length_keepFirstFrom_add (seen : List β) (items : List α) :
    (keepFirstFrom key seen items).length + (repeatedFrom key seen items).length =
      items.length := by
  induction items generalizing seen with
  | nil => rfl
  | cons x rest ih =>
    by_cases hx : key x ∈ seen
    · simp [keepFirstFrom, repeatedFrom, hx, ← ih seen]
      omega
    · simp [keepFirstFrom, repeatedFrom, hx, ← ih (key x :: seen)]
      omega

theorem length_keepFirst_add (items : List α) :
    (keepFirst key items).length + (repeated key items).length = items.length :=
  length_keepFirstFrom_add [] items

private theorem keepFirstFrom_of_nodup {seen : List β} {items : List α}
    (hseen : ∀ x ∈ items, key x ∉ seen) (h : (items.map key).Nodup) :
    keepFirstFrom key seen items = items := by
  induction items generalizing seen with
  | nil => rfl
  | cons x rest ih =>
    obtain ⟨hx, hrest⟩ := List.nodup_cons.mp h
    have hseen' : ∀ y ∈ rest, key y ∉ key x :: seen := by
      intro y hy hmem
      rcases List.mem_cons.mp hmem with heq | hmem
      · exact hx (heq ▸ List.mem_map_of_mem hy)
      · exact hseen y (List.mem_cons_of_mem _ hy) hmem
    rw [keepFirstFrom, if_neg (hseen x List.mem_cons_self), ih hseen' hrest]

theorem keepFirst_of_nodup {items : List α} (h : (items.map key).Nodup) :
    keepFirst key items = items :=
  keepFirstFrom_of_nodup (fun _ _ => List.not_mem_nil) h

theorem repeated_of_nodup {items : List α} (h : (items.map key).Nodup) :
    repeated key items = [] := by
  have hsplit : (keepFirst key items).length + (repeated key items).length = items.length :=
    length_keepFirst_add items
  rw [keepFirst_of_nodup h] at hsplit
  exact List.eq_nil_of_length_eq_zero (by omega)

section Order

variable {items items' : List α}

theorem perm_map_keepFirst (h : items.Perm items') :
    ((keepFirst key items).map key).Perm ((keepFirst key items').map key) := by
  refine (List.perm_ext_iff_of_nodup (nodup_keepFirst items) (nodup_keepFirst items')).mpr ?_
  intro k
  rw [mem_keepFirst_map_iff, mem_keepFirst_map_iff]
  exact (h.map key).mem_iff

private theorem length_keepFirst_eq_of_perm (h : items.Perm items') :
    (keepFirst key items).length = (keepFirst key items').length := by
  have hkeys : ((keepFirst key items).map key).Perm ((keepFirst key items').map key) :=
    perm_map_keepFirst h
  simpa using hkeys.length_eq

theorem length_repeated_eq_of_perm (h : items.Perm items') :
    (repeated key items).length = (repeated key items').length := by
  have hkept : (keepFirst key items).length = (keepFirst key items').length :=
    length_keepFirst_eq_of_perm h
  have hsplit : (keepFirst key items).length + (repeated key items).length = items.length :=
    length_keepFirst_add items
  have hsplit' : (keepFirst key items').length + (repeated key items').length = items'.length :=
    length_keepFirst_add items'
  have hall : items.length = items'.length := h.length_eq
  omega

theorem mem_keepFirst_iff (hkey : ∀ x ∈ items, ∀ y ∈ items, key x = key y → x = y) {x : α} :
    x ∈ keepFirst key items ↔ x ∈ items := by
  constructor
  · exact mem_of_mem_keepFirst
  · intro hx
    have hmem : key x ∈ items.map key := List.mem_map.mpr ⟨x, hx, rfl⟩
    obtain ⟨y, hy, heq⟩ := exists_mem_keepFirst hmem
    rwa [← hkey y (mem_of_mem_keepFirst hy) x hx heq]

theorem perm_keepFirst (h : items.Perm items')
    (hkey : ∀ x ∈ items, ∀ y ∈ items, key x = key y → x = y) :
    (keepFirst key items).Perm (keepFirst key items') := by
  have hkey' : ∀ x ∈ items', ∀ y ∈ items', key x = key y → x = y :=
    fun x hx y hy => hkey x (h.mem_iff.mpr hx) y (h.mem_iff.mpr hy)
  have hnodup : (keepFirst key items).Nodup := List.Nodup.of_map key (nodup_keepFirst items)
  have hnodup' : (keepFirst key items').Nodup := List.Nodup.of_map key (nodup_keepFirst items')
  refine (List.perm_ext_iff_of_nodup hnodup hnodup').mpr fun x => ?_
  rw [mem_keepFirst_iff hkey, mem_keepFirst_iff hkey']
  exact h.mem_iff

end Order

end NativeBindings
