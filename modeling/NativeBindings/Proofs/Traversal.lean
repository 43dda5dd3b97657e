import Mathlib.Data.List.Forall2
import Mathlib.Data.List.Perm.Basic

set_option autoImplicit false
set_option relaxedAutoImplicit false

/-!
Lists on whose items an operation is carried out that may fail. A traversal that succeeds did so at
every item, and one that fails stopped at the first item that fails.
-/

namespace NativeBindings.Traversal

variable {ε α β : Type}

theorem map_eq_ok_iff {γ : Type} {x : Except ε α} {f : α → γ} {c : γ} :
    x.map f = .ok c ↔ ∃ a, x = .ok a ∧ f a = c := by
  cases x <;> simp [Except.map]

theorem map_eq_error_iff {γ : Type} {x : Except ε α} {f : α → γ} {e : ε} :
    x.map f = .error e ↔ x = .error e := by
  cases x <;> simp [Except.map]

theorem mapError_eq_error_iff {δ : Type} {x : Except ε α} {f : ε → δ} {d : δ} :
    x.mapError f = .error d ↔ ∃ e, x = .error e ∧ f e = d := by
  cases x <;> simp [Except.mapError]

theorem toOption_eq_some_iff {x : Except ε α} {a : α} : x.toOption = some a ↔ x = .ok a := by
  cases x <;> simp [Except.toOption]

theorem bind_eq_ok_iff {x : Except ε α} {f : α → Except ε β} {b : β} :
    x >>= f = .ok b ↔ ∃ a, x = .ok a ∧ f a = .ok b := by
  cases x <;> simp [bind, Except.bind]

private theorem mapM_cons_of_ok {f : α → Except ε β} {x : α} {y : β} (h : f x = .ok y)
    (xs : List α) : (x :: xs).mapM f = (xs.mapM f).map (y :: ·) := by
  rw [List.mapM_cons, h]
  cases xs.mapM f <;> rfl

private theorem mapM_cons_of_error {f : α → Except ε β} {x : α} {e : ε} (h : f x = .error e)
    (xs : List α) : (x :: xs).mapM f = .error e := by
  rw [List.mapM_cons, h]
  rfl

theorem mapM_eq_ok_iff {f : α → Except ε β} {xs : List α} {ys : List β} :
    xs.mapM f = .ok ys ↔ List.Forall₂ (fun x y => f x = .ok y) xs ys := by
  induction xs generalizing ys with
  | nil => cases ys <;> simp [pure, Except.pure]
  | cons x xs ih =>
    cases hx : f x with
    | error e =>
      rw [mapM_cons_of_error hx]
      cases ys <;> simp [hx]
    | ok y =>
      rw [mapM_cons_of_ok hx, map_eq_ok_iff]
      cases ys with
      | nil => simp
      | cons z zs =>
        simp only [List.forall₂_cons, hx, Except.ok.injEq, List.cons.injEq, ← ih]
        constructor
        · rintro ⟨_, hxs, rfl, rfl⟩
          exact ⟨rfl, hxs⟩
        · rintro ⟨rfl, hxs⟩
          exact ⟨zs, hxs, rfl, rfl⟩

theorem mapM_map_results {γ : Type} (f : α → Except ε β) (g : β → γ) (xs : List α) :
    xs.mapM (fun x => (f x).map g) = (xs.mapM f).map (List.map g) := by
  induction xs with
  | nil => rfl
  | cons x xs ih =>
    cases hx : f x with
    | error e =>
      rw [mapM_cons_of_error hx, mapM_cons_of_error (by rw [hx]; rfl)]
      rfl
    | ok y =>
      rw [mapM_cons_of_ok hx, mapM_cons_of_ok (by rw [hx]; rfl), ih]
      cases xs.mapM f <;> rfl

theorem exists_mapM_eq_ok_iff {f : α → Except ε β} {xs : List α} :
    (∃ ys, xs.mapM f = .ok ys) ↔ ∀ x ∈ xs, ∃ y, f x = .ok y := by
  simp only [mapM_eq_ok_iff]
  induction xs with
  | nil => simp
  | cons x xs ih =>
    simp only [List.forall_mem_cons, ← ih]
    constructor
    · rintro ⟨ys, h⟩
      obtain ⟨y, zs, hy, hzs, -⟩ := List.forall₂_cons_left_iff.mp h
      exact ⟨⟨y, hy⟩, zs, hzs⟩
    · rintro ⟨⟨y, hy⟩, ys, hys⟩
      exact ⟨y :: ys, .cons hy hys⟩

theorem exists_mapM_append {f : α → Except ε β} {xs xs' : List α} {zs : List β}
    (h : (xs ++ xs').mapM f = .ok zs) :
    ∃ ys ys', xs.mapM f = .ok ys ∧ xs'.mapM f = .ok ys' ∧ zs = ys ++ ys' := by
  rw [List.mapM_append, bind_eq_ok_iff] at h
  obtain ⟨ys, hys, h⟩ := h
  obtain ⟨ys', hys', h⟩ := bind_eq_ok_iff.mp h
  exact ⟨ys, ys', hys, hys', (Except.ok.inj h).symm⟩

theorem exists_mapM_of_perm {f : α → Except ε β} {xs xs' : List α} {ys : List β}
    (h : xs.Perm xs') (hxs : xs.mapM f = .ok ys) : ∃ ys', xs'.mapM f = .ok ys' ∧ ys.Perm ys' := by
  obtain ⟨ys', hxs', hys⟩ := List.perm_comp_forall₂ h.symm (mapM_eq_ok_iff.mp hxs)
  exact ⟨ys', mapM_eq_ok_iff.mpr hxs', hys.symm⟩

theorem mapM_append_cons_error {f : α → Except ε β} {before : List α} {x : α} {e : ε}
    (hbefore : ∀ b ∈ before, ∃ y, f b = .ok y) (hx : f x = .error e) (after : List α) :
    (before ++ x :: after).mapM f = .error e := by
  induction before with
  | nil => exact mapM_cons_of_error hx after
  | cons b before ih =>
    obtain ⟨y, hy⟩ := hbefore b List.mem_cons_self
    rw [List.cons_append, mapM_cons_of_ok hy, map_eq_error_iff]
    exact ih fun c hc => hbefore c (List.mem_cons_of_mem _ hc)

theorem forall₂_append_cons_right {R : α → β → Prop} {xs : List α} {before after : List β} {y : β}
    (h : List.Forall₂ R xs (before ++ y :: after)) :
    ∃ before' x after', xs = before' ++ x :: after' ∧ List.Forall₂ R before' before ∧ R x y := by
  have hbefore := List.forall₂_take_append xs before (y :: after) h
  have hrest := List.forall₂_drop_append xs before (y :: after) h
  obtain ⟨x, after', hx, -, hdrop⟩ := List.forall₂_cons_right_iff.mp hrest
  refine ⟨xs.take before.length, x, after', ?_, hbefore, hx⟩
  rw [← hdrop, List.take_append_drop]

theorem exists_of_forall₂_of_mem {R : α → β → Prop} {xs : List α} {ys : List β}
    (h : List.Forall₂ R xs ys) {x : α} (hx : x ∈ xs) : ∃ y ∈ ys, R x y := by
  induction h with
  | nil => cases hx
  | @cons u v xs ys huv _ ih =>
    rcases List.mem_cons.mp hx with rfl | hx
    · exact ⟨v, List.mem_cons_self, huv⟩
    · obtain ⟨y, hy, hxy⟩ := ih hx
      exact ⟨y, List.mem_cons_of_mem _ hy, hxy⟩

theorem map_eq_of_forall₂ {γ : Type} {R : α → β → Prop} {f : α → γ} {g : β → γ} {xs : List α}
    {ys : List β} (h : List.Forall₂ R xs ys) (hR : ∀ x y, R x y → f x = g y) :
    xs.map f = ys.map g := by
  induction h with
  | nil => rfl
  | cons hxy _ ih => rw [List.map_cons, List.map_cons, hR _ _ hxy, ih]

end NativeBindings.Traversal
