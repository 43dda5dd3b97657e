import Mathlib.Data.List.Basic
import NativeBindings.Text.Split

set_option autoImplicit false
set_option relaxedAutoImplicit false

/-!
Lists of texts joined by commas, where the texts themselves may have commas between angle brackets.
Main statement: such texts can be told apart again from where they were joined.
-/

namespace NativeBindings.Text

theorem append_cons_inj {α : Type} {a : α} {xs ys us vs : List α} (hx : a ∉ xs) (hy : a ∉ ys)
    (h : xs ++ a :: us = ys ++ a :: vs) : xs = ys ∧ us = vs := by
  induction xs generalizing ys with
  | nil =>
    cases ys with
    | nil => exact ⟨rfl, by simpa using h⟩
    | cons y ys =>
      have he : a = y := (List.cons.inj h).1
      exact absurd (he ▸ List.mem_cons_self) hy
  | cons x xs ih =>
    cases ys with
    | nil =>
      have he : x = a := (List.cons.inj h).1
      exact absurd (he ▸ List.mem_cons_self) hx
    | cons y ys =>
      obtain ⟨he, ht⟩ := List.cons.inj h
      obtain ⟨hxy, huv⟩ := ih (fun hm => hx (List.mem_cons_of_mem _ hm))
        (fun hm => hy (List.mem_cons_of_mem _ hm)) ht
      exact ⟨by rw [he, hxy], huv⟩

theorem append_cons_inj_last {α : Type} {a : α} {xs ys us vs : List α} (hu : a ∉ us)
    (hv : a ∉ vs) (h : xs ++ a :: us = ys ++ a :: vs) : xs = ys ∧ us = vs := by
  have hr : us.reverse ++ a :: xs.reverse = vs.reverse ++ a :: ys.reverse := by
    simpa using congrArg List.reverse h
  obtain ⟨huv, hxy⟩ := append_cons_inj (by simpa using hu) (by simpa using hv) hr
  exact ⟨List.reverse_injective hxy, List.reverse_injective huv⟩

/-- How many angle brackets are open after a character. A bracket must not close what was not
opened, and a comma must not stand outside of all brackets. -/
def nest (depth : Nat) (c : Char) : Option Nat :=
  if c = '<' then some (depth + 1)
  else if c = '>' then if depth = 0 then none else some (depth - 1)
  else if c = ',' then if depth = 0 then none else some depth
  else some depth

/-- Angle brackets are paired in the text, and commas stand between them only. -/
def Enclosed (cs : List Char) : Prop := cs.foldlM nest 0 = some 0

instance (cs : List Char) : Decidable (Enclosed cs) :=
  inferInstanceAs (Decidable (cs.foldlM nest 0 = some 0))

private theorem nest_add {m n : Nat} {c : Char} (h : nest m c = some n) (k : Nat) :
    nest (m + k) c = some (n + k) := by
  unfold nest at h ⊢
  split_ifs at h ⊢ <;> simp_all <;> omega

private theorem foldlM_nest_add {cs : List Char} {m n : Nat} (h : cs.foldlM nest m = some n)
    (k : Nat) : cs.foldlM nest (m + k) = some (n + k) := by
  induction cs generalizing m with
  | nil => simpa using h
  | cons c cs ih =>
    obtain ⟨l, hl, hcs⟩ := Option.bind_eq_some_iff.mp (by simpa using h)
    have hstep := nest_add hl k
    simpa [hstep] using ih hcs

theorem Enclosed.append {us vs : List Char} (hu : Enclosed us) (hv : Enclosed vs) :
    Enclosed (us ++ vs) := by
  unfold Enclosed at hu hv ⊢
  simp [List.foldlM_append, hu, hv]

theorem Enclosed.of_plain {cs : List Char} (h : ∀ c ∈ cs, c ≠ '<' ∧ c ≠ '>' ∧ c ≠ ',') :
    Enclosed cs := by
  induction cs with
  | nil => rfl
  | cons c cs ih =>
    obtain ⟨hl, hg, hc⟩ := h c List.mem_cons_self
    have ht := ih fun d hd => h d (List.mem_cons_of_mem _ hd)
    unfold Enclosed at ht ⊢
    simpa [nest, hl, hg, hc] using ht

theorem joinWith_cons (separator : Char) (part : List Char) (parts : List (List Char)) :
    joinWith separator (part :: parts) = part ++ parts.flatMap (separator :: ·) := by
  induction parts generalizing part with
  | nil => simp [joinWith]
  | cons next rest ih => simp [joinWith, ih]

theorem mem_joinWith {separator c : Char} {parts : List (List Char)}
    (h : c ∈ joinWith separator parts) : c = separator ∨ ∃ part ∈ parts, c ∈ part := by
  cases parts with
  | nil => cases h
  | cons part parts =>
    rw [joinWith_cons] at h
    rcases List.mem_append.mp h with h | h
    · exact .inr ⟨part, List.mem_cons_self, h⟩
    · obtain ⟨next, hnext, hc⟩ := List.mem_flatMap.mp h
      rcases List.mem_cons.mp hc with hc | hc
      · exact .inl hc
      · exact .inr ⟨next, List.mem_cons_of_mem _ hnext, hc⟩

private theorem foldlM_nest_joined {parts : List (List Char)} (h : ∀ p ∈ parts, Enclosed p) :
    (joinWith ',' parts).foldlM nest 1 = some 1 := by
  cases parts with
  | nil => rfl
  | cons part parts =>
    have hpart : part.foldlM nest 1 = some 1 := foldlM_nest_add (h part List.mem_cons_self) 1
    have hrest : (parts.flatMap (',' :: ·)).foldlM nest 1 = some 1 := by
      induction parts with
      | nil => rfl
      | cons next rest ih =>
        have hnext : next.foldlM nest 1 = some 1 := foldlM_nest_add (h next (by simp)) 1
        have htail := ih fun p hp => h p (by
          simp only [List.mem_cons] at hp ⊢
          tauto)
        simpa [nest, List.foldlM_append, hnext] using htail
    simp [joinWith_cons, List.foldlM_append, hpart, hrest]

theorem Enclosed.template {head : List Char} {parts : List (List Char)} (hhead : Enclosed head)
    (h : ∀ p ∈ parts, Enclosed p) : Enclosed (head ++ '<' :: joinWith ',' parts ++ ['>']) := by
  have hparts := foldlM_nest_joined h
  unfold Enclosed at hhead ⊢
  simp [List.foldlM_append, nest, hhead, hparts]

private def Follows (cs : List Char) : Prop := cs = [] ∨ ∃ rest, cs = ',' :: rest

private theorem follows_flatMap (parts : List (List Char)) :
    Follows (parts.flatMap (',' :: ·)) := by
  cases parts with
  | nil => exact Or.inl rfl
  | cons part parts => exact Or.inr ⟨_, rfl⟩

private theorem not_enclosed_append {us vs : List Char} (hu : Enclosed us) (hv : vs ≠ [])
    (hf : ∃ rest, Follows (vs ++ rest)) : ¬ Enclosed (us ++ vs) := by
  obtain ⟨rest, hrest⟩ := hf
  cases vs with
  | nil => exact absurd rfl hv
  | cons v vs =>
    rcases hrest with hnil | ⟨more, hmore⟩
    · simp at hnil
    · have he : v = ',' := (List.cons.inj hmore).1
      unfold Enclosed at hu ⊢
      simp [List.foldlM_append, hu, he, nest]

/-- Of two enclosed texts neither goes on where the other is followed by a comma or by nothing. -/
private theorem Enclosed.append_inj {us vs rs ss : List Char} (hu : Enclosed us)
    (hv : Enclosed vs) (hr : Follows rs) (hs : Follows ss) (h : us ++ rs = vs ++ ss) :
    us = vs ∧ rs = ss := by
  rcases List.append_eq_append_iff.mp h with ⟨as, rfl, rfl⟩ | ⟨as, rfl, rfl⟩
  · by_cases ha : as = []
    · simp [ha]
    · exact absurd hv (not_enclosed_append hu ha ⟨ss, hr⟩)
  · by_cases ha : as = []
    · simp [ha]
    · exact absurd hu (not_enclosed_append hv ha ⟨rs, hs⟩)

private theorem flatMap_comma_inj {us vs : List (List Char)} (hu : ∀ u ∈ us, Enclosed u)
    (hv : ∀ v ∈ vs, Enclosed v) (h : us.flatMap (',' :: ·) = vs.flatMap (',' :: ·)) :
    us = vs := by
  induction us generalizing vs with
  | nil =>
    cases vs with
    | nil => rfl
    | cons v vs => simp at h
  | cons u us ih =>
    cases vs with
    | nil => simp at h
    | cons v vs =>
      have hcons : u ++ us.flatMap (',' :: ·) = v ++ vs.flatMap (',' :: ·) := by
        simpa using h
      obtain ⟨huv, hrest⟩ := (hu u List.mem_cons_self).append_inj (hv v List.mem_cons_self)
        (follows_flatMap us) (follows_flatMap vs) hcons
      rw [huv, ih (fun w hw => hu w (List.mem_cons_of_mem _ hw))
        (fun w hw => hv w (List.mem_cons_of_mem _ hw)) hrest]

theorem joinWith_comma_inj {us vs : List (List Char)} (hu : ∀ u ∈ us, Enclosed u ∧ u ≠ [])
    (hv : ∀ v ∈ vs, Enclosed v ∧ v ≠ []) (h : joinWith ',' us = joinWith ',' vs) : us = vs := by
  cases us with
  | nil =>
    cases vs with
    | nil => rfl
    | cons v vs =>
      rw [joinWith_cons] at h
      have hempty : v = [] := (List.append_eq_nil_iff.mp h.symm).1
      exact absurd hempty (hv v List.mem_cons_self).2
  | cons u us =>
    cases vs with
    | nil =>
      rw [joinWith_cons] at h
      have hempty : u = [] := (List.append_eq_nil_iff.mp h).1
      exact absurd hempty (hu u List.mem_cons_self).2
    | cons v vs =>
      rw [joinWith_cons, joinWith_cons] at h
      obtain ⟨huv, hrest⟩ := (hu u List.mem_cons_self).1.append_inj (hv v List.mem_cons_self).1
        (follows_flatMap us) (follows_flatMap vs) h
      rw [huv, flatMap_comma_inj (fun w hw => (hu w (List.mem_cons_of_mem _ hw)).1)
        (fun w hw => (hv w (List.mem_cons_of_mem _ hw)).1) hrest]

end NativeBindings.Text
