import NativeBindings.Proofs.TypeExpr.Undecorated
import NativeBindings.Proofs.TypeTable.Support

set_option autoImplicit false
set_option relaxedAutoImplicit false

/-!
References have no part in what a written type stands for, unless an unknown template keeps their
text. Main statement: two written types with the same value stand for the same type, or the standard
table has an entry for neither.
-/

namespace NativeBindings.NativeType

mutual

/-- No type inside is unknown. -/
def Known : NativeType → Prop
  | .primitive _ => True
  | .handle _ => True
  | .boolArray _ => True
  | .tuple items => AllKnown items
  | .ptr t => t.Known
  | .unknown _ => False

def AllKnown : List NativeType → Prop
  | [] => True
  | t :: rest => t.Known ∧ AllKnown rest

end

private theorem allKnown_iff {ts : List NativeType} : AllKnown ts ↔ ∀ t ∈ ts, t.Known := by
  induction ts with
  | nil => simp [AllKnown]
  | cons t ts ih => simp [AllKnown, ih]

theorem Supported.known {t : NativeType} (h : t.Supported) : t.Known := by
  cases h with
  | primitive p => trivial
  | handle k => trivial
  | mask hlow hhigh => trivial
  | tensors hlow hhigh =>
    refine allKnown_iff.mpr fun t ht => ?_
    rw [List.eq_of_mem_replicate ht]
    trivial
  | tensorsAndList => simp [Known, AllKnown]
  | tensorsAndNumbers => simp [Known, AllKnown]

private theorem known_pointee {t : NativeType} : t.pointee.Known ↔ t.Known := by
  cases t <;> rfl

def SameKnown (t u : NativeType) : Prop := t = u ∨ ¬ t.Known ∧ ¬ u.Known

theorem SameKnown.refl (t : NativeType) : SameKnown t t := .inl rfl

theorem SameKnown.symm {t u : NativeType} (h : SameKnown t u) : SameKnown u t :=
  h.imp Eq.symm And.symm

theorem SameKnown.trans {t u v : NativeType} (htu : SameKnown t u) (huv : SameKnown u v) :
    SameKnown t v := by
  rcases htu with rfl | ⟨ht, hu⟩
  · exact huv
  · rcases huv with rfl | ⟨-, hv⟩
    · exact .inr ⟨ht, hu⟩
    · exact .inr ⟨ht, hv⟩

namespace Argument

def Known : Argument → Prop
  | .type t => t.Known
  | .number _ => True

private theorem known_of_types? {args : List Argument} {ts : List NativeType}
    (h : types? args = some ts) (hts : AllKnown ts) : ∀ a ∈ args, a.Known := by
  fun_induction types? args generalizing ts with
  | case1 => simp
  | case2 t rest ih =>
    obtain ⟨us, hus, rfl⟩ := Option.map_eq_some_iff.mp h
    rw [List.forall_mem_cons]
    exact ⟨hts.1, ih hus hts.2⟩
  | case3 => cases h

end Argument

private theorem known_of_arrayOf? {t u : NativeType} {n : Nat} (h : arrayOf? t n = some u) :
    t.Known := by
  unfold arrayOf? at h
  split at h
  · trivial
  · cases h

private theorem known_of_vectorOf? {t u : NativeType} (h : vectorOf? t = some u) : t.Known := by
  unfold vectorOf? at h
  split at h
  · trivial
  · trivial
  · cases h

private theorem known_of_ofTemplate? {head : String} {args : List Argument} {t : NativeType}
    (h : ofTemplate? head args = some t) (ht : t.Known) : ∀ a ∈ args, a.Known := by
  unfold ofTemplate? at h
  split at h
  · split at h
    · simpa [Argument.Known] using known_of_arrayOf? h
    · cases h
  · split at h
    · split at h
      · simpa [Argument.Known] using known_of_vectorOf? h
      · cases h
    · split at h
      · obtain ⟨items, hitems, rfl⟩ := Option.map_eq_some_iff.mp h
        exact Argument.known_of_types? hitems ht
      · cases h

private theorem known_app {head : String} {args : List TypeArg}
    (h : (ofExpr (.app head args)).Known) : ∀ a ∈ Argument.ofArgs args, a.Known := by
  rw [ofExpr] at h
  cases htemplate : ofTemplate? head (Argument.ofArgs args) with
  | none => simp [htemplate, Known] at h
  | some t =>
    rw [htemplate] at h
    exact known_of_ofTemplate? htemplate h

private theorem sameKnown_app {head : String} {as bs : List TypeArg}
    (h : Argument.ofArgs as = Argument.ofArgs bs) :
    SameKnown (ofExpr (.app head as)) (ofExpr (.app head bs)) := by
  rw [ofExpr, ofExpr, h]
  cases ofTemplate? head (Argument.ofArgs bs) with
  | none => exact .inr ⟨id, id⟩
  | some t => exact .refl t

mutual

private theorem sameKnown_value : ∀ t : TypeExpr, SameKnown (ofExpr t.value) (ofExpr t)
  | .name _ => .refl _
  | .ref t => sameKnown_value t
  | .ptr t => (sameKnown_value t).imp (congrArg NativeType.ptr) id
  | .app n args => by
    rcases ofArgs_listValue args with hsame | ⟨hvalue, hargs⟩
    · exact sameKnown_app hsame
    · exact .inr ⟨fun h => hvalue (known_app h), fun h => hargs (known_app h)⟩

private theorem ofArg_value : ∀ a : TypeArg, Argument.ofArg a.value = Argument.ofArg a ∨
    ¬ (Argument.ofArg a.value).Known ∧ ¬ (Argument.ofArg a).Known
  | .type t => (sameKnown_value t).imp (congrArg Argument.type) id
  | .number _ => .inl rfl

/-- Without references the arguments are the same, or something in them is unknown either way. -/
theorem ofArgs_listValue : ∀ args : List TypeArg,
    Argument.ofArgs (TypeArg.listValue args) = Argument.ofArgs args ∨
      ¬ (∀ a ∈ Argument.ofArgs (TypeArg.listValue args), a.Known) ∧
        ¬ ∀ a ∈ Argument.ofArgs args, a.Known
  | [] => .inl rfl
  | a :: rest => by
    simp only [TypeArg.listValue, Argument.ofArgs, List.forall_mem_cons]
    rcases ofArg_value a with ha | ⟨hvalue, ha⟩
    · rcases ofArgs_listValue rest with hrest | ⟨hvalues, hrest⟩
      · exact .inl (congrArg₂ List.cons ha hrest)
      · exact .inr ⟨fun h => hvalues h.2, fun h => hrest h.2⟩
    · exact .inr ⟨fun h => hvalue h.1, fun h => ha h.1⟩

end

private theorem sameKnown_of_value_eq {t u : TypeExpr} (h : t.value = u.value) :
    SameKnown (ofExpr t) (ofExpr u) := by
  have hvalue := sameKnown_value u
  rw [← h] at hvalue
  exact (sameKnown_value t).symm.trans hvalue

/-- Types with the same value stand for the same type, or the standard table has an entry for
neither. -/
theorem eq_or_not_maps_of_value_eq {t u : TypeExpr} (ht : t.WellNamed) (hu : u.WellNamed)
    (h : t.value = u.value) : ofExpr t = ofExpr u ∨
      ¬ TypeTable.standard.Maps (ofExpr t) ∧ ¬ TypeTable.standard.Maps (ofExpr u) := by
  have hknown : ∀ {e : TypeExpr}, e.WellNamed → TypeTable.standard.Maps (ofExpr e) →
      (ofExpr e).Known := fun he hmaps =>
    known_pointee.mp ((TypeTable.standard_maps_iff (readable_ofExpr he)).mp hmaps).known
  rcases sameKnown_of_value_eq h with hsame | ⟨hunknown, hunknown'⟩
  · exact .inl hsame
  · exact .inr ⟨fun hmaps => hunknown (hknown ht hmaps), fun hmaps => hunknown' (hknown hu hmaps)⟩

end NativeBindings.NativeType
