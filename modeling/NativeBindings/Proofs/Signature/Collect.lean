import NativeBindings.Proofs.KeepFirst
import NativeBindings.Proofs.Signature.Text
import NativeBindings.Signature.Collect

set_option autoImplicit false
set_option relaxedAutoImplicit false

/-!
The signatures of a category. Leaving out repeated texts neither hides an unmapped type nor changes
which one is met first, since signatures of the same text use the same types.
-/

namespace NativeBindings

variable {table : TypeTable} {ds : List Declaration} {s : Signature}

def signaturesOf (ds : List Declaration) : List Signature :=
  (ds.flatMap Declaration.variants).map Signature.ofDeclaration

theorem mem_signaturesOf :
    s ∈ signaturesOf ds ↔ ∃ d ∈ ds, ∃ v ∈ d.variants, s = Signature.ofDeclaration v := by
  simp only [signaturesOf, List.mem_map, List.mem_flatMap]
  constructor
  · rintro ⟨v, ⟨d, hd, hv⟩, rfl⟩
    exact ⟨d, hd, v, hv, rfl⟩
  · rintro ⟨d, hd, v, hv, rfl⟩
    exact ⟨v, ⟨d, hd, hv⟩, rfl⟩

private theorem mapped_of_mem_signaturesOf (h : ∀ d ∈ ds, (Signature.ofDeclaration d).Mapped table)
    (hs : s ∈ signaturesOf ds) : s.Mapped table := by
  obtain ⟨d, hd, v, hv, rfl⟩ := mem_signaturesOf.mp hs
  exact Signature.mapped_of_mem_variants hv (h d hd)

theorem legible_of_mem_signaturesOf (h : ∀ d ∈ ds, d.Parsed ∧ d.Identified)
    (hs : s ∈ signaturesOf ds) : s.Legible := by
  obtain ⟨d, hd, v, hv, rfl⟩ := mem_signaturesOf.mp hs
  obtain ⟨hparsed, hidentified⟩ := h d hd
  exact Signature.legible_ofDeclaration (hparsed.of_mem_variants hv)
    (hidentified.of_mem_variants hv)

private theorem signaturesOf_append_cons (earlier later : List Declaration) (d : Declaration) :
    ∃ rest, signaturesOf (earlier ++ d :: later) =
      signaturesOf earlier ++ Signature.ofDeclaration d :: rest := by
  obtain ⟨others, hothers⟩ := d.variants_eq_cons
  refine ⟨(others ++ later.flatMap Declaration.variants).map Signature.ofDeclaration, ?_⟩
  simp [signaturesOf, hothers]

namespace Category

variable {c : Category} {declarations : List Declaration}

theorem admits_native_of_factory {d : Declaration} (h : factory.admits d = true) :
    native.admits d = true := by
  simp only [admits, Bool.and_eq_true] at h ⊢
  exact h.1

theorem signatures_mapped
    (h : ∀ d ∈ declarations, c.admits d = true → (Signature.ofDeclaration d).Mapped table) :
    ∀ s ∈ c.signatures declarations, s.Mapped table := by
  intro s hs
  have hadmitted : ∀ d ∈ declarations.filter c.admits, (Signature.ofDeclaration d).Mapped table :=
    fun d hd => h d (List.mem_of_mem_filter hd) (List.of_mem_filter hd)
  exact mapped_of_mem_signaturesOf hadmitted (mem_of_mem_keepFirst hs)

/-- Where the declarations before it are mapped, the first unmapped type of a declaration is that of
the whole category. -/
theorem signatures_firstUnmappedIn {d : Declaration} {earlier later : List Declaration}
    {t : NativeType} (hlegible : ∀ d ∈ declarations, d.Parsed ∧ d.Identified)
    (hsplit : declarations.filter c.admits = earlier ++ d :: later)
    (hearlier : ∀ e ∈ earlier, (Signature.ofDeclaration e).Mapped table)
    (ht : (Signature.ofDeclaration d).FirstUnmapped table t) :
    FirstUnmappedIn table (c.signatures declarations) (.ofDeclaration d) t := by
  have hadmitted : ∀ e ∈ earlier ++ d :: later, e.Parsed ∧ e.Identified := by
    rw [← hsplit]
    exact fun e he => hlegible e (List.mem_of_mem_filter he)
  obtain ⟨hparsed, hidentified⟩ := hadmitted d (by simp)
  obtain ⟨rest, hrest⟩ := signaturesOf_append_cons earlier later d
  -- An earlier signature of the same text would use the unmapped type, too.
  have hnew : ∀ s ∈ signaturesOf earlier, s.text ≠ (Signature.ofDeclaration d).text := by
    intro s hs htext
    have hlegible' := legible_of_mem_signaturesOf
      (fun e he => hadmitted e (List.mem_append_left _ he)) hs
    have htypes := Signature.types_eq_of_text_eq hlegible'
      (Signature.legible_ofDeclaration hparsed hidentified) htext
    have hmapped := mapped_of_mem_signaturesOf hearlier hs
    rw [Signature.Mapped, htypes] at hmapped
    exact ht.not_mapped hmapped
  obtain ⟨others, hothers⟩ := exists_keepFirst_append_cons hnew rest
  refine ⟨keepFirst Signature.text (signaturesOf earlier), others, ?_, ?_, ht⟩
  · have hall : c.variantSignatures declarations = signaturesOf (earlier ++ d :: later) := by
      rw [← hsplit]
      rfl
    rw [signatures, hall, hrest, hothers]
  · exact fun s hs => mapped_of_mem_signaturesOf hearlier (mem_of_mem_keepFirst hs)

end Category

end NativeBindings
