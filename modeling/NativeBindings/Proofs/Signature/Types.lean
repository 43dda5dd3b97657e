import NativeBindings.Proofs.Declaration.Variants
import NativeBindings.Proofs.NativeType.Spelling
import NativeBindings.Proofs.TypeTable.Resolution
import NativeBindings.Signature

set_option autoImplicit false
set_option relaxedAutoImplicit false

/-!
The explicit parameters of a signature are the arguments of its declaration that are not generators,
in their order. Their types and the returned one are the types that the signature uses; a table may
have entries for all of them, or there is a first one that it has none for.
-/

namespace NativeBindings

namespace NativeType

private theorem exists_ofExpr_pointee (e : TypeExpr) : ∃ f, ofExpr f = (ofExpr e).pointee := by
  cases h : ofExpr e with
  | ptr t =>
    obtain ⟨f, hf, -⟩ := exists_ofExpr_of_ptr h
    exact ⟨f, hf⟩
  | primitive | handle | boolArray | tuple | unknown => exact ⟨e, h⟩

private theorem eq_generator_of_spelling {e : TypeExpr}
    (h : (ofExpr e).spelling = Handle.generator.spelling) : ofExpr e = .handle .generator := by
  match e with
  | .name n =>
    rcases ofName_cases n with ⟨p, hp⟩ | ⟨k, hk⟩ | hn
    · simp only [ofExpr, hp, spelling_primitive] at h
      cases p <;> exact absurd h (by decide)
    · simp only [ofExpr, hk, spelling_handle] at h ⊢
      cases k <;> first | rfl | exact absurd h (by decide)
    · simp only [ofExpr, hn, spelling_unknown] at h
      subst h
      rfl
  | .app head args =>
    cases ht : ofTemplate? head (Argument.ofArgs args) with
    | none =>
      have hmem : '<' ∈ (ofExpr (.app head args)).spelling.toList := by
        simp [ofExpr, ht, TypeExpr.text_app]
      rw [h] at hmem
      exact absurd hmem (by decide)
    | some u =>
      have hu : ofExpr (.app head args) = u := by simp [ofExpr, ht]
      rw [hu] at h ⊢
      rcases ofTemplate?_eq_some ht with ⟨n, rfl⟩ | ⟨k, rfl⟩ | ⟨ts, -, -, rfl⟩
      · have hmem : '<' ∈ (boolArray n).spelling.toList := by simp
        rw [h] at hmem
        exact absurd hmem (by decide)
      · simp only [spelling_handle] at h
        cases k <;> first | rfl | exact absurd h (by decide)
      · have hmem : '<' ∈ (tuple ts).spelling.toList := by simp
        rw [h] at hmem
        exact absurd hmem (by decide)
  | .ref e => exact eq_generator_of_spelling (e := e) h
  | .ptr e =>
    have hmem : '*' ∈ (ofExpr (.ptr e)).spelling.toList := by simp [ofExpr]
    rw [h] at hmem
    exact absurd hmem (by decide)

theorem isGenerator_iff_spelling (e : TypeExpr) :
    (ofExpr e).isGenerator = true ↔
      (ofExpr e).pointee.spelling = Handle.generator.spelling := by
  constructor
  · intro h
    unfold isGenerator at h
    split at h
    · rename_i hpointee
      rw [hpointee, spelling_handle]
    · cases h
  · intro h
    obtain ⟨f, hf⟩ := exists_ofExpr_pointee e
    rw [← hf] at h
    rw [isGenerator, ← hf, eq_generator_of_spelling h]

end NativeType

def Argument.isGenerator (a : Argument) : Bool := (NativeType.ofExpr a.type).isGenerator

/-- The explicit parameter that an argument is where it is passed. -/
def Argument.typed (a : Argument) : String × NativeType := (a.name, .ofExpr a.type)

def Declaration.passed (d : Declaration) : List Argument :=
  d.arguments.filter fun a => !a.isGenerator

private theorem Argument.explicit?_parameter (a : Argument) :
    Signature.explicit? a.parameter = if a.isGenerator then none else some a.typed := by
  unfold parameter isGenerator typed
  dsimp only
  split_ifs <;> rfl

theorem Signature.explicits_ofDeclaration (d : Declaration) :
    (Signature.ofDeclaration d).explicits = d.passed.map Argument.typed := by
  simp only [explicits, ofDeclaration, Declaration.passed]
  induction d.arguments with
  | nil => rfl
  | cons a rest ih =>
    rw [List.map_cons, List.filterMap_cons, ih, Argument.explicit?_parameter, List.filter_cons]
    cases a.isGenerator <;> rfl

/-- The types that a signature uses, in the order in which they are looked up. -/
def Signature.types (s : Signature) : List NativeType :=
  s.explicits.map Prod.snd ++ [s.returns.type]

def Signature.Mapped (table : TypeTable) (s : Signature) : Prop := ∀ t ∈ s.types, table.Maps t

/-- A type is the first one of a signature that a table has no entry for. -/
def Signature.FirstUnmapped (table : TypeTable) (s : Signature) (t : NativeType) : Prop :=
  ∃ before after, s.types = before ++ t :: after ∧ (∀ u ∈ before, table.Maps u) ∧ ¬ table.Maps t

/-- A signature is the first one of a list that is not mapped, and a type its first unmapped one. -/
def FirstUnmappedIn (table : TypeTable) (signatures : List Signature) (s : Signature)
    (t : NativeType) : Prop :=
  ∃ before after, signatures = before ++ s :: after ∧ (∀ b ∈ before, b.Mapped table) ∧
    s.FirstUnmapped table t

instance (table : TypeTable) (s : Signature) : Decidable (s.Mapped table) :=
  inferInstanceAs (Decidable (∀ t ∈ s.types, table.Maps t))

/-- A list in which some item fails a test begins with items that pass it, up to the first one that
does not. -/
theorem exists_first_not {α : Type} {p : α → Prop} {xs : List α} (h : ∃ x ∈ xs, ¬ p x) :
    ∃ before x after, xs = before ++ x :: after ∧ (∀ b ∈ before, p b) ∧ ¬ p x := by
  induction xs with
  | nil => simp at h
  | cons y ys ih =>
    by_cases hy : p y
    · have hys : ∃ x ∈ ys, ¬ p x := by simpa [hy] using h
      obtain ⟨before, x, after, rfl, hbefore, hx⟩ := ih hys
      exact ⟨y :: before, x, after, rfl, List.forall_mem_cons.mpr ⟨hy, hbefore⟩, hx⟩
    · exact ⟨[], y, ys, rfl, by simp, hy⟩

theorem Signature.exists_firstUnmapped {table : TypeTable} {s : Signature}
    (h : ¬ s.Mapped table) : ∃ t, s.FirstUnmapped table t := by
  have hunmapped : ∃ t ∈ s.types, ¬ table.Maps t := by simpa [Mapped] using h
  obtain ⟨before, t, after, htypes, hbefore, ht⟩ := exists_first_not hunmapped
  exact ⟨t, before, after, htypes, hbefore, ht⟩

theorem Signature.FirstUnmapped.not_mapped {table : TypeTable} {s : Signature} {t : NativeType}
    (h : s.FirstUnmapped table t) : ¬ s.Mapped table := by
  obtain ⟨before, after, htypes, -, ht⟩ := h
  intro hmapped
  refine ht (hmapped t ?_)
  rw [htypes]
  simp

/-- The first unmapped type is that of a parameter or, where those are mapped, the returned one. -/
theorem Signature.FirstUnmapped.parameter_or_return {table : TypeTable} {s : Signature}
    {t : NativeType} (h : s.FirstUnmapped table t) :
    (∃ before p after, s.explicits = before ++ p :: after ∧
      (∀ q ∈ before, table.Maps q.2) ∧ p.2 = t ∧ ¬ table.Maps t) ∨
    (∀ p ∈ s.explicits, table.Maps p.2) ∧ s.returns.type = t ∧ ¬ table.Maps t := by
  obtain ⟨before, after, htypes, hbefore, ht⟩ := h
  rcases List.eq_nil_or_concat after with rfl | ⟨middle, last, rfl⟩
  · obtain ⟨hexplicits, hreturn⟩ := List.append_inj' htypes rfl
    refine .inr ⟨fun p hp => hbefore _ ?_, List.singleton_inj.mp hreturn, ht⟩
    rw [← hexplicits]
    exact List.mem_map_of_mem hp
  · rw [Signature.types, List.concat_eq_append, ← List.cons_append, ← List.append_assoc] at htypes
    obtain ⟨hexplicits, -⟩ := List.append_inj' htypes rfl
    obtain ⟨ps, qs, hsplit, rfl, hqs⟩ := List.map_eq_append_iff.mp hexplicits
    obtain ⟨p, after, rfl, hp, -⟩ := List.map_eq_cons_iff.mp hqs
    exact .inl ⟨ps, p, after, hsplit, fun q hq => hbefore _ (List.mem_map_of_mem hq), hp, ht⟩

theorem exists_firstUnmappedIn {table : TypeTable} {signatures : List Signature}
    (h : ∃ s ∈ signatures, ¬ s.Mapped table) :
    ∃ s t, FirstUnmappedIn table signatures s t := by
  obtain ⟨before, s, after, hsignatures, hbefore, hs⟩ := exists_first_not h
  obtain ⟨t, ht⟩ := Signature.exists_firstUnmapped hs
  exact ⟨s, t, before, after, hsignatures, hbefore, ht⟩

theorem Signature.mapped_of_mem_variants {table : TypeTable} {d v : Declaration}
    (hv : v ∈ d.variants) (h : (Signature.ofDeclaration d).Mapped table) :
    (Signature.ofDeclaration v).Mapped table := by
  obtain ⟨count, -, -, rfl⟩ := Declaration.exists_truncated_of_mem_variants hv
  intro t ht
  refine h t ?_
  rw [types, explicits_ofDeclaration] at ht ⊢
  rcases List.mem_append.mp ht with ht | ht
  · have hpassed : (d.truncated count).passed.Sublist d.passed :=
      (List.take_sublist count d.arguments).filter _
    exact List.mem_append_left _ (((hpassed.map Argument.typed).map Prod.snd).mem ht)
  · exact List.mem_append_right _ ht

end NativeBindings
