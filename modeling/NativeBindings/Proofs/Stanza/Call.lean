import NativeBindings.HostModule.Unmanaged
import NativeBindings.Proofs.Stanza.Lowering
import NativeBindings.TypeTable.Standard

set_option autoImplicit false
set_option relaxedAutoImplicit false

/-!
What the call in the block of a variant passes. Main statement: the arguments that are not
generators, in their order. So the call is positional just if no generator stands before a passed
argument, and leaves out defaulted arguments alone just if all generators of the variant are.
-/

namespace NativeBindings

open HostModule (Antiquote Block UnmanagedDefinition)

variable {category : Category} {table : TypeTable} {function : String}

/-- An argument of a call stands for a declared one: it is the host variable of that argument, at
its type. -/
def Argument.PassedAs (table : TypeTable) (function : String) (a : Argument) (x : Antiquote) :
    Prop :=
  ∃ q, Stanza.ParameterOf table function a.typed q ∧ x = .ofParameter q

/-- A call passes the first arguments of a declaration, each in its place. -/
def Declaration.PassedInPlace (table : TypeTable) (d : Declaration) (xs : List Antiquote) : Prop :=
  List.Forall₂ (Argument.PassedAs table d.name) (d.arguments.take xs.length) xs

/-- The arguments of a declaration that the call of a variant does not pass: the generators of the
variant and what the variant leaves out. -/
def Declaration.omittedBy (d v : Declaration) : List Argument :=
  v.arguments.filter Argument.isGenerator ++ d.arguments.drop v.arguments.length

theorem Stanza.Of.passed {v : Declaration} {stanza : Stanza}
    (h : Stanza.Of category table (.ofDeclaration v) stanza) :
    List.Forall₂ (Argument.PassedAs table v.name) v.passed (Block.ofStanza stanza).arguments := by
  have hparams := h.parameters
  rw [Signature.explicits_ofDeclaration, List.forall₂_map_left_iff] at hparams
  rw [Block.ofStanza, List.forall₂_map_right_iff]
  exact hparams.imp fun _ q hq => ⟨q, hq, rfl⟩

theorem Argument.PassedAs.native {a : Argument} {x : Antiquote}
    (h : a.PassedAs table function x) :
    x.native = (NativeType.ofExpr a.type).pointee.spelling := by
  obtain ⟨q, ⟨-, -, hentry⟩, rfl⟩ := h
  exact (TypeTable.of_resolve_eq_ok hentry).2

private theorem Argument.PassedAs.isGenerator_eq {a b : Argument} {x : Antiquote}
    (ha : a.PassedAs table function x) (hb : b.PassedAs table function x) :
    a.isGenerator = b.isGenerator := by
  rw [Bool.eq_iff_iff, isGenerator, isGenerator, NativeType.isGenerator_iff_spelling,
    NativeType.isGenerator_iff_spelling, ← ha.native, ← hb.native]

/-- Behind a generator nothing is passed in its place, so all that follows must be generators. -/
private theorem forall₂_take_iff_of_generator {a : Argument} {rest : List Argument}
    {xs : List Antiquote} (ha : a.isGenerator = true)
    (h : List.Forall₂ (Argument.PassedAs table function) (rest.filter fun a => !a.isGenerator) xs) :
    List.Forall₂ (Argument.PassedAs table function) ((a :: rest).take xs.length) xs ↔
      (a :: rest).Pairwise fun a b => a.isGenerator = true → b.isGenerator = true := by
  cases hpassed : rest.filter fun a => !a.isGenerator with
  | nil =>
    have hrest : ∀ b ∈ rest, b.isGenerator = true := by
      simpa [List.filter_eq_nil_iff] using hpassed
    rw [hpassed] at h
    cases h
    refine ⟨fun _ => ?_, fun _ => .nil⟩
    exact List.pairwise_cons.mpr ⟨fun b hb _ => hrest b hb,
      List.pairwise_of_forall_mem_list fun b _ c hc _ => hrest c hc⟩
  | cons b others =>
    rw [hpassed] at h
    obtain ⟨x, ys, hx, -, rfl⟩ := List.forall₂_cons_left_iff.mp h
    have hb : b ∈ rest ∧ b.isGenerator = false := by
      have hmem : b ∈ rest.filter fun a => !a.isGenerator := by simp [hpassed]
      simpa using List.mem_filter.mp hmem
    constructor
    · -- The first variable of the call stands for the next argument, so not for the generator.
      intro hplaces
      have hgenerator := (List.forall₂_cons.mp hplaces).1.isGenerator_eq hx
      rw [ha, hb.2] at hgenerator
      cases hgenerator
    · intro hpairwise
      have hgenerator := (List.pairwise_cons.mp hpairwise).1 b hb.1 ha
      rw [hb.2] at hgenerator
      cases hgenerator

private theorem forall₂_passedAs_take_iff {as : List Argument} {xs : List Antiquote}
    (h : List.Forall₂ (Argument.PassedAs table function) (as.filter fun a => !a.isGenerator) xs) :
    List.Forall₂ (Argument.PassedAs table function) (as.take xs.length) xs ↔
      as.Pairwise fun a b => a.isGenerator = true → b.isGenerator = true := by
  induction as generalizing xs with
  | nil =>
    cases h
    simp
  | cons a rest ih =>
    cases ha : a.isGenerator with
    | false =>
      rw [List.filter_cons_of_pos (by simp [ha])] at h
      obtain ⟨x, ys, hx, hys, rfl⟩ := List.forall₂_cons_left_iff.mp h
      simp [ha, hx, ih hys]
    | true =>
      rw [List.filter_cons_of_neg (by simp [ha])] at h
      exact forall₂_take_iff_of_generator ha h

/-- The call of a variant passes arguments in their places just if no generator of the variant
stands before another argument of it. -/
theorem Declaration.passedInPlace_iff {d v : Declaration} {stanza : Stanza} (hv : v ∈ d.variants)
    (h : Stanza.Of category table (.ofDeclaration v) stanza) :
    d.PassedInPlace table (Block.ofStanza stanza).arguments ↔
      v.arguments.Pairwise fun a b => a.isGenerator = true → b.isGenerator = true := by
  obtain ⟨count, -, -, rfl⟩ := exists_truncated_of_mem_variants hv
  have hlength : (Block.ofStanza stanza).arguments.length ≤ count := by
    rw [← h.passed.length_eq]
    exact (List.length_filter_le _ _).trans (List.length_take_le _ _)
  have hplaces : d.arguments.take (Block.ofStanza stanza).arguments.length =
      (d.truncated count).arguments.take (Block.ofStanza stanza).arguments.length := by
    rw [truncated, List.take_take, Nat.min_eq_left hlength]
  unfold PassedInPlace
  rw [hplaces]
  exact forall₂_passedAs_take_iff h.passed

private theorem Declaration.omittedBy_perm {d v : Declaration} {count : Nat}
    (h : v = d.truncated count) :
    (v.passed ++ d.omittedBy v).Perm d.arguments := by
  have harguments : v.arguments ++ d.arguments.drop v.arguments.length = d.arguments := by
    have hprefix : v.arguments <+: d.arguments := by
      rw [h]
      exact List.take_prefix count d.arguments
    conv_rhs => rw [← List.take_append_drop v.arguments.length d.arguments]
    rw [← List.prefix_iff_eq_take.mp hprefix]
  have hkept : (v.passed ++ v.arguments.filter Argument.isGenerator).Perm v.arguments :=
    List.perm_append_comm.trans (List.filter_append_perm Argument.isGenerator v.arguments)
  rw [omittedBy, ← List.append_assoc]
  exact (hkept.append_right _).trans (List.Perm.of_eq harguments)

/-- The call of a variant passes the arguments that are not generators, in their order. What it does
not pass is a generator or carries a default. -/
theorem call_passes_all_but_generators (category : Category) (table : TypeTable)
    (d v : Declaration) (hv : v ∈ d.variants) (hd : (Signature.ofDeclaration d).Mapped table) :
    ∃ stanza, Stanza.ofSignature category table (.ofDeclaration v) = .ok stanza ∧
      (UnmanagedDefinition.ofStanza stanza).block.callee = category.callPrefix ++ d.name ∧
      List.Forall₂ (Argument.PassedAs table d.name) v.passed
        (UnmanagedDefinition.ofStanza stanza).block.arguments ∧
      (v.passed ++ d.omittedBy v).Perm d.arguments ∧
      (∀ a ∈ d.omittedBy v, a.isGenerator = true ∨ a.hasDefault = true) ∧
      (d.PassedInPlace table (UnmanagedDefinition.ofStanza stanza).block.arguments ↔
        v.arguments.Pairwise fun a b => a.isGenerator = true → b.isGenerator = true) ∧
      ((∀ a ∈ d.omittedBy v, a.hasDefault = true) ↔
        ∀ a ∈ v.arguments, a.isGenerator = true → a.hasDefault = true) := by
  obtain ⟨stanza, hstanza⟩ :=
    Stanza.exists_of_mapped category (Signature.mapped_of_mem_variants hv hd)
  have hof := Stanza.ofSignature_eq_ok_iff.mp hstanza
  obtain ⟨count, hrequired, hcount, rfl⟩ := Declaration.exists_truncated_of_mem_variants hv
  have hdropped : ∀ a ∈ d.arguments.drop (d.truncated count).arguments.length,
      a.hasDefault = true := by
    intro a ha
    refine Declaration.hasDefault_of_mem_drop hrequired ?_
    simpa [Declaration.truncated, Nat.min_eq_left hcount] using ha
  refine ⟨stanza, hstanza, hof.callee, hof.passed, Declaration.omittedBy_perm rfl, ?_,
    Declaration.passedInPlace_iff hv hof, ?_⟩
  · intro a ha
    rcases List.mem_append.mp ha with ha | ha
    · exact .inl (List.of_mem_filter ha)
    · exact .inr (hdropped a ha)
  · constructor
    · intro h a ha hgenerator
      exact h a (List.mem_append_left _ (List.mem_filter.mpr ⟨ha, hgenerator⟩))
    · intro h a ha
      rcases List.mem_append.mp ha with ha | ha
      · exact h a (List.mem_of_mem_filter ha) (List.of_mem_filter ha)
      · exact hdropped a ha

/-- A function that takes a generator in front of its tensor, and a number that may be left out. -/
def Declaration.seeded : Declaration where
  name := "seeded"
  overloadName := none
  arguments := [⟨"generator", .ptr (.name "Generator"), none⟩,
    ⟨"self", .ref (.name "Tensor"), none⟩, ⟨"count", .name "int64_t", some (.int 1)⟩]
  returns := [.name "Tensor"]
  mode := .native
  methodOf := ["namespace"]
  isFactoryMethod := none

def Declaration.seededOnce : Declaration := Declaration.seeded.truncated 2

/-- All types of the declaration are mapped, but the call passes the tensor in the place of the
generator, which has no default. -/
theorem seeded_not_passed_in_place :
    (∀ a ∈ Declaration.seeded.arguments, TypeTable.standard.Maps (.ofExpr a.type)) ∧
    TypeTable.standard.Maps (Signature.ofDeclaration .seeded).returns.type ∧
    Declaration.seededOnce ∈ Declaration.seeded.variants ∧
    ∃ stanza, Stanza.ofSignature .native .standard (.ofDeclaration .seededOnce) = .ok stanza ∧
      ¬ Declaration.seeded.PassedInPlace .standard
        (UnmanagedDefinition.ofStanza stanza).block.arguments ∧
      ∃ a ∈ Declaration.seeded.omittedBy .seededOnce, a.hasDefault = false := by
  have hmapped : (Signature.ofDeclaration .seededOnce).Mapped .standard := by decide
  have hv : Declaration.seededOnce ∈ Declaration.seeded.variants :=
    Declaration.mem_variants_iff.mpr ⟨1, by decide, rfl⟩
  obtain ⟨stanza, hstanza⟩ := Stanza.exists_of_mapped .native hmapped
  have hof := Stanza.ofSignature_eq_ok_iff.mp hstanza
  refine ⟨by decide, by decide, hv, stanza, hstanza, ?_, _, List.mem_cons_self, rfl⟩
  intro hplaces
  have hpairwise := (Declaration.passedInPlace_iff hv hof).mp hplaces
  revert hpairwise
  decide

theorem call_passes_all_but_generators_seeded :
    Declaration.seededOnce ∈ Declaration.seeded.variants ∧
    (Signature.ofDeclaration .seeded).Mapped .standard ∧
    ∃ stanza, Stanza.ofSignature .native .standard (.ofDeclaration .seededOnce) = .ok stanza ∧
      (UnmanagedDefinition.ofStanza stanza).block.callee = "at::seeded" ∧
      List.Forall₂ (Argument.PassedAs .standard "seeded") Declaration.seededOnce.passed
        (UnmanagedDefinition.ofStanza stanza).block.arguments := by
  have hv : Declaration.seededOnce ∈ Declaration.seeded.variants :=
    Declaration.mem_variants_iff.mpr ⟨1, by decide, rfl⟩
  have hd : (Signature.ofDeclaration .seeded).Mapped .standard := by decide
  obtain ⟨stanza, hstanza, hcallee, hpassed, -⟩ :=
    call_passes_all_but_generators .native .standard .seeded .seededOnce hv hd
  exact ⟨hv, hd, stanza, hstanza, hcallee, hpassed⟩

end NativeBindings
