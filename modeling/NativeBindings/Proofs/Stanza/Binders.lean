import Mathlib.Data.List.Nodup
import NativeBindings.HostModule.Unmanaged
import NativeBindings.Proofs.HostName.Identifiers
import NativeBindings.Proofs.Stanza.Lowering
import NativeBindings.TypeTable.Standard

set_option autoImplicit false
set_option relaxedAutoImplicit false

/-!
The names that the definition of a function binds. Main statement: they are the host names of the
passed arguments, and those are distinct just if no argument has the name of another one with an
underscore in front of its capital.
-/

namespace NativeBindings

open HostModule (Antiquote UnmanagedDefinition)

/-- The arguments have pairwise distinct identifiers for names. -/
structure Declaration.DistinctlyNamed (d : Declaration) : Prop where
  identifiers : ∀ a ∈ d.arguments, IsIdentifier a.name
  distinct : (d.arguments.map (·.name)).Nodup

instance (d : Declaration) : Decidable d.DistinctlyNamed :=
  decidable_of_iff (_ ∧ _) ⟨fun h => ⟨h.1, h.2⟩, fun h => ⟨h.identifiers, h.distinct⟩⟩

/-- The second argument has the name of the first one, which begins with a capital, behind an
underscore. -/
def Argument.Shadows (a b : Argument) : Prop :=
  HostName.Capital a.name ∧ b.name = "_" ++ a.name

instance (a b : Argument) : Decidable (a.Shadows b) :=
  inferInstanceAs (Decidable (_ ∧ _))

namespace Declaration

variable {d v : Declaration}

theorem DistinctlyNamed.of_mem_variants (h : d.DistinctlyNamed) (hv : v ∈ d.variants) :
    v.DistinctlyNamed := by
  obtain ⟨count, -, -, rfl⟩ := exists_truncated_of_mem_variants hv
  constructor
  · exact fun a ha => h.identifiers a (List.mem_of_mem_take ha)
  · exact h.distinct.sublist ((List.take_sublist count d.arguments).map _)

/-- The host names of the arguments that a caller passes. -/
def binders (d : Declaration) : List String := d.passed.map fun a => HostName.ofParameter a.name

theorem DistinctlyNamed.passed (h : d.DistinctlyNamed) : (d.passed.map (·.name)).Nodup :=
  h.distinct.sublist (List.filter_sublist.map _)

private theorem DistinctlyNamed.nodup_binders_iff (h : d.DistinctlyNamed) :
    d.binders.Nodup ↔ ∀ a ∈ d.passed, ∀ b ∈ d.passed, ¬ a.Shadows b := by
  have hidentifier : ∀ a ∈ d.passed, IsIdentifier a.name := fun a ha =>
    h.identifiers a (List.mem_of_mem_filter ha)
  constructor
  · rintro hnodup a ha b hb ⟨hcapital, hname⟩
    have hhost : HostName.ofParameter a.name = HostName.ofParameter b.name := by
      rw [HostName.ofParameter_eq_iff, HostName.ofName_eq_iff (hidentifier a ha) (hidentifier b hb)]
      exact .inr (.inl ⟨hcapital, hname⟩)
    have hsame := List.inj_on_of_nodup_map hnodup ha hb hhost
    rw [hsame, hname] at hcapital
    exact HostName.not_capital_underscore a.name hcapital
  · intro hshadows
    refine h.passed.of_map.map_on fun a ha b hb hhost => ?_
    rw [HostName.ofParameter_eq_iff,
      HostName.ofName_eq_iff (hidentifier a ha) (hidentifier b hb)] at hhost
    rcases hhost with hname | hshadow | hshadow
    · exact List.inj_on_of_nodup_map h.passed ha hb hname
    · exact absurd hshadow (hshadows a ha b hb)
    · exact absurd hshadow (hshadows b hb a ha)

end Declaration

theorem Stanza.Of.binders {category : Category} {table : TypeTable} {d : Declaration}
    {stanza : Stanza} (h : Stanza.Of category table (.ofDeclaration d) stanza) :
    (UnmanagedDefinition.ofStanza stanza).binders = d.binders := by
  have hparameters := h.parameters
  rw [Signature.explicits_ofDeclaration, List.forall₂_map_left_iff] at hparameters
  exact (Traversal.map_eq_of_forall₂ hparameters fun _ _ hq => hq.1.symm).symm

theorem HostModule.UnmanagedDefinition.antiquoted (stanza : Stanza) :
    (ofStanza stanza).block.arguments.map Antiquote.binder = (ofStanza stanza).binders := by
  rw [ofStanza, Block.ofStanza, List.map_map]
  rfl

/-- The definition of each variant binds the host names of the arguments that are passed, and its
call names the same variables. Where the arguments have distinct identifiers for names, no name is
bound twice just if no argument has the name of another one with an underscore in front of its
capital. -/
theorem binders_distinct_iff (category : Category) (table : TypeTable) (d v : Declaration)
    (hv : v ∈ d.variants) (hnames : d.DistinctlyNamed)
    (hd : (Signature.ofDeclaration d).Mapped table) :
    ∃ stanza, Stanza.ofSignature category table (.ofDeclaration v) = .ok stanza ∧
      (UnmanagedDefinition.ofStanza stanza).binders =
        v.passed.map (fun a => HostName.ofParameter a.name) ∧
      (UnmanagedDefinition.ofStanza stanza).block.arguments.map Antiquote.binder =
        (UnmanagedDefinition.ofStanza stanza).binders ∧
      ((UnmanagedDefinition.ofStanza stanza).binders.Nodup ↔
        ∀ a ∈ v.passed, ∀ b ∈ v.passed, ¬ a.Shadows b) := by
  obtain ⟨stanza, hstanza⟩ :=
    Stanza.exists_of_mapped category (Signature.mapped_of_mem_variants hv hd)
  have hbinders := (Stanza.ofSignature_eq_ok_iff.mp hstanza).binders
  refine ⟨stanza, hstanza, hbinders, UnmanagedDefinition.antiquoted stanza, ?_⟩
  rw [hbinders]
  exact (hnames.of_mem_variants hv).nodup_binders_iff

def Declaration.crossed (first second : String) : Declaration where
  name := "cross"
  overloadName := none
  arguments := [⟨first, .name "Tensor", none⟩, ⟨second, .name "Tensor", none⟩]
  returns := [.name "Tensor"]
  mode := .native
  methodOf := ["namespace"]
  isFactoryMethod := none

theorem crossed_bound_twice :
    (Declaration.crossed "X" "_X").DistinctlyNamed ∧
    (Signature.ofDeclaration (.crossed "X" "_X")).Mapped .standard ∧
    ∃ stanza, Stanza.ofSignature .native .standard (.ofDeclaration (.crossed "X" "_X")) =
        .ok stanza ∧
      (UnmanagedDefinition.ofStanza stanza).head = "cross_tt __X __X =" ∧
      ¬ (UnmanagedDefinition.ofStanza stanza).binders.Nodup := by
  exact ⟨by decide, by decide, _, rfl, by decide, by decide⟩

theorem binders_distinct_iff_crossed :
    Declaration.crossed "X" "x" ∈ (Declaration.crossed "X" "x").variants ∧
    (Declaration.crossed "X" "x").DistinctlyNamed ∧
    (Signature.ofDeclaration (.crossed "X" "x")).Mapped .standard ∧
    ∃ stanza, Stanza.ofSignature .native .standard (.ofDeclaration (.crossed "X" "x")) =
        .ok stanza ∧
      (UnmanagedDefinition.ofStanza stanza).binders = ["__X", "_x"] ∧
      (UnmanagedDefinition.ofStanza stanza).binders.Nodup := by
  have hv : Declaration.crossed "X" "x" ∈ (Declaration.crossed "X" "x").variants :=
    Declaration.mem_variants_iff.mpr ⟨0, by decide, rfl⟩
  have hnames : (Declaration.crossed "X" "x").DistinctlyNamed := by decide
  have hmapped : (Signature.ofDeclaration (.crossed "X" "x")).Mapped .standard := by decide
  obtain ⟨stanza, hstanza, hbinders, -, hdistinct⟩ :=
    binders_distinct_iff .native .standard _ _ hv hnames hmapped
  refine ⟨hv, hnames, hmapped, stanza, hstanza, hbinders, hdistinct.mpr ?_⟩
  decide

end NativeBindings
