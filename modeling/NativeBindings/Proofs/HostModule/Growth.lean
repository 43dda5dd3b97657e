import NativeBindings.Proofs.HostModule.ListedTypes
import NativeBindings.Proofs.HostModule.Order

set_option autoImplicit false
set_option relaxedAutoImplicit false

/-!
Declarations added behind others. Main statement: the signatures and the functions of the earlier
declarations stay as they are and where they are, and the types listed for them stay listed.
-/

namespace NativeBindings

variable {table : TypeTable}

theorem Category.variantSignatures_append (c : Category) (earlier later : List Declaration) :
    c.variantSignatures (earlier ++ later) =
      c.variantSignatures earlier ++ c.variantSignatures later := by
  simp [variantSignatures]

theorem Category.signatures_append (c : Category) (earlier later : List Declaration) :
    c.signatures (earlier ++ later) =
      c.signatures earlier ++ (c.signatures later).filter fun s =>
        decide (s.text ∉ (c.signatures earlier).map Signature.text) := by
  rw [signatures, variantSignatures_append, keepFirst_append]
  congr 1
  refine List.filter_congr fun s _ => ?_
  rw [signatures, decide_eq_decide, mem_keepFirst_map_iff]

namespace ModuleSpec

variable {spec : ModuleSpec} {signatures added : List Signature}

private theorem exists_render_of_append {m' : RenderedModule}
    (h : spec.render table (signatures ++ added) = .ok m') :
    ∃ m, spec.render table signatures = .ok m ∧ m.stanzas <+: m'.stanzas := by
  obtain ⟨l, hl, rfl⟩ := Traversal.map_eq_ok_iff.mp h
  obtain ⟨all, hall, rfl⟩ := Traversal.map_eq_ok_iff.mp hl
  obtain ⟨first, more, hfirst, -, rfl⟩ := Traversal.exists_mapM_append hall
  refine ⟨_, Traversal.map_eq_ok_iff.mpr ⟨_, Traversal.map_eq_ok_iff.mpr ⟨first, hfirst, rfl⟩, rfl⟩,
    ?_⟩
  dsimp only
  rw [keepFirst_append]
  exact List.prefix_append _ _

/-- Declarations that are added behind others add signatures behind theirs. Where the module of all
can be rendered so can that of the earlier ones, its functions are printed first in the longer
module, and the lines of its type table are lines of the longer table in the same order. -/
theorem added_declarations_keep_earlier (spec : ModuleSpec) (table : TypeTable)
    (earlier later : List Declaration) :
    (spec.category.signatures (earlier ++ later) =
      spec.category.signatures earlier ++ (spec.category.signatures later).filter fun s =>
        decide (s.text ∉ (spec.category.signatures earlier).map Signature.text)) ∧
    ∀ m', spec.render table (spec.category.signatures (earlier ++ later)) = .ok m' →
      ∃ m, spec.render table (spec.category.signatures earlier) = .ok m ∧
        m.text = spec.preamble table m.stanzas ++
          String.join (m.stanzas.map spec.ownership.stanzaText) ∧
        m'.text = spec.preamble table m'.stanzas ++
          String.join (m'.stanzas.map spec.ownership.stanzaText) ∧
        m.stanzas.map spec.ownership.stanzaText <+: m'.stanzas.map spec.ownership.stanzaText ∧
        (HostModule.UnmanagedModule.ofStanzas spec table m.stanzas).table.Sublist
          (HostModule.UnmanagedModule.ofStanzas spec table m'.stanzas).table := by
  refine ⟨spec.category.signatures_append earlier later, fun m' hm' => ?_⟩
  have hall := hm'
  rw [Category.signatures_append] at hall
  obtain ⟨m, hm, hprefix⟩ := exists_render_of_append hall
  obtain ⟨-, -, -, -, htext⟩ := exists_of_render hm
  obtain ⟨-, -, -, -, htext'⟩ := exists_of_render hm'
  rw [textOf_eq] at htext htext'
  refine ⟨m, hm, htext, htext', hprefix.map _, ?_⟩
  exact (HostModule.UnmanagedModule.usedEntries_mono table hprefix.subset).map
    HostModule.TableLine.ofEntry

def elementType : Declaration where
  name := "element_type"
  overloadName := none
  arguments := [⟨"self", .name "Tensor", none⟩]
  returns := [.name "ScalarType"]
  mode := .native
  methodOf := ["namespace"]
  isFactoryMethod := none

theorem added_declarations_keep_earlier_neg :
    ∃ m' m, plain.render .standard (Category.native.signatures
        ([negated "self"] ++ [negated "other", negated "self", elementType])) = .ok m' ∧
      plain.render .standard (Category.native.signatures [negated "self"]) = .ok m ∧
      m'.stanzas.map (·.signature.text) =
        ["neg(at::Tensor self) -> at::Tensor", "element_type(at::Tensor self) -> at::ScalarType"] ∧
      m'.skipped.map (·.signature.text) = ["neg(at::Tensor other) -> at::Tensor"] ∧
      m.stanzas.map (Ownership.stanzaText .unmanaged) <+:
        m'.stanzas.map (Ownership.stanzaText .unmanaged) ∧
      (HostModule.UnmanagedModule.ofStanzas plain .standard m.stanzas).table.Sublist
        (HostModule.UnmanagedModule.ofStanzas plain .standard m'.stanzas).table := by
  obtain ⟨m, hm, -, -, hstanzas, htable⟩ := (added_declarations_keep_earlier plain .standard
    [negated "self"] [negated "other", negated "self", elementType]).2 _ rfl
  exact ⟨_, m, rfl, hm, by decide, by decide, hstanzas, htable⟩

end ModuleSpec

end NativeBindings
