import NativeBindings.Proofs.HostModule.Written

set_option autoImplicit false
set_option relaxedAutoImplicit false

/-!
The two modules of a category. Main statement: they fail together or have the same functions, with
types that differ in the word for a pointer alone; in the module of pointers that the host frees
each function passes on as many arguments as the one of plain pointers binds.
-/

namespace NativeBindings

open HostModule

/-- The two modules of a category have the same functions, each name once. The one of plain pointers
writes `Ptr` where the other one writes `ForeignPtr`, in signatures that are the same otherwise; the
other one casts as many arguments as the definition of plain pointers binds, and imports the module
of plain pointers by the name in its header. -/
structure ModuleSpec.Agree (configuration : Configuration) (category : Category)
    (plain managed : RenderedModule) : Prop where
  stanzas : managed.stanzas = plain.stanzas
  skipped : managed.skipped = plain.skipped
  names_nodup : (plain.stanzas.map (·.hostName)).Nodup
  plain_text : ∃ (listed : List TypeEntry) (includes : List String)
      (nativeResult statement : Stanza → String),
    plain.text = Written.unmanagedPreamble (name ⟨configuration, category, .unmanaged⟩)
        configuration.typeModuleName listed includes ++
      String.join (plain.stanzas.map fun s => Written.unmanagedFunction s.hostName
        (s.hostTypes "Ptr") s.binders (nativeResult s) (statement s))
  managed_text : managed.text =
    Written.managedPreamble (name ⟨configuration, category, .managed⟩) configuration.typeModuleName
        (configuration.moduleName ["Cast"]) (configuration.moduleName ["Objects"])
        (name ⟨configuration, category, .unmanaged⟩) ++
      String.join (plain.stanzas.map fun s => Written.managedFunction s.hostName
        (s.hostTypes "ForeignPtr") s.binders.length)

namespace ModuleSpec

variable (configuration : Configuration) (category : Category) (table : TypeTable)

/-- The two modules of a category fail together with the same type, or both are rendered and
agree. -/
theorem render_unmanaged_managed (signatures : List Signature) :
    (∃ unmapped,
      render ⟨configuration, category, .unmanaged⟩ table signatures = .error unmapped ∧
      render ⟨configuration, category, .managed⟩ table signatures = .error unmapped) ∨
    ∃ plain managed,
      render ⟨configuration, category, .unmanaged⟩ table signatures = .ok plain ∧
      render ⟨configuration, category, .managed⟩ table signatures = .ok managed ∧
      Agree configuration category plain managed := by
  cases hlowered : lower category table signatures with
  | error unmapped =>
    exact .inl ⟨unmapped, Traversal.map_eq_error_iff.mpr hlowered,
      Traversal.map_eq_error_iff.mpr hlowered⟩
  | ok lowered =>
    refine .inr ⟨⟨_, lowered.stanzas, lowered.skipped⟩, ⟨_, lowered.stanzas, lowered.skipped⟩,
      Traversal.map_eq_ok_iff.mpr ⟨_, hlowered, rfl⟩,
      Traversal.map_eq_ok_iff.mpr ⟨_, hlowered, rfl⟩, ?_⟩
    obtain ⟨all, -, rfl⟩ := Traversal.map_eq_ok_iff.mp hlowered
    exact {
      stanzas := rfl
      skipped := rfl
      names_nodup := nodup_keepFirst all
      plain_text := ⟨_, _, _, _, textOf_unmanaged configuration category table _⟩
      managed_text := textOf_managed configuration category table _ }

end ModuleSpec

end NativeBindings
