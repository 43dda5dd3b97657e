import NativeBindings.Proofs.HostModule.Order
import NativeBindings.Proofs.HostName.Decoding

set_option autoImplicit false
set_option relaxedAutoImplicit false

/-!
The factory category takes some of the declarations of the native one, and both keep the first of
each text and of each host name on their own. Main statement: nevertheless the texts and the host
names of the factories are among those of the native functions, with the same parameter types.
-/

namespace NativeBindings

variable {table : TypeTable} {ds : List Declaration} {d : Declaration}

namespace Category

/-- The library that the declarations of a category belong to. -/
def mode : Category → Mode
  | neuralNet => .nn
  | legacy => .th
  | native => .native
  | factory => .native

private theorem mode_of_admits {c : Category} (h : c.admits d = true) : d.mode = c.mode := by
  cases c <;> simp only [admits, Bool.and_eq_true, beq_iff_eq] at h
  · exact h.1
  · exact h.1
  · exact h.1
  · exact h.1.1

theorem eq_of_admits {c c' : Category} (hc : c ≠ factory) (hc' : c' ≠ factory)
    (h : c.admits d = true) (h' : c'.admits d = true) : c = c' := by
  have hmode : c.mode = c'.mode := (mode_of_admits h).symm.trans (mode_of_admits h')
  cases c <;> cases c' <;> first | rfl | contradiction

theorem not_admits_of_thc (h : d.mode = .thc) (c : Category) : c.admits d = false := by
  rw [← Bool.not_eq_true]
  intro hadmits
  have hmode := (mode_of_admits hadmits).symm.trans h
  cases c <;> cases hmode

private theorem variantSignatures_factory_subset (ds : List Declaration) :
    factory.variantSignatures ds ⊆ native.variantSignatures ds := by
  intro s hs
  obtain ⟨d, hd, v, hv, rfl⟩ := mem_signaturesOf.mp hs
  obtain ⟨hmem, hadmits⟩ := List.mem_filter.mp hd
  have hnative : d ∈ ds.filter native.admits :=
    List.mem_filter.mpr ⟨hmem, admits_native_of_factory hadmits⟩
  exact mem_signaturesOf.mpr ⟨d, hnative, v, hv, rfl⟩

/-- A text that is kept for the factories is kept for the native functions, perhaps for another
signature. -/
theorem texts_factory_subset (ds : List Declaration) :
    (factory.signatures ds).map Signature.text ⊆ (native.signatures ds).map Signature.text := by
  intro text htext
  rw [signatures, mem_keepFirst_map_iff] at htext ⊢
  exact List.map_subset _ (variantSignatures_factory_subset ds) htext

private theorem legible_of_mem_signatures {c : Category} (hds : ∀ d ∈ ds, d.Parsed ∧ d.Identified)
    {s : Signature} (hs : s ∈ c.signatures ds) : s.Legible :=
  legible_of_mem_variantSignatures hds (mem_of_mem_keepFirst hs)

private theorem exists_native_of_factory (hds : ∀ d ∈ ds, d.Parsed ∧ d.Identified) {s : Signature}
    (hs : s ∈ factory.signatures ds) :
    ∃ t ∈ native.signatures ds, s.explicitForm = t.explicitForm := by
  obtain ⟨t, ht, htext⟩ := List.mem_map.mp (texts_factory_subset ds (List.mem_map_of_mem hs))
  have hsame := (Signature.text_eq_iff (legible_of_mem_signatures hds hs)
    (legible_of_mem_signatures hds ht)).mp htext.symm
  exact ⟨t, ht, Signature.explicitForm_eq_iff.mpr hsame⟩

end Category

theorem Signature.Legible.readable {s : Signature} (h : s.Legible) : s.Readable :=
  ⟨fun p hp => (h.parameters p hp).2, h.returned⟩

private theorem Signature.mapped_of_explicitForm_eq {s t : Signature}
    (h : s.explicitForm = t.explicitForm) (ht : t.Mapped table) : s.Mapped table := by
  obtain ⟨-, hexplicits, hreturned⟩ := explicitForm_eq_iff.mp h
  rw [Mapped, types, hexplicits, hreturned]
  exact ht

theorem HostName.ofSignature_eq_of_explicitForm_eq {s t : Signature}
    (h : s.explicitForm = t.explicitForm) : ofSignature table s = ofSignature table t := by
  obtain ⟨hname, hexplicits, -⟩ := Signature.explicitForm_eq_iff.mp h
  rw [ofSignature, ofSignature, codes, codes, hexplicits, hname]

namespace ModuleSpec

variable {spec : ModuleSpec} {signatures : List Signature} {m : RenderedModule}

private theorem mapped_of_render (h : spec.render table signatures = .ok m) :
    ∀ s ∈ signatures, s.Mapped table := by
  by_contra hunmapped
  obtain ⟨s, t, ht⟩ := exists_firstUnmappedIn (by simpa using hunmapped)
  rw [spec.render_of_firstUnmappedIn ht] at h
  cases h

private theorem exists_render_of_mapped (spec : ModuleSpec) (h : ∀ s ∈ signatures, s.Mapped table) :
    ∃ m, spec.render table signatures = .ok m := by
  obtain ⟨all, -, hlower⟩ := exists_lower_of_mapped spec.category h
  exact ⟨_, Traversal.map_eq_ok_iff.mpr ⟨_, hlower, rfl⟩⟩

private theorem exists_stanza_of_hostName (h : spec.render table signatures = .ok m) {s : Signature}
    (hs : s ∈ signatures) {name : String} (hname : HostName.ofSignature table s = .ok name) :
    ∃ stanza ∈ m.stanzas, stanza.hostName = name := by
  obtain ⟨all, hall, hkept, -⟩ := exists_of_render h
  obtain ⟨other, hother, hof⟩ := Traversal.exists_of_forall₂_of_mem hall hs
  cases Except.ok.inj (hname.symm.trans hof.hostName)
  rw [hkept]
  exact exists_mem_keepFirst (List.mem_map_of_mem hother)

private theorem signature_mem_of_mem_stanzas (h : spec.render table signatures = .ok m)
    {stanza : Stanza}
    (hstanza : stanza ∈ m.stanzas) : stanza.signature ∈ signatures := by
  obtain ⟨all, hall, hkept, -⟩ := exists_of_render h
  rw [hkept] at hstanza
  obtain ⟨s, hs, hof⟩ :=
    Traversal.exists_of_forall₂_of_mem hall.flip (mem_of_mem_keepFirst hstanza)
  have hsignature : stanza.signature = s := hof.signature
  rwa [hsignature]

end ModuleSpec

namespace Stanza

variable {c c' : Category} {s t : Signature} {stanza other : Stanza}

def parameterTypes (stanza : Stanza) : List (NativeType × TypeEntry) :=
  stanza.parameters.map fun p => (p.type, p.entry)

private theorem Of.parameterTypes_map (h : Of c table s stanza) :
    stanza.parameterTypes.map (Prod.map id some) =
      (s.explicits.map Prod.snd).map fun type => (type, table.lookup? type.pointee.spelling) := by
  rw [parameterTypes, List.map_map, List.map_map]
  refine (Traversal.map_eq_of_forall₂ h.parameters fun p q hpq => ?_).symm
  obtain ⟨-, htype, hentry⟩ := hpq
  simp only [Function.comp_apply, Prod.map_apply, id_eq, htype,
    TypeTable.resolve_eq_ok_iff.mp hentry]

private theorem parameterTypes_eq (h : Of c table s stanza) (h' : Of c' table t other)
    (htypes : s.explicits.map Prod.snd = t.explicits.map Prod.snd) :
    stanza.parameterTypes = other.parameterTypes := by
  have hinjective : Function.Injective fun p : NativeType × TypeEntry => p.map id some := by
    rintro ⟨type, e⟩ ⟨type', e'⟩ h
    simpa using h
  refine List.map_injective_iff.mpr hinjective ?_
  rw [h.parameterTypes_map, h'.parameterTypes_map, htypes]

private theorem parameterTypes_eq_of_hostName (ht : table.UniquelyCoded) (h : Of c table s stanza)
    (h' : Of c' table t other) (hs : s.Readable) (ht' : t.Readable)
    (hname : stanza.hostName = other.hostName) :
    stanza.parameterTypes = other.parameterTypes := by
  have hsame := ((HostName.eq_iff_of_ofSignature ht h.hostName h'.hostName).mp hname).2
  exact parameterTypes_eq h h' ((HostName.sameParameters_iff_types h.hostName hs ht').mp hsame)

private theorem nativeTypes_eq (h : stanza.parameterTypes = other.parameterTypes) :
    stanza.parameters.map (·.type) = other.parameters.map (·.type) := by
  have hnative : ∀ stanza : Stanza,
      stanza.parameters.map (·.type) = stanza.parameterTypes.map Prod.fst := by
    intro stanza
    rw [parameterTypes, List.map_map]
    rfl
  rw [hnative, hnative, h]

private theorem hostTypes_eq (ownership : Ownership)
    (h : stanza.parameterTypes = other.parameterTypes) :
    (HostModule.TypeSignature.ofStanza ownership stanza).parameters =
      (HostModule.TypeSignature.ofStanza ownership other).parameters := by
  have hhost : ∀ stanza : Stanza, (HostModule.TypeSignature.ofStanza ownership stanza).parameters =
      stanza.parameterTypes.map fun p => HostModule.hostType ownership p.1 p.2 := by
    intro stanza
    rw [parameterTypes, List.map_map]
    rfl
  rw [hhost, hhost, h]

end Stanza

open TypeTable (standard)

/-- Where the native module can be rendered, so can that of the factories, and each factory has the
host name and the parameter types of a native function. -/
theorem exists_render_factories (spec : ModuleSpec) (ht : table.UniquelyCoded)
    (hds : ∀ d ∈ ds, d.Parsed ∧ d.Identified) {native : RenderedModule}
    (h : { spec with category := .native }.render table (Category.native.signatures ds) =
      .ok native) :
    ∃ factories, { spec with category := .factory }.render table (Category.factory.signatures ds) =
        .ok factories ∧
      ∀ stanza ∈ factories.stanzas, ∃ other ∈ native.stanzas,
        other.hostName = stanza.hostName ∧ other.parameterTypes = stanza.parameterTypes := by
  have hmapped : ∀ s ∈ Category.factory.signatures ds, s.Mapped table := by
    intro s hs
    obtain ⟨t, ht, hform⟩ := Category.exists_native_of_factory hds hs
    exact Signature.mapped_of_explicitForm_eq hform (ModuleSpec.mapped_of_render h t ht)
  obtain ⟨factories, hfactories⟩ :=
    ModuleSpec.exists_render_of_mapped { spec with category := .factory } hmapped
  refine ⟨factories, hfactories, fun stanza hstanza => ?_⟩
  have hof := ModuleSpec.of_mem_stanzas hfactories hstanza
  have hsignature := ModuleSpec.signature_mem_of_mem_stanzas hfactories hstanza
  obtain ⟨t, htmem, hform⟩ := Category.exists_native_of_factory hds hsignature
  have hname : HostName.ofSignature table t = .ok stanza.hostName := by
    rw [← HostName.ofSignature_eq_of_explicitForm_eq hform, hof.hostName]
  -- The native function of the host name may be that of another signature.
  obtain ⟨other, hother, hsame⟩ := ModuleSpec.exists_stanza_of_hostName h htmem hname
  have hof' := ModuleSpec.of_mem_stanzas h hother
  have hsignature' := ModuleSpec.signature_mem_of_mem_stanzas h hother
  refine ⟨other, hother, hsame, ?_⟩
  exact Stanza.parameterTypes_eq_of_hostName ht hof' hof
    (Category.legible_of_mem_signatures hds hsignature').readable
    (Category.legible_of_mem_signatures hds hsignature).readable hsame

/-- The texts of the factories are among those of the native functions, and no declaration belongs
to two of the other categories. Where names are identifiers and the native module can be rendered,
so can the module of the factories, and a native function of the same parameter types has the host
name of each factory. -/
theorem factories_among_native (ds : List Declaration) :
    (∀ text ∈ (Category.factory.signatures ds).map Signature.text,
      text ∈ (Category.native.signatures ds).map Signature.text) ∧
    (∀ d : Declaration, ∀ c ∈ [Category.neuralNet, .legacy, .native],
      ∀ c' ∈ [Category.neuralNet, .legacy, .native],
        c.admits d = true → c'.admits d = true → c = c') ∧
    (∀ d : Declaration, d.mode = .thc → ∀ c : Category, c.admits d = false) ∧
    ((∀ d ∈ ds, d.Parsed ∧ d.Identified) →
      ∀ (configuration : Configuration) (ownership : Ownership) (native : RenderedModule),
        ModuleSpec.render ⟨configuration, .native, ownership⟩ standard
          (Category.native.signatures ds) = .ok native →
        ∃ factories, ModuleSpec.render ⟨configuration, .factory, ownership⟩ standard
            (Category.factory.signatures ds) = .ok factories ∧
          ∀ stanza ∈ factories.stanzas, ∃ other ∈ native.stanzas,
            other.hostName = stanza.hostName ∧
            other.parameters.map (·.type) = stanza.parameters.map (·.type) ∧
            (HostModule.TypeSignature.ofStanza ownership other).parameters =
              (HostModule.TypeSignature.ofStanza ownership stanza).parameters) := by
  refine ⟨Category.texts_factory_subset ds, ?_, fun d => Category.not_admits_of_thc, ?_⟩
  · intro d c hc c' hc' h h'
    refine Category.eq_of_admits ?_ ?_ h h'
    · rintro rfl
      simp at hc
    · rintro rfl
      simp at hc'
  · intro hds configuration ownership native hnative
    obtain ⟨factories, hfactories, hall⟩ := exists_render_factories
      ⟨configuration, .native, ownership⟩ TypeTable.standard_uniquelyCoded hds hnative
    refine ⟨factories, hfactories, fun stanza hstanza => ?_⟩
    obtain ⟨other, hother, hname, htypes⟩ := hall stanza hstanza
    exact ⟨other, hother, hname, Stanza.nativeTypes_eq htypes, Stanza.hostTypes_eq ownership htypes⟩

def Declaration.emptyOfSize : Declaration where
  name := "empty"
  overloadName := none
  arguments := [⟨"size", .name "IntList", none⟩]
  returns := [.name "Tensor"]
  mode := .native
  methodOf := ["namespace"]
  isFactoryMethod := none

def Declaration.emptyOfShape : Declaration where
  name := "empty"
  overloadName := none
  arguments := [⟨"shape", .ref (.name "IntArrayRef"), none⟩]
  returns := [.name "at::Tensor"]
  mode := .native
  methodOf := ["namespace"]
  isFactoryMethod := some true

open Declaration (emptyOfSize emptyOfShape)

/-- The native module has the host name of the factory for the declaration before it. -/
theorem factories_among_native_empty :
    (∀ d ∈ [emptyOfSize, emptyOfShape], d.Parsed ∧ d.Identified) ∧
    (∀ c ∈ [Category.neuralNet, .legacy, .native], c.admits emptyOfSize = true → c = .native) ∧
    (∀ c : Category, c.admits { emptyOfSize with mode := .thc } = false) ∧
    ∃ native factories,
      ModuleSpec.render ⟨.standard, .native, .managed⟩ standard
        (Category.native.signatures [emptyOfSize, emptyOfShape]) = .ok native ∧
      ModuleSpec.render ⟨.standard, .factory, .managed⟩ standard
        (Category.factory.signatures [emptyOfSize, emptyOfShape]) = .ok factories ∧
      native.stanzas.map (·.signature.text) =
        ["empty(std::vector<int64_t> size) -> at::Tensor"] ∧
      factories.stanzas.map (·.signature.text) =
        ["empty(std::vector<int64_t> shape) -> at::Tensor"] ∧
      ∀ stanza ∈ factories.stanzas, ∃ other ∈ native.stanzas,
        other.hostName = stanza.hostName ∧
        other.parameters.map (·.type) = stanza.parameters.map (·.type) ∧
        (HostModule.TypeSignature.ofStanza .managed other).parameters =
          (HostModule.TypeSignature.ofStanza .managed stanza).parameters := by
  have hboth : ∀ d ∈ [emptyOfSize, emptyOfShape], d.Parsed ∧ d.Identified := by decide
  obtain ⟨-, hunique, hnone, hmodules⟩ := factories_among_native [emptyOfSize, emptyOfShape]
  obtain ⟨factories, hfactories, hall⟩ := hmodules hboth .standard .managed _ rfl
  refine ⟨hboth, fun c hc hadmits => hunique emptyOfSize c hc .native (by simp) hadmits rfl,
    hnone { emptyOfSize with mode := .thc } rfl, _, factories, rfl, hfactories, by decide, ?_, hall⟩
  cases hfactories
  decide

end NativeBindings
