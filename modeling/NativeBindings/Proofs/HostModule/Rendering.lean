import NativeBindings.HostModule.Render
import NativeBindings.Proofs.KeepFirst
import NativeBindings.Proofs.Stanza.Lowering
import NativeBindings.TypeTable.Standard

set_option autoImplicit false
set_option relaxedAutoImplicit false

/-!
What becomes of a list of signatures in a module. Main statement: the first unmapped type fails the
module, and a module that does not fail loses nothing but repeated host names.
-/

namespace NativeBindings

/-- The text of a module before its functions. -/
def ModuleSpec.preamble (spec : ModuleSpec) (table : TypeTable) (stanzas : List Stanza) : String :=
  match spec.ownership with
  | .unmanaged =>
    HostModule.unlines (HostModule.UnmanagedModule.ofStanzas spec table stanzas).preambleLines
  | .managed => HostModule.unlines (HostModule.ManagedModule.ofStanzas spec stanzas).preambleLines

def Ownership.stanzaText (o : Ownership) (s : Stanza) : String :=
  match o with
  | .unmanaged => (HostModule.UnmanagedDefinition.ofStanza s).text
  | .managed => (HostModule.ManagedDefinition.ofStanza s).text

theorem ModuleSpec.textOf_eq (spec : ModuleSpec) (table : TypeTable) (stanzas : List Stanza) :
    spec.textOf table stanzas =
      spec.preamble table stanzas ++ String.join (stanzas.map spec.ownership.stanzaText) := by
  obtain ⟨configuration, category, ownership⟩ := spec
  cases ownership <;>
    simp [textOf, preamble, HostModule.UnmanagedModule.text, HostModule.ManagedModule.text,
      HostModule.UnmanagedModule.ofStanzas, HostModule.ManagedModule.ofStanzas] <;> rfl

variable {table : TypeTable} {signatures : List Signature}

theorem ModuleSpec.render_of_firstUnmappedIn (spec : ModuleSpec) {s : Signature} {t : NativeType}
    (h : FirstUnmappedIn table signatures s t) :
    spec.render table signatures = .error ⟨t.pointee.spelling, s.name⟩ := by
  obtain ⟨before, after, rfl, hbefore, ht⟩ := h
  rw [render, Traversal.map_eq_error_iff, lower, Traversal.map_eq_error_iff]
  exact Traversal.mapM_append_cons_error
    (fun b hb => Stanza.exists_of_mapped spec.category (hbefore b hb))
    (Stanza.ofSignature_of_firstUnmapped spec.category ht) after

/-- Mapped signatures are lowered each to its own function, of which the first of each host name is
kept. -/
theorem exists_lower_of_mapped (category : Category) (h : ∀ s ∈ signatures, s.Mapped table) :
    ∃ all, List.Forall₂ (Stanza.Of category table) signatures all ∧
      lower category table signatures =
        .ok ⟨keepFirst Stanza.hostName all, repeated Stanza.hostName all⟩ := by
  obtain ⟨all, hall⟩ := Traversal.exists_mapM_eq_ok_iff.mpr fun s hs =>
    Stanza.exists_of_mapped category (h s hs)
  refine ⟨all, ?_, Traversal.map_eq_ok_iff.mpr ⟨all, hall, rfl⟩⟩
  exact (Traversal.mapM_eq_ok_iff.mp hall).imp fun _ _ => Stanza.ofSignature_eq_ok_iff.mp

/-- What a rendered module is made of: the functions of all signatures, of which the first of each
host name is kept. -/
theorem ModuleSpec.exists_of_render {spec : ModuleSpec} {m : RenderedModule}
    (h : spec.render table signatures = .ok m) :
    ∃ all, List.Forall₂ (Stanza.Of spec.category table) signatures all ∧
      m.stanzas = keepFirst Stanza.hostName all ∧ m.skipped = repeated Stanza.hostName all ∧
      m.text = spec.textOf table m.stanzas := by
  obtain ⟨l, hl, rfl⟩ := Traversal.map_eq_ok_iff.mp h
  obtain ⟨all, hall, rfl⟩ := Traversal.map_eq_ok_iff.mp hl
  refine ⟨all, ?_, rfl, rfl, rfl⟩
  exact (Traversal.mapM_eq_ok_iff.mp hall).imp fun _ _ => Stanza.ofSignature_eq_ok_iff.mp

theorem ModuleSpec.of_mem_stanzas {spec : ModuleSpec} {m : RenderedModule}
    (h : spec.render table signatures = .ok m) {stanza : Stanza} (hstanza : stanza ∈ m.stanzas) :
    Stanza.Of spec.category table stanza.signature stanza := by
  obtain ⟨all, hall, hkept, -⟩ := exists_of_render h
  rw [hkept] at hstanza
  obtain ⟨s, -, hs⟩ := Traversal.exists_of_forall₂_of_mem hall.flip (mem_of_mem_keepFirst hstanza)
  have hof : Stanza.Of spec.category table s stanza := hs
  rwa [hof.signature]

theorem ModuleSpec.render_kept {spec : ModuleSpec} {m : RenderedModule}
    (h : spec.render table signatures = .ok m) :
    spec.render table (m.stanzas.map (·.signature)) = .ok ⟨m.text, m.stanzas, []⟩ := by
  have hall : (m.stanzas.map (·.signature)).mapM (Stanza.ofSignature spec.category table) =
      .ok m.stanzas := by
    rw [Traversal.mapM_eq_ok_iff, List.forall₂_map_left_iff, List.forall₂_same]
    exact fun stanza hstanza => Stanza.ofSignature_eq_ok_iff.mpr (of_mem_stanzas h hstanza)
  obtain ⟨all, -, hkept, -, htext⟩ := exists_of_render h
  have hnames : (m.stanzas.map Stanza.hostName).Nodup := by
    rw [hkept]
    exact nodup_keepFirst all
  refine Traversal.map_eq_ok_iff.mpr ⟨_, Traversal.map_eq_ok_iff.mpr ⟨_, hall, rfl⟩, ?_⟩
  simp only [keepFirst_of_nodup hnames, repeated_of_nodup hnames, htext]

private theorem hostNames_of_lowered {category : Category} {all : List Stanza}
    (h : List.Forall₂ (Stanza.Of category table) signatures all) :
    signatures.mapM (HostName.ofSignature table) = .ok (all.map Stanza.hostName) := by
  rw [Traversal.mapM_eq_ok_iff, List.forall₂_map_right_iff]
  exact h.imp fun _ _ hstanza => hstanza.hostName

/-- A function is that of the first signature with its host name. -/
def Stanza.OfFirst (category : Category) (table : TypeTable) (signatures : List Signature)
    (stanza : Stanza) : Prop :=
  ∃ before s after, signatures = before ++ s :: after ∧
    (∀ b ∈ before, HostName.ofSignature table b ≠ .ok stanza.hostName) ∧
    Stanza.Of category table s stanza

private theorem Stanza.ofFirst_of_mem_keepFirst {category : Category} {all : List Stanza}
    (h : List.Forall₂ (Stanza.Of category table) signatures all) {stanza : Stanza}
    (hmem : stanza ∈ keepFirst Stanza.hostName all) :
    stanza.OfFirst category table signatures := by
  obtain ⟨before, after, rfl, hbefore⟩ := of_mem_keepFirst hmem
  obtain ⟨before', s, after', rfl, hrelated, hs⟩ := Traversal.forall₂_append_cons_right h
  refine ⟨before', s, after', rfl, ?_, hs⟩
  intro b hb hname
  obtain ⟨other, hother, hof⟩ := Traversal.exists_of_forall₂_of_mem hrelated hb
  exact hbefore other hother (Except.ok.inj (hof.hostName.symm.trans hname))

/-- Rendering fails with the first unmapped type of the first signature that has one, whatever the
host names. Without such a type it gives one function for each host name, in the order of their
first occurrences, that of the first signature with the name, and counts all others. -/
theorem ModuleSpec.render_loses_only_repeats (spec : ModuleSpec) (table : TypeTable)
    (signatures : List Signature) :
    ((∃ s ∈ signatures, ¬ s.Mapped table) →
      ∃ s t, FirstUnmappedIn table signatures s t ∧
        spec.render table signatures = .error ⟨t.pointee.spelling, s.name⟩) ∧
    ((∀ s ∈ signatures, s.Mapped table) →
      ∃ m names, spec.render table signatures = .ok m ∧
        signatures.mapM (HostName.ofSignature table) = .ok names ∧
        m.stanzas.map Stanza.hostName = names.eraseDups ∧
        (∀ stanza ∈ m.stanzas, stanza.OfFirst spec.category table signatures) ∧
        m.stanzas.length + m.skipped.length = signatures.length ∧
        m.text = spec.preamble table m.stanzas ++
          String.join (m.stanzas.map spec.ownership.stanzaText)) := by
  constructor
  · intro h
    obtain ⟨s, t, ht⟩ := exists_firstUnmappedIn h
    exact ⟨s, t, ht, spec.render_of_firstUnmappedIn ht⟩
  · intro h
    obtain ⟨all, hall, hlower⟩ := exists_lower_of_mapped spec.category h
    refine ⟨_, all.map Stanza.hostName, Traversal.map_eq_ok_iff.mpr ⟨_, hlower, rfl⟩,
      hostNames_of_lowered hall, keepFirst_map all, ?_, ?_, spec.textOf_eq table _⟩
    · intro stanza hstanza
      exact Stanza.ofFirst_of_mem_keepFirst hall hstanza
    · rw [length_keepFirst_add, hall.length_eq]

/-- The module of plain pointers to native functions. -/
def ModuleSpec.plain : ModuleSpec := ⟨.standard, .native, .unmanaged⟩

def Signature.clone : Signature :=
  ⟨"clone", [.explicit "self" (.handle .tensor)], .one (.handle .tensor)⟩

/-- Another function of the same host name, which returns a type without a host type. -/
def Signature.cloneToBlob : Signature :=
  ⟨"clone", [.explicit "source" (.handle .tensor)], .one (.unknown "Blob")⟩

theorem ModuleSpec.render_loses_only_repeats_clone :
    (∃ s ∈ [Signature.clone, .cloneToBlob], ¬ s.Mapped .standard) ∧
    (∃ s t, FirstUnmappedIn .standard [.clone, .cloneToBlob] s t ∧
      plain.render .standard [.clone, .cloneToBlob] = .error ⟨t.pointee.spelling, s.name⟩) ∧
    (∀ s ∈ [Signature.clone, .clone], s.Mapped .standard) ∧
    ∃ m, plain.render .standard [.clone, .clone] = .ok m ∧
      m.stanzas.map Stanza.hostName = ["clone_t"] ∧ m.stanzas.length + m.skipped.length = 2 := by
  have hunmapped : ∃ s ∈ [Signature.clone, .cloneToBlob], ¬ s.Mapped .standard := by decide
  have hmapped : ∀ s ∈ [Signature.clone, .clone], s.Mapped .standard := by decide
  have hrendered := (render_loses_only_repeats plain .standard [.clone, .clone]).2 hmapped
  obtain ⟨m, names, hm, hnames, hstanzas, -, hlength, -⟩ := hrendered
  have htwice : names = ["clone_t", "clone_t"] := (Except.ok.inj hnames).symm
  refine ⟨hunmapped, (render_loses_only_repeats plain .standard [.clone, .cloneToBlob]).1 hunmapped,
    hmapped, m, hm, ?_, hlength⟩
  rw [hstanzas, htwice]
  decide

end NativeBindings
