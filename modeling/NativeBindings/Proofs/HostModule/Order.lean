import NativeBindings.Proofs.HostModule.Rendering
import NativeBindings.Proofs.Signature.Collect
import NativeBindings.Proofs.Signature.Faithful

set_option autoImplicit false
set_option relaxedAutoImplicit false

/-!
The order in which declarations come. It decides which of several signatures is kept where a text or
a host name repeats, and which unmapped type is reported. Main statement: it does not decide whether
a module can be rendered, which host names are in it, or how many functions are in it and left out.
-/

namespace NativeBindings

variable {c : Category} {table : TypeTable} {ds es : List Declaration}

namespace Category

private theorem perm_variantSignatures (h : ds.Perm es) :
    (c.variantSignatures ds).Perm (c.variantSignatures es) :=
  ((h.filter c.admits).flatMap_right Declaration.variants).map Signature.ofDeclaration

theorem legible_of_mem_variantSignatures (hds : ∀ d ∈ ds, d.Parsed ∧ d.Identified)
    {s : Signature} (hs : s ∈ c.variantSignatures ds) : s.Legible := by
  have hadmitted : ∀ d ∈ ds.filter c.admits, d.Parsed ∧ d.Identified :=
    fun d hd => hds d (List.mem_of_mem_filter hd)
  exact legible_of_mem_signaturesOf hadmitted hs

/-- Another order of the declarations gives signatures of the same explicit forms, since a text
tells the explicit form of all signatures that have it. -/
theorem perm_signatures_explicitForm (hds : ∀ d ∈ ds, d.Parsed ∧ d.Identified)
    (h : ds.Perm es) :
    ((c.signatures ds).map Signature.explicitForm).Perm
      ((c.signatures es).map Signature.explicitForm) := by
  rw [signatures_explicitForm, signatures_explicitForm]
  refine perm_keepFirst ((perm_variantSignatures h).map Signature.explicitForm) ?_
  intro x hx y hy htext
  obtain ⟨s, hs, rfl⟩ := List.mem_map.mp hx
  obtain ⟨t, ht, rfl⟩ := List.mem_map.mp hy
  rw [Signature.text_explicitForm, Signature.text_explicitForm] at htext
  have hsame := (Signature.text_eq_iff (legible_of_mem_variantSignatures hds hs)
    (legible_of_mem_variantSignatures hds ht)).mp htext
  exact Signature.explicitForm_eq_iff.mpr hsame

end Category

namespace Lowered

/-- The functions have the same host names, and as many are left out. -/
def Alike (l l' : Lowered) : Prop :=
  (l.stanzas.map Stanza.hostName).Perm (l'.stanzas.map Stanza.hostName) ∧
    l.skipped.length = l'.skipped.length

private theorem alike_explicitForm_iff {l l' : Lowered} :
    l.explicitForm.Alike l'.explicitForm ↔ l.Alike l' := by
  simp only [Alike, explicitForm, List.map_map, List.length_map, Stanza.hostName_comp_explicitForm]

end Lowered

private theorem exists_lower_of_perm {ss ts : List Signature} {l : Lowered} (h : ss.Perm ts)
    (hl : lower c table ss = .ok l) : ∃ l', lower c table ts = .ok l' ∧ l.Alike l' := by
  obtain ⟨all, hall, rfl⟩ := Traversal.map_eq_ok_iff.mp hl
  obtain ⟨all', hall', hperm⟩ := Traversal.exists_mapM_of_perm h hall
  refine ⟨_, Traversal.map_eq_ok_iff.mpr ⟨all', hall', rfl⟩, ?_⟩
  exact ⟨perm_map_keepFirst hperm, length_repeated_eq_of_perm hperm⟩

private theorem exists_lower_of_perm_explicitForm {ss ts : List Signature} {l : Lowered}
    (h : (ss.map Signature.explicitForm).Perm (ts.map Signature.explicitForm))
    (hl : lower c table ss = .ok l) : ∃ l', lower c table ts = .ok l' ∧ l.Alike l' := by
  have hforms : lower c table (ss.map Signature.explicitForm) = .ok l.explicitForm := by
    rw [lower_explicitForm, hl]
    rfl
  obtain ⟨k, hk, halike⟩ := exists_lower_of_perm h hforms
  rw [lower_explicitForm] at hk
  obtain ⟨l', hl', rfl⟩ := Traversal.map_eq_ok_iff.mp hk
  exact ⟨l', hl', Lowered.alike_explicitForm_iff.mp halike⟩

namespace ModuleSpec

variable (spec : ModuleSpec) (table : TypeTable)

private theorem exists_render_of_perm (hds : ∀ d ∈ ds, d.Parsed ∧ d.Identified) (h : ds.Perm es)
    {m : RenderedModule} (hm : spec.render table (spec.category.signatures ds) = .ok m) :
    ∃ m', spec.render table (spec.category.signatures es) = .ok m' ∧
      (m.stanzas.map Stanza.hostName).Perm (m'.stanzas.map Stanza.hostName) ∧
      m.skipped.length = m'.skipped.length := by
  obtain ⟨l, hl, rfl⟩ := Traversal.map_eq_ok_iff.mp hm
  have hforms := Category.perm_signatures_explicitForm (c := spec.category) hds h
  obtain ⟨l', hl', halike⟩ := exists_lower_of_perm_explicitForm hforms hl
  exact ⟨_, Traversal.map_eq_ok_iff.mpr ⟨l', hl', rfl⟩, halike⟩

/-- The order of the declarations does not decide whether a module of them can be rendered, which
host names are in it, and how many functions are in it and are left out. -/
theorem render_order_independent (hds : ∀ d ∈ ds, d.Parsed ∧ d.Identified) (h : ds.Perm es) :
    ((∃ m, spec.render table (spec.category.signatures ds) = .ok m) ↔
      ∃ m', spec.render table (spec.category.signatures es) = .ok m') ∧
    ∀ m m', spec.render table (spec.category.signatures ds) = .ok m →
      spec.render table (spec.category.signatures es) = .ok m' →
      (∀ name, name ∈ m.stanzas.map Stanza.hostName ↔ name ∈ m'.stanzas.map Stanza.hostName) ∧
      m.stanzas.length = m'.stanzas.length ∧ m.skipped.length = m'.skipped.length := by
  have hes : ∀ d ∈ es, d.Parsed ∧ d.Identified := fun d hd => hds d (h.mem_iff.mpr hd)
  constructor
  · constructor
    · rintro ⟨m, hm⟩
      obtain ⟨m', hm', -⟩ := spec.exists_render_of_perm table hds h hm
      exact ⟨m', hm'⟩
    · rintro ⟨m', hm'⟩
      obtain ⟨m, hm, -⟩ := spec.exists_render_of_perm table hes h.symm hm'
      exact ⟨m, hm⟩
  · intro m m' hm hm'
    obtain ⟨n, hn, hnames, hskipped⟩ := spec.exists_render_of_perm table hds h hm
    cases Except.ok.inj (hn.symm.trans hm')
    refine ⟨fun name => hnames.mem_iff, ?_, hskipped⟩
    have hlength := hnames.length_eq
    rwa [List.length_map, List.length_map] at hlength

def negated (argument : String) : Declaration where
  name := "neg"
  overloadName := none
  arguments := [⟨argument, .name "Tensor", none⟩]
  returns := [.name "Tensor"]
  mode := .native
  methodOf := ["namespace"]
  isFactoryMethod := none

theorem render_order_independent_neg :
    (∀ d ∈ [negated "self", negated "other"], d.Parsed ∧ d.Identified) ∧
    [negated "self", negated "other"].Perm [negated "other", negated "self"] ∧
    ∃ m m',
      plain.render .standard (Category.native.signatures [negated "self", negated "other"]) =
        .ok m ∧
      plain.render .standard (Category.native.signatures [negated "other", negated "self"]) =
        .ok m' ∧
      m.stanzas.map (·.signature.text) = ["neg(at::Tensor self) -> at::Tensor"] ∧
      m'.stanzas.map (·.signature.text) = ["neg(at::Tensor other) -> at::Tensor"] ∧
      (∀ name, name ∈ m.stanzas.map Stanza.hostName ↔ name ∈ m'.stanzas.map Stanza.hostName) ∧
      m.stanzas.length = m'.stanzas.length ∧ m.skipped.length = m'.skipped.length := by
  have hboth : ∀ d ∈ [negated "self", negated "other"], d.Parsed ∧ d.Identified := by decide
  have hswap : [negated "self", negated "other"].Perm [negated "other", negated "self"] :=
    .swap _ _ []
  have hsame := (render_order_independent plain .standard hboth hswap).2 _ _ rfl rfl
  exact ⟨hboth, hswap, _, _, rfl, rfl, by decide, by decide, hsame⟩

end ModuleSpec

end NativeBindings
