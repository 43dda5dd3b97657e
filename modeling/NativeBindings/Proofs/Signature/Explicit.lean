import NativeBindings.HostModule.Render
import NativeBindings.Proofs.KeepFirst
import NativeBindings.Proofs.Signature.Types
import NativeBindings.Proofs.Traversal
import NativeBindings.Signature.Collect

set_option autoImplicit false
set_option relaxedAutoImplicit false

/-!
The explicit form of a signature: its name, the parameters that a caller passes, and the returned
values as one type. Main statements: the text of a signature, its function and the module of a list
of signatures depend on the explicit forms alone.
-/

namespace NativeBindings

namespace Signature

/-- The signature without its generators and with its returned values as one type. -/
def explicitForm (s : Signature) : Signature :=
  ⟨s.name, s.explicits.map fun p => .explicit p.1 p.2, .one s.returns.type⟩

@[simp] theorem explicitForm_name (s : Signature) : s.explicitForm.name = s.name := rfl

@[simp] theorem explicitForm_returns_type (s : Signature) :
    s.explicitForm.returns.type = s.returns.type := rfl

@[simp] theorem explicits_explicitForm (s : Signature) :
    s.explicitForm.explicits = s.explicits := by
  have hnone : explicit? ∘ (fun p : String × NativeType => Parameter.explicit p.1 p.2) = some := rfl
  rw [explicits, explicitForm, List.filterMap_map, hnone, List.filterMap_some]

theorem explicitForm_eq_iff {s t : Signature} : s.explicitForm = t.explicitForm ↔
    s.name = t.name ∧ s.explicits = t.explicits ∧ s.returns.type = t.returns.type := by
  constructor
  · intro h
    have hname : s.explicitForm.name = t.explicitForm.name := by rw [h]
    have hexplicits : s.explicitForm.explicits = t.explicitForm.explicits := by rw [h]
    have hreturned : s.explicitForm.returns.type = t.explicitForm.returns.type := by rw [h]
    rw [explicits_explicitForm, explicits_explicitForm] at hexplicits
    exact ⟨hname, hexplicits, hreturned⟩
  · rintro ⟨hname, hexplicits, hreturned⟩
    rw [explicitForm, explicitForm, hname, hexplicits, hreturned]

@[simp] theorem text_explicitForm (s : Signature) : s.explicitForm.text = s.text := by
  simp [text]

theorem text_comp_explicitForm : text ∘ explicitForm = text := funext text_explicitForm

end Signature

namespace Stanza

def explicitForm (s : Stanza) : Stanza := { s with signature := s.signature.explicitForm }

theorem hostName_comp_explicitForm : hostName ∘ explicitForm = hostName := rfl

private theorem ofSignature_explicitForm (category : Category) (table : TypeTable) (s : Signature) :
    ofSignature category table s.explicitForm =
      (ofSignature category table s).map explicitForm := by
  have hname : HostName.ofSignature table s.explicitForm = HostName.ofSignature table s := by
    simp [HostName.ofSignature, HostName.codes]
  simp only [ofSignature, hname, Signature.explicits_explicitForm, Signature.explicitForm_name,
    Signature.explicitForm_returns_type]
  cases HostName.ofSignature table s with
  | error e => rfl
  | ok hostName =>
    cases s.explicits.mapM (parameter table s.name) with
    | error e => rfl
    | ok parameters => cases table.resolve s.returns.type s.name <;> rfl

theorem ofSignature_eq_of_explicitForm_eq {s t : Signature}
    (h : s.explicitForm = t.explicitForm) (category : Category) (table : TypeTable) :
    (ofSignature category table s).map explicitForm =
      (ofSignature category table t).map explicitForm := by
  rw [← ofSignature_explicitForm, ← ofSignature_explicitForm, h]

end Stanza

def Lowered.explicitForm (l : Lowered) : Lowered :=
  ⟨l.stanzas.map Stanza.explicitForm, l.skipped.map Stanza.explicitForm⟩

theorem lower_explicitForm (category : Category) (table : TypeTable)
    (signatures : List Signature) :
    lower category table (signatures.map Signature.explicitForm) =
      (lower category table signatures).map Lowered.explicitForm := by
  have hfunctions : (signatures.map Signature.explicitForm).mapM
        (Stanza.ofSignature category table) =
      (signatures.mapM (Stanza.ofSignature category table)).map (List.map Stanza.explicitForm) := by
    rw [List.mapM_map, ← Traversal.mapM_map_results]
    congr 1
    exact funext (Stanza.ofSignature_explicitForm category table)
  rw [lower, lower, hfunctions]
  cases signatures.mapM (Stanza.ofSignature category table) with
  | error e => rfl
  | ok all =>
    simp only [Except.map, Lowered.explicitForm, keepFirst_map_items, repeated_map_items,
      Stanza.hostName_comp_explicitForm]

namespace ModuleSpec

/-- What is seen of a rendered module: its text, and how many functions are in it and left out. -/
def outcome (m : RenderedModule) : String × Nat × Nat :=
  (m.text, m.stanzas.length, m.skipped.length)

private theorem textOf_explicitForm (spec : ModuleSpec) (table : TypeTable)
    (stanzas : List Stanza) :
    spec.textOf table (stanzas.map Stanza.explicitForm) = spec.textOf table stanzas := by
  have hdefinitions : HostModule.UnmanagedDefinition.ofStanza ∘ Stanza.explicitForm =
      HostModule.UnmanagedDefinition.ofStanza := rfl
  have hcasts : HostModule.ManagedDefinition.ofStanza ∘ Stanza.explicitForm =
      HostModule.ManagedDefinition.ofStanza := rfl
  have hused : HostModule.UnmanagedModule.usedEntries table (stanzas.map Stanza.explicitForm) =
      HostModule.UnmanagedModule.usedEntries table stanzas := by
    rw [HostModule.UnmanagedModule.usedEntries, List.flatMap_map]
    rfl
  cases h : spec.ownership with
  | unmanaged =>
    simp only [textOf, h, HostModule.UnmanagedModule.ofStanzas, hused, List.map_map, hdefinitions]
  | managed =>
    simp only [textOf, h, HostModule.ManagedModule.ofStanzas, List.map_map, hcasts]

theorem render_outcome_explicitForm (spec : ModuleSpec) (table : TypeTable)
    (signatures : List Signature) :
    (spec.render table (signatures.map Signature.explicitForm)).map outcome =
      (spec.render table signatures).map outcome := by
  rw [render, render, lower_explicitForm]
  cases lower spec.category table signatures with
  | error e => rfl
  | ok l =>
    simp only [Except.map, outcome, Lowered.explicitForm, textOf_explicitForm, List.length_map]

end ModuleSpec

/-- The explicit forms of the signatures of a category are those of the variants, each text once. -/
theorem Category.signatures_explicitForm (c : Category) (declarations : List Declaration) :
    (c.signatures declarations).map Signature.explicitForm =
      keepFirst Signature.text
        ((c.variantSignatures declarations).map Signature.explicitForm) := by
  rw [signatures, keepFirst_map_items, Signature.text_comp_explicitForm]

end NativeBindings
