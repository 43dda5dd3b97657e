import NativeBindings.Proofs.Signature.Explicit
import NativeBindings.Proofs.Signature.Text

set_option autoImplicit false
set_option relaxedAutoImplicit false

/-!
The text of a signature is a faithful key. Main statement: for declarations with readable types and
identifiers for names it tells the explicit form and no more, so that of two signatures of the same
text nothing but a repeated function is lost.
-/

namespace NativeBindings.Signature

theorem text_eq_iff {s t : Signature} (hs : s.Legible) (ht : t.Legible) :
    s.text = t.text ↔
      s.name = t.name ∧ s.explicits = t.explicits ∧ s.returns.type = t.returns.type := by
  constructor
  · exact text_inj hs ht
  · intro h
    rw [← text_explicitForm s, explicitForm_eq_iff.mpr h, text_explicitForm]

/-- What becomes of a signature behind others where each text is kept once: it is kept, or it leaves
no trace and a function with its explicit form was kept before. -/
def KeptOrRepeated (before : List Signature) (s : Signature) (after : List Signature) : Prop :=
  (∃ rest, keepFirst text (before ++ s :: after) = keepFirst text before ++ s :: rest) ∨
    (keepFirst text (before ++ s :: after) = keepFirst text (before ++ after) ∧
      ∃ kept ∈ keepFirst text before, ∀ category table,
        (Stanza.ofSignature category table s).map Stanza.explicitForm =
          (Stanza.ofSignature category table kept).map Stanza.explicitForm)

theorem keptOrRepeated {before after : List Signature} {s : Signature}
    (hbefore : ∀ b ∈ before, b.Legible) (hs : s.Legible) : KeptOrRepeated before s after := by
  by_cases hnew : s.text ∈ before.map text
  · obtain ⟨kept, hkept, htext⟩ := exists_mem_keepFirst hnew
    have hform : s.explicitForm = kept.explicitForm := explicitForm_eq_iff.mpr
      ((text_eq_iff hs (hbefore kept (mem_of_mem_keepFirst hkept))).mp htext.symm)
    exact .inr ⟨keepFirst_append_cons_of_mem hnew after, kept, hkept,
      Stanza.ofSignature_eq_of_explicitForm_eq hform⟩
  · refine .inl (exists_keepFirst_append_cons (fun b hb heq => hnew ?_) after)
    exact List.mem_map.mpr ⟨b, hb, heq⟩

/-- The texts of the signatures of two declarations are equal just if the names, the explicit
parameters and the returned types are. Where each text is kept once, a signature is left out only if
a signature that gives the same function is kept before it. -/
theorem text_faithful :
    (∀ d₁ d₂ : Declaration, d₁.Parsed → d₁.Identified → d₂.Parsed → d₂.Identified →
      ((ofDeclaration d₁).text = (ofDeclaration d₂).text ↔
        (ofDeclaration d₁).name = (ofDeclaration d₂).name ∧
        (ofDeclaration d₁).explicits = (ofDeclaration d₂).explicits ∧
        (ofDeclaration d₁).returns.type = (ofDeclaration d₂).returns.type)) ∧
    ∀ ds : List Declaration, (∀ d ∈ ds, d.Parsed ∧ d.Identified) →
      ∀ before s after, ds.map ofDeclaration = before ++ s :: after →
        KeptOrRepeated before s after := by
  constructor
  · intro d₁ d₂ hparsed₁ hnames₁ hparsed₂ hnames₂
    exact text_eq_iff (legible_ofDeclaration hparsed₁ hnames₁)
      (legible_ofDeclaration hparsed₂ hnames₂)
  · intro ds hds before s after hsplit
    have hlegible : ∀ t ∈ before ++ s :: after, t.Legible := by
      rw [← hsplit]
      intro t ht
      obtain ⟨d, hd, rfl⟩ := List.mem_map.mp ht
      exact legible_ofDeclaration (hds d hd).1 (hds d hd).2
    exact keptOrRepeated (fun b hb => hlegible b (List.mem_append_left _ hb)) (hlegible s (by simp))

def maxWithIndices : Declaration where
  name := "max"
  overloadName := some "dim"
  arguments := [⟨"self", .ref (.name "Tensor"), none⟩, ⟨"g", .ptr (.name "Generator"), none⟩,
    ⟨"dim", .name "IntList", none⟩]
  returns := [.name "Tensor", .ref (.name "at::Tensor")]
  mode := .native
  methodOf := ["namespace"]
  isFactoryMethod := none

def maxAsPair : Declaration where
  name := "max"
  overloadName := none
  arguments := [⟨"self", .name "at::Tensor", none⟩,
    ⟨"dim", .app "std::vector" [.type (.name "int64_t")], none⟩]
  returns := [.app "std::tuple" [.type (.name "Tensor"), .type (.name "Tensor")]]
  mode := .th
  methodOf := []
  isFactoryMethod := none

theorem text_faithful_max :
    (∀ d ∈ [maxWithIndices, maxAsPair], d.Parsed ∧ d.Identified) ∧
    (ofDeclaration maxWithIndices).text = (ofDeclaration maxAsPair).text ∧
    (ofDeclaration maxWithIndices).text =
      "max(at::Tensor self, std::vector<int64_t> dim) -> std::tuple<at::Tensor,at::Tensor>" ∧
    KeptOrRepeated [ofDeclaration maxWithIndices] (ofDeclaration maxAsPair) [] := by
  have hboth : ∀ d ∈ [maxWithIndices, maxAsPair], d.Parsed ∧ d.Identified := by decide
  obtain ⟨hparsed₁, hnames₁⟩ := hboth maxWithIndices (by simp)
  obtain ⟨hparsed₂, hnames₂⟩ := hboth maxAsPair (by simp)
  obtain ⟨hiff, hkept⟩ := text_faithful
  refine ⟨hboth, ?_, by decide, hkept _ hboth [_] _ [] rfl⟩
  exact (hiff _ _ hparsed₁ hnames₁ hparsed₂ hnames₂).mpr ⟨rfl, rfl, rfl⟩

end NativeBindings.Signature
