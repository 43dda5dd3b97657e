import NativeBindings.Proofs.Declaration.Parsed

set_option autoImplicit false
set_option relaxedAutoImplicit false

/-!
What can be read off the text of a signature. Main statement: for readable types and names that are
identifiers it tells the name, the explicit parameters and the returned type.
-/

namespace NativeBindings

open Text (Enclosed joinWith)

/-- The text is an identifier of C++. -/
def IsIdentifier (s : String) : Prop :=
  TypeExpr.Begins s.toList ∧ ∀ c ∈ s.toList, TypeExpr.isIdentChar c = true

instance (s : String) : Decidable (IsIdentifier s) :=
  decidable_of_iff (TypeExpr.Begins s.toList ∧ s.toList.all TypeExpr.isIdentChar = true)
    (by simp [IsIdentifier])

theorem IsIdentifier.isName {s : String} (h : IsIdentifier s) : TypeExpr.IsName s.toList :=
  ⟨h.1, fun c hc => TypeExpr.isQualifiedChar_of_isIdentChar (h.2 c hc)⟩

/-- The declaration and its arguments have identifiers for names. -/
def Declaration.Identified (d : Declaration) : Prop :=
  IsIdentifier d.name ∧ ∀ a ∈ d.arguments, IsIdentifier a.name

instance (d : Declaration) : Decidable d.Identified := inferInstanceAs (Decidable (_ ∧ _))

theorem Declaration.Identified.of_mem_variants {d v : Declaration} (h : d.Identified)
    (hv : v ∈ d.variants) : v.Identified := by
  obtain ⟨count, -, -, rfl⟩ := exists_truncated_of_mem_variants hv
  exact ⟨h.1, fun a ha => h.2 a (List.mem_of_mem_take ha)⟩

namespace Signature

/-- A parameter whose text shows where its type ends. -/
def LegibleParameter (p : String × NativeType) : Prop := IsIdentifier p.1 ∧ p.2.Readable

structure Legible (s : Signature) : Prop where
  name : IsIdentifier s.name
  parameters : ∀ p ∈ s.explicits, LegibleParameter p
  returned : s.returns.type.Readable

theorem legible_ofDeclaration {d : Declaration} (hd : d.Parsed) (hnames : d.Identified) :
    (ofDeclaration d).Legible := by
  obtain ⟨htypes, hreturned⟩ := readable_ofDeclaration hd
  refine ⟨hnames.1, fun p hp => ⟨?_, htypes p hp⟩, hreturned⟩
  rw [explicits_ofDeclaration] at hp
  obtain ⟨a, ha, rfl⟩ := List.mem_map.mp hp
  exact hnames.2 a (List.mem_of_mem_filter ha)

private theorem toList_parameterText (p : String × NativeType) :
    (parameterText p).toList = p.2.spelling.toList ++ ' ' :: p.1.toList := by
  simp [parameterText]

section Parameter

variable {p q : String × NativeType} (hp : LegibleParameter p)
include hp

theorem LegibleParameter.enclosed : Enclosed (parameterText p).toList := by
  rw [toList_parameterText]
  have hname : Enclosed (' ' :: p.1.toList) := by
    have hblank : Enclosed [' '] := by decide
    exact hblank.append hp.1.isName.enclosed
  exact hp.2.spelling_enclosed.append hname

private theorem LegibleParameter.paren_notMem : ')' ∉ (parameterText p).toList := by
  rw [toList_parameterText]
  intro h
  rcases List.mem_append.mp h with h | h
  · exact hp.2.notMem_spelling (by decide) (by decide) h
  · rcases List.mem_cons.mp h with h | h
    · cases h
    · exact hp.1.isName.notMem (by decide) h

private theorem parameterText_inj (hq : LegibleParameter q)
    (h : parameterText p = parameterText q) :
    p = q := by
  have htext := congrArg String.toList h
  rw [toList_parameterText, toList_parameterText] at htext
  obtain ⟨hspelling, hname⟩ := Text.append_cons_inj_last (hp.1.isName.notMem (by decide))
    (hq.1.isName.notMem (by decide)) htext
  have htype := NativeType.spelling_inj hp.2 hq.2 (String.toList_injective hspelling)
  exact Prod.ext (String.toList_injective hname) htype

end Parameter

def parametersText (ps : List (String × NativeType)) : String :=
  String.intercalate ", " (ps.map parameterText)

/-- What stands between the commas of the text of a list of parameters. -/
def parameterParts : List (String × NativeType) → List (List Char)
  | [] => []
  | p :: rest => (parameterText p).toList :: rest.map fun q => ' ' :: (parameterText q).toList

private theorem toList_parametersText (ps : List (String × NativeType)) :
    (parametersText ps).toList = joinWith ',' (parameterParts ps) := by
  cases ps with
  | nil => rfl
  | cons p rest =>
    rw [parameterParts, Text.joinWith_cons]
    induction rest generalizing p with
    | nil => simp [parametersText]
    | cons q rest ih =>
      have hrest := ih q
      simp only [parametersText, List.map_cons] at hrest
      simp [parametersText, hrest]

variable {ps qs : List (String × NativeType)}

private theorem enclosed_of_mem_parameterParts (h : ∀ p ∈ ps, LegibleParameter p) {part : List Char}
    (hpart : part ∈ parameterParts ps) : Enclosed part ∧ part ≠ [] := by
  cases ps with
  | nil => cases hpart
  | cons p rest =>
    rcases List.mem_cons.mp hpart with rfl | hpart
    · refine ⟨(h p List.mem_cons_self).enclosed, ?_⟩
      rw [toList_parameterText]
      simp
    · obtain ⟨q, hq, rfl⟩ := List.mem_map.mp hpart
      have hblank : Enclosed [' '] := by decide
      exact ⟨hblank.append (h q (List.mem_cons_of_mem _ hq)).enclosed, by simp⟩

private theorem paren_notMem_parametersText (h : ∀ p ∈ ps, LegibleParameter p) :
    ')' ∉ (parametersText ps).toList := by
  rw [toList_parametersText]
  intro hmem
  rcases Text.mem_joinWith hmem with hc | ⟨part, hpart, hc⟩
  · cases hc
  · cases ps with
    | nil => cases hpart
    | cons p rest =>
      rcases List.mem_cons.mp hpart with rfl | hpart
      · exact (h p List.mem_cons_self).paren_notMem hc
      · obtain ⟨q, hq, rfl⟩ := List.mem_map.mp hpart
        rcases List.mem_cons.mp hc with hc | hc
        · cases hc
        · exact (h q (List.mem_cons_of_mem _ hq)).paren_notMem hc

private theorem map_parameterText_inj (hp : ∀ p ∈ ps, LegibleParameter p)
    (hq : ∀ q ∈ qs, LegibleParameter q) (h : ps.map parameterText = qs.map parameterText) :
    ps = qs := by
  induction ps generalizing qs with
  | nil => simpa using h.symm
  | cons p ps ih =>
    cases qs with
    | nil => simp at h
    | cons q qs =>
      obtain ⟨hhead, htail⟩ := List.cons.inj h
      rw [parameterText_inj (hp p List.mem_cons_self) (hq q List.mem_cons_self) hhead,
        ih (fun r hr => hp r (List.mem_cons_of_mem _ hr))
          (fun r hr => hq r (List.mem_cons_of_mem _ hr)) htail]

theorem parametersText_inj (hp : ∀ p ∈ ps, LegibleParameter p)
    (hq : ∀ q ∈ qs, LegibleParameter q) (h : parametersText ps = parametersText qs) :
    ps = qs := by
  have htext := congrArg String.toList h
  rw [toList_parametersText, toList_parametersText] at htext
  have hparts := Text.joinWith_comma_inj (fun _ => enclosed_of_mem_parameterParts hp)
    (fun _ => enclosed_of_mem_parameterParts hq) htext
  refine map_parameterText_inj hp hq ?_
  cases ps with
  | nil =>
    cases qs with
    | nil => rfl
    | cons q qs => simp [parameterParts] at hparts
  | cons p ps =>
    cases qs with
    | nil => simp [parameterParts] at hparts
    | cons q qs =>
      obtain ⟨hhead, htail⟩ := List.cons.inj hparts
      have hinj : Function.Injective fun s : String => ' ' :: s.toList := fun s t hst =>
        String.toList_injective (List.cons.inj hst).2
      have hrest : ps.map parameterText = qs.map parameterText := by
        apply List.map_injective_iff.mpr hinj
        rw [List.map_map, List.map_map]
        exact htail
      rw [List.map_cons, List.map_cons, String.toList_injective hhead, hrest]

theorem toList_text (s : Signature) :
    s.text.toList = s.name.toList ++ '(' :: ((parametersText s.explicits).toList ++
      ')' :: ' ' :: '-' :: '>' :: ' ' :: s.returns.type.spelling.toList) := by
  simp [text, parametersText]

theorem text_inj {s t : Signature} (hs : s.Legible) (ht : t.Legible) (h : s.text = t.text) :
    s.name = t.name ∧ s.explicits = t.explicits ∧ s.returns.type = t.returns.type := by
  have htext := congrArg String.toList h
  rw [toList_text, toList_text] at htext
  -- The first bracket ends the name and the first closing one the parameters.
  obtain ⟨hname, hrest⟩ := Text.append_cons_inj (hs.name.isName.notMem (by decide))
    (ht.name.isName.notMem (by decide)) htext
  obtain ⟨hparameters, htail⟩ := Text.append_cons_inj (paren_notMem_parametersText hs.parameters)
    (paren_notMem_parametersText ht.parameters) hrest
  have hspelling : s.returns.type.spelling = t.returns.type.spelling :=
    String.toList_injective (by simpa using htail)
  exact ⟨String.toList_injective hname,
    parametersText_inj hs.parameters ht.parameters (String.toList_injective hparameters),
    NativeType.spelling_inj hs.returned ht.returned hspelling⟩

theorem types_eq_of_text_eq {s t : Signature} (hs : s.Legible) (ht : t.Legible)
    (h : s.text = t.text) : s.types = t.types := by
  obtain ⟨-, hexplicits, hreturned⟩ := text_inj hs ht h
  rw [types, types, hexplicits, hreturned]

end Signature

end NativeBindings
