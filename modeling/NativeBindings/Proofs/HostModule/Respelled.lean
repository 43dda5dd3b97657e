import NativeBindings.HostModule.Render
import NativeBindings.Proofs.Declaration.Variants
import NativeBindings.Proofs.NativeType.Values
import NativeBindings.Proofs.Traversal
import NativeBindings.Signature.Collect

set_option autoImplicit false
set_option relaxedAutoImplicit false

/-!
Decorations of types leave no trace in the output. Main statement: two type texts with the same
tokens besides `const`, `&` and extents are both unmapped, or they stand for the same type with the
same entry, and one may take the place of the other wherever a declaration uses it.
-/

namespace NativeBindings

/-- A type in whose place another one may have come, which is one of two types for the other. -/
def TypeExpr.Exchanged (t₁ t₂ t u : TypeExpr) : Prop :=
  t = u ∨ t = t₁ ∧ u = t₂ ∨ t = t₂ ∧ u = t₁

structure Argument.Exchanged (t₁ t₂ : TypeExpr) (a b : Argument) : Prop where
  name : a.name = b.name
  type : TypeExpr.Exchanged t₁ t₂ a.type b.type
  defaultValue : a.defaultValue = b.defaultValue

/-- Two declarations that differ only where one has one of two types and one the other. -/
structure Declaration.Exchanged (t₁ t₂ : TypeExpr) (d e : Declaration) : Prop where
  arguments : List.Forall₂ (Argument.Exchanged t₁ t₂) d.arguments e.arguments
  returns : List.Forall₂ (TypeExpr.Exchanged t₁ t₂) d.returns e.returns
  rest : e = { d with arguments := e.arguments, returns := e.returns }

namespace Declaration

private theorem trailingDefaults_eq_of_map {d e : Declaration}
    (h : d.arguments.map Argument.hasDefault = e.arguments.map Argument.hasDefault) :
    d.trailingDefaults = e.trailingDefaults := by
  have hcount : ∀ c : Declaration, c.trailingDefaults =
      ((c.arguments.map Argument.hasDefault).reverse.takeWhile id).length := by
    intro c
    rw [trailingDefaults, ← List.map_reverse, List.takeWhile_map, List.length_map]
    rfl
  rw [hcount, hcount, h]

private theorem ofDeclaration_truncated (d : Declaration) (count : Nat) :
    Signature.ofDeclaration (d.truncated count) =
      ⟨d.name, (d.arguments.map Argument.parameter).take count,
        .ofTypes (d.returns.map NativeType.ofExpr)⟩ := by
  rw [← List.map_take]
  rfl

/-- The signatures of the variants depend on how the types are read, and on which arguments carry a
default. -/
theorem variants_signatures_congr {d e : Declaration} (hname : d.name = e.name)
    (hparameters : d.arguments.map Argument.parameter = e.arguments.map Argument.parameter)
    (hdefaults : d.arguments.map Argument.hasDefault = e.arguments.map Argument.hasDefault)
    (hreturns : d.returns.map NativeType.ofExpr = e.returns.map NativeType.ofExpr) :
    d.variants.map Signature.ofDeclaration = e.variants.map Signature.ofDeclaration := by
  have hlength : d.arguments.length = e.arguments.length := by
    simpa using congrArg List.length hdefaults
  rw [variants, variants, List.map_map, List.map_map, trailingDefaults_eq_of_map hdefaults]
  refine List.map_congr_left fun omitted _ => ?_
  simp only [Function.comp_apply, ofDeclaration_truncated, hname, hparameters, hreturns, hlength]

namespace Exchanged

variable {t₁ t₂ : TypeExpr} {d e : Declaration}

private theorem ofExpr_eq (h : NativeType.ofExpr t₁ = NativeType.ofExpr t₂) {t u : TypeExpr}
    (htu : TypeExpr.Exchanged t₁ t₂ t u) : NativeType.ofExpr t = NativeType.ofExpr u := by
  rcases htu with rfl | ⟨rfl, rfl⟩ | ⟨rfl, rfl⟩
  · rfl
  · exact h
  · exact h.symm

private theorem parameter_eq (h : NativeType.ofExpr t₁ = NativeType.ofExpr t₂) {a b : Argument}
    (hab : Argument.Exchanged t₁ t₂ a b) : a.parameter = b.parameter := by
  rw [Argument.parameter, Argument.parameter, ofExpr_eq h hab.type, hab.name]

private theorem hasDefault_eq {a b : Argument} (hab : Argument.Exchanged t₁ t₂ a b) :
    a.hasDefault = b.hasDefault := by
  rw [Argument.hasDefault, Argument.hasDefault, hab.defaultValue]

private theorem variants_signatures (h : NativeType.ofExpr t₁ = NativeType.ofExpr t₂)
    (hde : d.Exchanged t₁ t₂ e) :
    d.variants.map Signature.ofDeclaration = e.variants.map Signature.ofDeclaration := by
  refine variants_signatures_congr ?_ ?_ ?_ ?_
  · rw [hde.rest]
  · exact Traversal.map_eq_of_forall₂ hde.arguments fun _ _ => parameter_eq h
  · exact Traversal.map_eq_of_forall₂ hde.arguments fun _ _ => hasDefault_eq
  · exact Traversal.map_eq_of_forall₂ hde.returns fun _ _ => ofExpr_eq h

private theorem ofDeclaration_eq (h : NativeType.ofExpr t₁ = NativeType.ofExpr t₂)
    (hde : d.Exchanged t₁ t₂ e) : Signature.ofDeclaration d = Signature.ofDeclaration e := by
  obtain ⟨ds, hds⟩ := d.variants_eq_cons
  obtain ⟨es, hes⟩ := e.variants_eq_cons
  have hvariants := variants_signatures h hde
  rw [hds, hes] at hvariants
  exact (List.cons.inj hvariants).1

private theorem admits_eq (c : Category) (hde : d.Exchanged t₁ t₂ e) : c.admits d = c.admits e := by
  rw [hde.rest]
  rfl

private theorem variantSignatures_eq (h : NativeType.ofExpr t₁ = NativeType.ofExpr t₂)
    (c : Category)
    {ds es : List Declaration} (hall : List.Forall₂ (Declaration.Exchanged t₁ t₂) ds es) :
    c.variantSignatures ds = c.variantSignatures es := by
  induction hall with
  | nil => rfl
  | @cons d e ds es hde _ ih =>
    simp only [Category.variantSignatures, List.filter_cons, admits_eq c hde] at ih ⊢
    split
    · rw [List.flatMap_cons, List.flatMap_cons, List.map_append, List.map_append, ih,
        variants_signatures h hde]
    · exact ih

private theorem signatures_eq (h : NativeType.ofExpr t₁ = NativeType.ofExpr t₂) (c : Category)
    {ds es : List Declaration} (hall : List.Forall₂ (Declaration.Exchanged t₁ t₂) ds es) :
    c.signatures ds = c.signatures es := by
  rw [Category.signatures, Category.signatures, variantSignatures_eq h c hall]

end Exchanged

end Declaration

open TypeTable (standard)

/-- Two type texts with the same tokens besides `const`, `&` and extents are both unmapped, or they
stand for the same type with the same entry. Then one may take the place of the other in arguments
and returned values: the signatures, the host names and the modules stay as they are. -/
theorem value_forms_irrelevant (s₁ s₂ : String) (t₁ t₂ : TypeExpr)
    (h₁ : TypeExpr.parse s₁ = .ok t₁) (h₂ : TypeExpr.parse s₂ = .ok t₂)
    (halike : TypeExpr.Alike s₁ s₂) :
    (∀ function, (∃ unmapped, standard.resolve (.ofExpr t₁) function = .error unmapped) ∧
      ∃ unmapped, standard.resolve (.ofExpr t₂) function = .error unmapped) ∨
    (NativeType.ofExpr t₁ = NativeType.ofExpr t₂ ∧
      (∃ entry, ∀ function, standard.resolve (.ofExpr t₁) function = .ok entry ∧
        standard.resolve (.ofExpr t₂) function = .ok entry) ∧
      (NativeType.ofExpr t₁).isPtr = (NativeType.ofExpr t₂).isPtr ∧
      (∀ d e : Declaration, d.Exchanged t₁ t₂ e →
        (Signature.ofDeclaration d).text = (Signature.ofDeclaration e).text ∧
        ∀ table, HostName.ofSignature table (.ofDeclaration d) =
          HostName.ofSignature table (.ofDeclaration e)) ∧
      ∀ ds es : List Declaration, List.Forall₂ (Declaration.Exchanged t₁ t₂) ds es →
        (∀ c : Category, (c.signatures ds).map Signature.text =
          (c.signatures es).map Signature.text) ∧
        ∀ (spec : ModuleSpec) (table : TypeTable),
          spec.render table (spec.category.signatures ds) =
            spec.render table (spec.category.signatures es)) := by
  have hnamed₁ := TypeExpr.parse_wellNamed h₁
  have hnamed₂ := TypeExpr.parse_wellNamed h₂
  have hvalue := TypeExpr.value_eq_of_alike h₁ h₂ halike
  by_cases hmaps : standard.Maps (.ofExpr t₁) ∨ standard.Maps (.ofExpr t₂)
  · have hsame : NativeType.ofExpr t₁ = NativeType.ofExpr t₂ :=
      (NativeType.eq_or_not_maps_of_value_eq hnamed₁ hnamed₂ hvalue).resolve_right fun hneither =>
        hmaps.elim hneither.1 hneither.2
    have hmaps₂ : standard.Maps (.ofExpr t₂) := hmaps.elim (fun h => hsame ▸ h) id
    obtain ⟨entry, hentry⟩ := (TypeTable.exists_resolve_iff "").mpr hmaps₂
    have hresolve : ∀ function, standard.resolve (.ofExpr t₂) function = .ok entry :=
      fun function => TypeTable.resolve_eq_ok_iff.mpr (TypeTable.resolve_eq_ok_iff.mp hentry)
    refine .inr ⟨hsame, ⟨entry, fun function => ⟨?_, hresolve function⟩⟩, by rw [hsame], ?_, ?_⟩
    · rw [hsame]
      exact hresolve function
    · intro d e hde
      rw [Declaration.Exchanged.ofDeclaration_eq hsame hde]
      exact ⟨rfl, fun table => rfl⟩
    · intro ds es hall
      have hsignatures := fun c => Declaration.Exchanged.signatures_eq hsame c hall
      exact ⟨fun c => by rw [hsignatures], fun spec table => by rw [hsignatures]⟩
  · obtain ⟨hunmapped₁, hunmapped₂⟩ := not_or.mp hmaps
    exact .inl fun function => ⟨⟨_, TypeTable.resolve_of_not_maps hunmapped₁ function⟩,
      _, TypeTable.resolve_of_not_maps hunmapped₂ function⟩

def TypeExpr.plainList : TypeExpr := .app "std::vector" [.type (.name "Tensor")]

def TypeExpr.decoratedList : TypeExpr :=
  .ref (.app "std::vector" [.type (.ref (.name "Tensor"))])

def Declaration.broadcast (list : TypeExpr) : Declaration where
  name := "broadcast_tensors"
  overloadName := none
  arguments := [⟨"tensors", list, none⟩]
  returns := [list]
  mode := .native
  methodOf := ["namespace"]
  isFactoryMethod := none

private theorem parse_plainList :
    TypeExpr.parse "std::vector<Tensor>" = .ok TypeExpr.plainList :=
  TypeExpr.parse_of_tokens [.name "std::vector", .less, .name "Tensor", .greater]
    (by decide +kernel) rfl (by decide)

private theorem parse_decoratedList :
    TypeExpr.parse "const std::vector<const Tensor [3] &> &" = .ok TypeExpr.decoratedList :=
  TypeExpr.parse_of_tokens
    [.name "const", .name "std::vector", .less, .name "const", .name "Tensor", .openBracket,
      .number 3, .closeBracket, .ampersand, .greater, .ampersand]
    (by decide +kernel) rfl (by decide)

private theorem broadcast_exchanged :
    (Declaration.broadcast .decoratedList).Exchanged .decoratedList .plainList
      (.broadcast .plainList) where
  arguments := .cons ⟨rfl, .inr (.inl ⟨rfl, rfl⟩), rfl⟩ .nil
  returns := .cons (.inr (.inl ⟨rfl, rfl⟩)) .nil
  rest := rfl

/-- Decorations of a list and of what it holds are not seen in a module. -/
theorem value_forms_irrelevant_list :
    TypeExpr.parse "const std::vector<const Tensor [3] &> &" = .ok TypeExpr.decoratedList ∧
    TypeExpr.parse "std::vector<Tensor>" = .ok TypeExpr.plainList ∧
    TypeExpr.Alike "const std::vector<const Tensor [3] &> &" "std::vector<Tensor>" ∧
    (∃ entry, entry.native = "std::vector<at::Tensor>" ∧
      standard.resolve (.ofExpr .decoratedList) "f" = .ok entry ∧
      standard.resolve (.ofExpr .plainList) "f" = .ok entry) ∧
    (ModuleSpec.render ⟨.standard, .native, .managed⟩ standard
        (Category.native.signatures [.broadcast .decoratedList])) =
      (ModuleSpec.render ⟨.standard, .native, .managed⟩ standard
        (Category.native.signatures [.broadcast .plainList])) := by
  have halike : TypeExpr.Alike "const std::vector<const Tensor [3] &> &" "std::vector<Tensor>" := by
    decide +kernel
  refine ⟨parse_decoratedList, parse_plainList, halike, ?_⟩
  rcases value_forms_irrelevant _ _ _ _ parse_decoratedList parse_plainList halike with
    hneither | ⟨-, ⟨entry, hentry⟩, -, -, hmodules⟩
  · obtain ⟨-, unmapped, hunmapped⟩ := hneither "f"
    have hmapped : standard.Maps (.ofExpr .plainList) := by decide
    obtain ⟨entry, hentry⟩ := (TypeTable.exists_resolve_iff "f").mpr hmapped
    rw [hunmapped] at hentry
    cases hentry
  · obtain ⟨hdecorated, hplain⟩ := hentry "f"
    refine ⟨⟨entry, ?_, hdecorated, hplain⟩, ?_⟩
    · exact (TypeTable.of_resolve_eq_ok hplain).2
    · exact (hmodules _ _ (.cons broadcast_exchanged .nil)).2 ⟨.standard, .native, .managed⟩
        standard

end NativeBindings
