import Mathlib.Data.List.InsertIdx
import Mathlib.Data.List.TakeWhile
import NativeBindings.Proofs.Signature.Explicit
import NativeBindings.TypeTable.Standard

set_option autoImplicit false
set_option relaxedAutoImplicit false

/-!
Generators leave no trace. An argument list is read from its end: the variants of a declaration are
what remains of it as defaults are left out there. A generator put into the list repeats the
explicit form of one variant right beside that variant, or repeats none, and copies are left out
where the signatures of a category are collected.
-/

namespace NativeBindings

private theorem insertIdx_eq_append {α : Type} (a : α) {xs : List α} {place : Nat}
    (h : place ≤ xs.length) : xs.insertIdx place a = xs.take place ++ a :: xs.drop place := by
  induction place generalizing xs with
  | zero => rfl
  | succ n ih =>
    cases xs with
    | nil => cases h
    | cons x xs =>
      rw [List.insertIdx_succ_cons, ih (Nat.le_of_succ_le_succ h)]
      rfl

private theorem Argument.isGenerator_of_type {a : Argument}
    (h : NativeType.ofExpr a.type = .handle .generator ∨
      NativeType.ofExpr a.type = .ptr (.handle .generator)) : a.isGenerator = true := by
  rcases h with h | h <;> rw [isGenerator, h] <;> rfl

private theorem Signature.explicitForm_ofDeclaration_congr {d e : Declaration}
    (hname : d.name = e.name)
    (hreturns : d.returns = e.returns) (hpassed : d.passed = e.passed) :
    (ofDeclaration d).explicitForm = (ofDeclaration e).explicitForm := by
  rw [explicitForm_eq_iff, explicits_ofDeclaration, explicits_ofDeclaration, hpassed]
  exact ⟨hname, rfl, by rw [ofDeclaration, ofDeclaration, hreturns]⟩

namespace Declaration

/-- A reversed argument list, and what remains of it as the defaults at its front are left out one
after the other. -/
def remains : List Argument → List (List Argument)
  | [] => [[]]
  | a :: rest => (a :: rest) :: if a.hasDefault then remains rest else []

private theorem remains_eq_map_drop (reversed : List Argument) :
    remains reversed =
      (List.range ((reversed.takeWhile Argument.hasDefault).length + 1)).map
        fun omitted => reversed.drop omitted := by
  induction reversed with
  | nil => rfl
  | cons a rest ih =>
    cases h : a.hasDefault with
    | false => simp [remains, h]
    | true =>
      rw [remains, if_pos h, ih, List.takeWhile_cons_of_pos h, List.length_cons]
      conv_rhs => rw [List.range_succ_eq_map, List.map_cons, List.map_map]
      rfl

private theorem remains_eq_cons (reversed : List Argument) :
    ∃ rest, remains reversed = reversed :: rest := by
  cases reversed with
  | nil => exact ⟨[], rfl⟩
  | cons a rest => exact ⟨_, rfl⟩

/-- The explicit form of the declaration with other arguments, given from the last to the first. -/
def formOfReversed (d : Declaration) (reversed : List Argument) : Signature :=
  (Signature.ofDeclaration { d with arguments := reversed.reverse }).explicitForm

private theorem variants_forms (d : Declaration) :
    d.variants.map (fun v => (Signature.ofDeclaration v).explicitForm) =
      (remains d.arguments.reverse).map d.formOfReversed := by
  rw [remains_eq_map_drop, variants, List.map_map, List.map_map]
  refine List.map_congr_left fun omitted _ => ?_
  simp only [Function.comp_apply, formOfReversed, truncated, List.reverse_drop,
    List.reverse_reverse, List.length_reverse]

section Insertion

variable {a : Argument} {later earlier : List Argument}

private theorem formOfReversed_generator (d : Declaration) (ha : a.isGenerator = true)
    (later earlier : List Argument) :
    d.formOfReversed (later ++ a :: earlier) = d.formOfReversed (later ++ earlier) := by
  refine Signature.explicitForm_ofDeclaration_congr rfl rfl ?_
  simp [passed, ha]

/-- A generator among the arguments repeats one explicit form beside itself, where it may be left
out, and otherwise none. -/
theorem stutters_remains (d : Declaration) (ha : a.isGenerator = true)
    (hplace : a.hasDefault = true ∨
      ((later ++ earlier).takeWhile Argument.hasDefault).length ≤ later.length) :
    Stutters ((remains (later ++ earlier)).map d.formOfReversed)
      ((remains (later ++ a :: earlier)).map d.formOfReversed) := by
  induction later with
  | nil =>
    have hsame : d.formOfReversed (a :: earlier) = d.formOfReversed earlier :=
      d.formOfReversed_generator ha [] earlier
    obtain ⟨rest, hrest⟩ := remains_eq_cons earlier
    cases hdefault : a.hasDefault with
    | true =>
      -- All that remained before remains once more behind the whole list.
      rw [List.nil_append, List.nil_append, remains, if_pos hdefault, List.map_cons, hsame, hrest]
      exact .extra (.refl _)
    | false =>
      have hnone : (earlier.takeWhile Argument.hasDefault).length = 0 := by
        simpa [hdefault] using hplace
      have hearlier : remains earlier = [earlier] := by
        rw [remains_eq_map_drop, hnone]
        rfl
      simp only [List.nil_append, remains, hdefault, hearlier, Bool.false_eq_true, if_false,
        List.map_cons, List.map_nil, hsame]
      exact .refl _
  | cons b later ih =>
    have hsame : d.formOfReversed (b :: (later ++ a :: earlier)) =
        d.formOfReversed (b :: (later ++ earlier)) :=
      d.formOfReversed_generator ha (b :: later) earlier
    rw [List.cons_append, List.cons_append, remains, remains, List.map_cons, List.map_cons, hsame]
    refine .one _ ?_
    cases hb : b.hasDefault with
    | false => exact .nil
    | true =>
      refine ih (hplace.imp_right fun hcount => ?_)
      rw [List.cons_append, List.takeWhile_cons_of_pos hb] at hcount
      exact Nat.le_of_succ_le_succ hcount

/-- The declaration with one more argument, at the given place. -/
def insertArgument (d : Declaration) (place : Nat) (a : Argument) : Declaration :=
  { d with arguments := d.arguments.insertIdx place a }

private theorem stutters_variants_insertArgument (d : Declaration) (ha : a.isGenerator = true)
    {place : Nat} (hplace : a.hasDefault = true ∨ place ≤ d.arguments.length - d.trailingDefaults) :
    Stutters (d.variants.map fun v => (Signature.ofDeclaration v).explicitForm)
      ((d.insertArgument place a).variants.map fun v =>
        (Signature.ofDeclaration v).explicitForm) := by
  rcases Nat.lt_or_ge d.arguments.length place with hbeyond | hwithin
  · rw [insertArgument, List.insertIdx_of_length_lt hbeyond]
    exact .refl _
  · have hbefore : d.arguments.reverse =
        (d.arguments.drop place).reverse ++ (d.arguments.take place).reverse := by
      rw [← List.reverse_append, List.take_append_drop]
    have hafter : (d.insertArgument place a).arguments.reverse =
        (d.arguments.drop place).reverse ++ a :: (d.arguments.take place).reverse := by
      rw [insertArgument, insertIdx_eq_append a hwithin, List.reverse_append, List.reverse_cons,
        List.append_assoc, List.singleton_append]
    rw [variants_forms, variants_forms, hafter, hbefore]
    refine stutters_remains d ha (hplace.imp_right fun hrequired => ?_)
    have hcount : (d.arguments.reverse.takeWhile Argument.hasDefault).length =
        d.trailingDefaults := rfl
    have hle := d.trailingDefaults_le
    rw [← hbefore, hcount, List.length_reverse, List.length_drop]
    omega

end Insertion

end Declaration

private theorem Category.variantSignatures_forms (c : Category) (declarations : List Declaration) :
    (c.variantSignatures declarations).map Signature.explicitForm =
      (declarations.filter c.admits).flatMap fun d =>
        d.variants.map fun v => (Signature.ofDeclaration v).explicitForm := by
  rw [variantSignatures, List.map_map, List.map_flatMap]
  rfl

private theorem Category.admits_insertArgument (c : Category) (d : Declaration) (place : Nat)
    (a : Argument) : c.admits (d.insertArgument place a) = c.admits d := by
  cases c <;> rfl

private theorem Category.signatures_forms_insertArgument (c : Category)
    (before after : List Declaration)
    (d : Declaration) {place : Nat} {a : Argument} (ha : a.isGenerator = true)
    (hplace : a.hasDefault = true ∨ place ≤ d.arguments.length - d.trailingDefaults) :
    (c.signatures (before ++ d.insertArgument place a :: after)).map Signature.explicitForm =
      (c.signatures (before ++ d :: after)).map Signature.explicitForm := by
  simp only [signatures_explicitForm, variantSignatures_forms, List.filter_append,
    List.flatMap_append, List.filter_cons, admits_insertArgument]
  split
  · exact (d.stutters_variants_insertArgument ha hplace).keepFirst_eq _ _
  · rfl

/-- A generator put into a declaration is seen neither in the texts of the signatures nor in the
module of them: in any place if it carries a default, else in front of the arguments that may be
left out. -/
theorem insertArgument_generator_unseen (c : Category) (before after : List Declaration)
    (d : Declaration) (place : Nat) (a : Argument)
    (ha : NativeType.ofExpr a.type = .handle .generator ∨
      NativeType.ofExpr a.type = .ptr (.handle .generator))
    (hplace : a.hasDefault = true ∨ place ≤ d.arguments.length - d.trailingDefaults) :
    (c.signatures (before ++ d.insertArgument place a :: after)).map Signature.text =
      (c.signatures (before ++ d :: after)).map Signature.text ∧
    ∀ (spec : ModuleSpec) (table : TypeTable),
      (spec.render table (c.signatures (before ++ d.insertArgument place a :: after))).map
          ModuleSpec.outcome =
        (spec.render table (c.signatures (before ++ d :: after))).map ModuleSpec.outcome := by
  have hforms := c.signatures_forms_insertArgument before after d
    (Argument.isGenerator_of_type ha) hplace
  constructor
  · rw [← Signature.text_comp_explicitForm, ← List.map_map, hforms, List.map_map]
  · intro spec table
    rw [← ModuleSpec.render_outcome_explicitForm, hforms, ModuleSpec.render_outcome_explicitForm]

def Declaration.uniform : Declaration where
  name := "uniform"
  overloadName := none
  arguments := [⟨"self", .ref (.name "Tensor"), none⟩,
    ⟨"from", .name "double", some (.int 0)⟩, ⟨"to", .name "double", some (.int 1)⟩]
  returns := [.name "Tensor"]
  mode := .native
  methodOf := ["namespace"]
  isFactoryMethod := none

def Argument.defaultGenerator : Argument :=
  ⟨"generator", .ptr (.name "Generator"), some (.text "nullptr")⟩

/-- Between the bounds the generator makes one more variant, but no more signatures. -/
theorem insertArgument_generator_unseen_uniform :
    NativeType.ofExpr Argument.defaultGenerator.type = .ptr (.handle .generator) ∧
    Argument.defaultGenerator.hasDefault = true ∧
    Declaration.uniform.variants.length = 3 ∧
    (Declaration.uniform.insertArgument 2 .defaultGenerator).variants.length = 4 ∧
    (Category.native.signatures [Declaration.uniform.insertArgument 2 .defaultGenerator]).map
        Signature.text =
      ["uniform(at::Tensor self, double from, double to) -> at::Tensor",
        "uniform(at::Tensor self, double from) -> at::Tensor",
        "uniform(at::Tensor self) -> at::Tensor"] ∧
    (ModuleSpec.render ⟨.standard, .native, .managed⟩ .standard
        (Category.native.signatures [Declaration.uniform.insertArgument 2 .defaultGenerator])).map
          ModuleSpec.outcome =
      (ModuleSpec.render ⟨.standard, .native, .managed⟩ .standard
        (Category.native.signatures [Declaration.uniform])).map ModuleSpec.outcome := by
  have hunseen := insertArgument_generator_unseen .native [] [] .uniform 2 .defaultGenerator
    (.inr rfl) (.inl rfl)
  simp only [List.nil_append] at hunseen
  refine ⟨rfl, rfl, by decide, by decide, ?_, hunseen.2 _ _⟩
  rw [hunseen.1]
  decide

end NativeBindings
