import NativeBindings.Proofs.Declaration.Variants
import NativeBindings.Proofs.Signature.Collect

set_option autoImplicit false
set_option relaxedAutoImplicit false

/-!
Variants of variants. Main statement: the variants of a variant are the variants of the declaration
from that one on, and have a misplaced default just if the declaration has one; a list of
declarations in which each is replaced by its variants has the same signatures.
-/

namespace NativeBindings

namespace Declaration

variable {d v : Declaration} {count : Nat}

/-- The last arguments, so many of them, carry defaults, and the one before them does not. -/
def EndsInDefaults (d : Declaration) (count : Nat) : Prop :=
  ∃ kept omissible, d.arguments = kept ++ omissible ∧ omissible.length = count ∧
    (∀ a ∈ omissible, a.hasDefault = true) ∧ ∀ a, kept.getLast? = some a → a.hasDefault = false

private theorem EndsInDefaults.trailingDefaults_eq (h : d.EndsInDefaults count) :
    d.trailingDefaults = count := by
  obtain ⟨kept, omissible, harguments, rfl, homissible, hkept⟩ := h
  have hstop : kept.reverse.takeWhile Argument.hasDefault = [] := by
    rw [← List.head?_reverse] at hkept
    cases hlast : kept.reverse with
    | nil => rfl
    | cons a rest =>
      have ha := hkept a (by rw [hlast, List.head?_cons])
      rw [List.takeWhile_cons_of_neg (by simp [ha])]
  have hall : ∀ a ∈ omissible.reverse, a.hasDefault = true :=
    fun a ha => homissible a (List.mem_reverse.mp ha)
  rw [trailingDefaults, harguments, List.reverse_append, List.takeWhile_append_of_pos hall, hstop,
    List.append_nil, List.length_reverse]

private theorem endsInDefaults_trailingDefaults (d : Declaration) :
    d.EndsInDefaults d.trailingDefaults := by
  refine ⟨d.arguments.take d.requiredCount, d.arguments.drop d.requiredCount,
    (List.take_append_drop _ _).symm, ?_, fun a => hasDefault_of_mem_drop le_rfl, ?_⟩
  · have hle := d.trailingDefaults_le
    rw [List.length_drop, requiredCount]
    omega
  · intro a ha
    rw [take_requiredCount, List.getLast?_reverse] at ha
    have hnot := List.head?_dropWhile_not Argument.hasDefault d.arguments.reverse
    rw [ha] at hnot
    simpa using hnot

private theorem endsInDefaults_iff : d.EndsInDefaults count ↔ count = d.trailingDefaults := by
  constructor
  · intro h
    exact h.trailingDefaults_eq.symm
  · rintro rfl
    exact d.endsInDefaults_trailingDefaults

theorem trailingDefaults_truncated (hrequired : d.requiredCount ≤ count)
    (hcount : count ≤ d.arguments.length) :
    (d.truncated count).trailingDefaults = count - d.requiredCount := by
  obtain ⟨kept, omissible, harguments, hlength, homissible, hkept⟩ :=
    d.endsInDefaults_trailingDefaults
  have hsum : d.arguments.length = kept.length + omissible.length := by
    rw [harguments, List.length_append]
  have hrequired' : d.requiredCount = kept.length := by
    rw [requiredCount, hsum, ← hlength]
    omega
  refine EndsInDefaults.trailingDefaults_eq
    ⟨kept, omissible.take (count - kept.length), ?_, ?_, ?_, hkept⟩
  · rw [truncated, harguments, List.take_append, List.take_of_length_le (by omega)]
  · rw [List.length_take]
    omega
  · intro a ha
    exact homissible a (List.mem_of_mem_take ha)

theorem requiredCount_truncated (hrequired : d.requiredCount ≤ count)
    (hcount : count ≤ d.arguments.length) :
    (d.truncated count).requiredCount = d.requiredCount := by
  have hlength : (d.truncated count).arguments.length = count := by
    rw [truncated, List.length_take, Nat.min_eq_left hcount]
  rw [requiredCount, trailingDefaults_truncated hrequired hcount, hlength]
  omega

theorem truncated_truncated {fewer : Nat} (h : fewer ≤ count) :
    (d.truncated count).truncated fewer = d.truncated fewer := by
  simp only [truncated, List.take_take, Nat.min_eq_left h]

theorem length_variants (d : Declaration) : d.variants.length = d.trailingDefaults + 1 := by
  rw [variants, List.length_map, List.length_range]

theorem getElem_variants {i : Nat} (h : i < d.variants.length) :
    d.variants[i] = d.truncated (d.arguments.length - i) := by
  simp [variants]

private theorem variants_getElem {i : Nat} (h : i < d.variants.length) :
    d.variants[i].variants = d.variants.drop i := by
  have hle := d.trailingDefaults_le
  have hlt : i ≤ d.trailingDefaults := by
    rw [length_variants] at h
    omega
  have hrequired : d.requiredCount ≤ d.arguments.length - i := Nat.sub_le_sub_left hlt _
  have hlength : (d.truncated (d.arguments.length - i)).arguments.length =
      d.arguments.length - i := by
    rw [truncated, List.length_take, Nat.min_eq_left (Nat.sub_le _ _)]
  have htrailing : (d.truncated (d.arguments.length - i)).trailingDefaults =
      d.trailingDefaults - i := by
    rw [trailingDefaults_truncated hrequired (Nat.sub_le _ _), requiredCount]
    omega
  rw [getElem_variants h]
  apply List.ext_getElem
  · rw [length_variants, htrailing, List.length_drop, length_variants]
    omega
  · intro j hj hj'
    rw [getElem_variants hj, List.getElem_drop, getElem_variants, hlength,
      truncated_truncated (Nat.sub_le _ _), Nat.sub_sub]

private theorem mem_variants_of_mem_variants {w : Declaration} (hv : v ∈ d.variants)
    (hw : w ∈ v.variants) : w ∈ d.variants := by
  obtain ⟨i, hi, rfl⟩ := List.mem_iff_getElem.mp hv
  rw [variants_getElem hi] at hw
  exact List.mem_of_mem_drop hw

private theorem hasMisplacedDefault_of_mem_variants (h : v ∈ d.variants) :
    v.hasMisplacedDefault = d.hasMisplacedDefault := by
  obtain ⟨count, hrequired, hcount, rfl⟩ := exists_truncated_of_mem_variants h
  rw [hasMisplacedDefault, requiredCount_truncated hrequired hcount, truncated, List.take_take,
    Nat.min_eq_left hrequired, hasMisplacedDefault]

end Declaration

private theorem Category.admits_of_mem_variants (c : Category) {d v : Declaration}
    (h : v ∈ d.variants) :
    c.admits v = c.admits d := by
  obtain ⟨count, -, -, rfl⟩ := Declaration.exists_truncated_of_mem_variants h
  cases c <;> rfl

private theorem Category.filter_admits_flatMap_variants (c : Category)
    (declarations : List Declaration) :
    (declarations.flatMap Declaration.variants).filter c.admits =
      (declarations.filter c.admits).flatMap Declaration.variants := by
  induction declarations with
  | nil => rfl
  | cons d rest ih =>
    rw [List.flatMap_cons, List.filter_append, ih]
    cases hd : c.admits d with
    | true =>
      have hall : ∀ v ∈ d.variants, c.admits v = true :=
        fun v hv => (c.admits_of_mem_variants hv).trans hd
      rw [List.filter_eq_self.mpr hall, List.filter_cons_of_pos hd, List.flatMap_cons]
    | false =>
      have hnone : ∀ v ∈ d.variants, ¬ c.admits v = true := by
        intro v hv
        simp [c.admits_of_mem_variants hv, hd]
      rw [List.filter_eq_nil_iff.mpr hnone, List.filter_cons_of_neg (by simp [hd]), List.nil_append]

private theorem signaturesOf_append (ds es : List Declaration) :
    signaturesOf (ds ++ es) = signaturesOf ds ++ signaturesOf es := by
  rw [signaturesOf, List.flatMap_append, List.map_append]
  rfl

/-- The signatures of the variants of a declaration are its own ones, and repetitions of them. -/
theorem exists_signaturesOf_variants (d : Declaration) :
    ∃ extra, signaturesOf d.variants = signaturesOf [d] ++ extra ∧
      ∀ s ∈ extra, s ∈ signaturesOf [d] := by
  obtain ⟨others, hothers⟩ := d.variants_eq_cons
  refine ⟨signaturesOf others, ?_, ?_⟩
  · conv_lhs => rw [hothers]
    exact signaturesOf_append [d] others
  · intro s hs
    obtain ⟨v, hv, w, hw, rfl⟩ := mem_signaturesOf.mp hs
    have hmem : v ∈ d.variants := by
      rw [hothers]
      exact List.mem_cons_of_mem _ hv
    exact mem_signaturesOf.mpr
      ⟨d, List.mem_singleton_self d, w, Declaration.mem_variants_of_mem_variants hmem hw, rfl⟩

private theorem keepFirst_signaturesOf_flatMap_variants (before : List Signature)
    (ds : List Declaration) :
    keepFirst Signature.text (before ++ signaturesOf (ds.flatMap Declaration.variants)) =
      keepFirst Signature.text (before ++ signaturesOf ds) := by
  induction ds generalizing before with
  | nil => rfl
  | cons d ds ih =>
    obtain ⟨extra, hextra, hrepeated⟩ := exists_signaturesOf_variants d
    have hseen : ∀ s ∈ extra, s.text ∈ (before ++ signaturesOf [d]).map Signature.text :=
      fun s hs => List.mem_map_of_mem (List.mem_append_right _ (hrepeated s hs))
    have hcons : signaturesOf (d :: ds) = signaturesOf [d] ++ signaturesOf ds :=
      signaturesOf_append [d] ds
    rw [List.flatMap_cons, signaturesOf_append, hextra, List.append_assoc, ← List.append_assoc,
      keepFirst_append_of_mem hseen, ih, hcons, List.append_assoc]

private theorem Category.signatures_flatMap_variants (c : Category)
    (declarations : List Declaration) :
    c.signatures (declarations.flatMap Declaration.variants) = c.signatures declarations := by
  have hvariants := keepFirst_signaturesOf_flatMap_variants [] (declarations.filter c.admits)
  rw [← c.filter_admits_flatMap_variants] at hvariants
  exact hvariants

/-- Expansion is closed under itself. A declaration ends in one number of defaults; it has one
variant for each number of them that is left out, with everything else kept. The variants of a
variant are those from it on, all of them have a misplaced default or none, and a list of
declarations may be replaced by all variants of them without a change to its signatures. -/
theorem variants_closed (d : Declaration) :
    ∃ count, (∀ k, d.EndsInDefaults k ↔ k = count) ∧
      d.variants = (List.range (count + 1)).map (fun omitted =>
        ⟨d.name, d.overloadName, d.arguments.take (d.arguments.length - omitted), d.returns, d.mode,
          d.methodOf, d.isFactoryMethod⟩) ∧
      (∀ i (h : i < d.variants.length), d.variants[i].variants = d.variants.drop i) ∧
      (∀ v ∈ d.variants, (v.hasMisplacedDefault = true ↔ d.hasMisplacedDefault = true)) ∧
      (d.hasMisplacedDefault = true ↔ d.DefaultMisplaced) ∧
      ∀ (c : Category) (declarations : List Declaration),
        c.signatures (declarations.flatMap Declaration.variants) = c.signatures declarations := by
  refine ⟨d.trailingDefaults, fun k => Declaration.endsInDefaults_iff, rfl,
    fun i => Declaration.variants_getElem, ?_, Declaration.hasMisplacedDefault_iff,
    Category.signatures_flatMap_variants⟩
  intro v hv
  rw [Declaration.hasMisplacedDefault_of_mem_variants hv]

/-- A function with a default in front of a required argument and two defaults behind it. -/
def Declaration.bounded : Declaration where
  name := "bounded"
  overloadName := some "out"
  arguments := [⟨"self", .ref (.name "Tensor"), some (.text "none")⟩, ⟨"low", .name "Scalar", none⟩,
    ⟨"high", .name "Scalar", some (.int 1)⟩, ⟨"strict", .name "bool", some (.bool true)⟩]
  returns := [.name "Tensor"]
  mode := .native
  methodOf := ["namespace"]
  isFactoryMethod := none

/-- The second variant has two variants itself, and expanding all of them adds no signature. -/
theorem variants_closed_bounded :
    Declaration.bounded.EndsInDefaults 2 ∧
    Declaration.bounded.variants.map (·.arguments.length) = [4, 3, 2] ∧
    (∃ h : 1 < Declaration.bounded.variants.length,
      Declaration.bounded.variants[1].variants = Declaration.bounded.variants.drop 1 ∧
      Declaration.bounded.variants[1].hasMisplacedDefault = true) ∧
    Category.native.signatures ([.bounded, .bounded].flatMap Declaration.variants) =
      Category.native.signatures [.bounded, .bounded] := by
  obtain ⟨count, hcount, -, htails, hmisplaced, -, hsignatures⟩ :=
    variants_closed Declaration.bounded
  have htwo : 2 = Declaration.bounded.trailingDefaults := by decide
  have hone : 1 < Declaration.bounded.variants.length := by decide
  have hends : Declaration.bounded.EndsInDefaults 2 := Declaration.endsInDefaults_iff.mpr htwo
  refine ⟨hends, by decide, ⟨hone, htails 1 hone, ?_⟩, hsignatures .native [.bounded, .bounded]⟩
  exact (hmisplaced _ (List.getElem_mem hone)).mpr (by decide)

end NativeBindings
