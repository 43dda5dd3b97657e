import Mathlib.Data.List.Pairwise
import NativeBindings.HostName
import NativeBindings.Proofs.Declaration.Parsed
import NativeBindings.Proofs.Traversal
import NativeBindings.Proofs.TypeTable.Resolution
import NativeBindings.TypeTable.Standard

set_option autoImplicit false
set_option relaxedAutoImplicit false

/-!
What can be read off the host name of a function. Main statement: with prefix-free codes it is
exactly the host form of the name and, parameter by parameter, the pointer mark and the table entry.
-/

namespace NativeBindings

/-- The codes of a table can be told apart wherever they follow each other behind an underscore. -/
structure TypeTable.UniquelyCoded (t : TypeTable) : Prop where
  natives : t.entries.Pairwise fun a b => a.native ≠ b.native
  prefixFree : t.entries.Pairwise fun a b =>
    ¬ a.code.toList <+: b.code.toList ∧ ¬ b.code.toList <+: a.code.toList
  nonempty : ∀ e ∈ t.entries, e.code.toList ≠ []
  unmarked : ∀ e ∈ t.entries, e.code.toList.head? ≠ some 'p'
  plain : ∀ e ∈ t.entries, '_' ∉ e.code.toList

theorem TypeTable.standard_uniquelyCoded : TypeTable.standard.UniquelyCoded where
  natives := by decide
  prefixFree := by decide
  nonempty := by decide
  unmarked := by decide
  plain := by decide

private theorem TypeTable.UniquelyCoded.eq_of_prefix {t : TypeTable} (h : t.UniquelyCoded)
    {a b : TypeEntry} (ha : a ∈ t.entries) (hb : b ∈ t.entries)
    (hp : a.code.toList <+: b.code.toList) : a = b := by
  by_contra hne
  have hsymm : Std.Symm fun a b : TypeEntry =>
      ¬ a.code.toList <+: b.code.toList ∧ ¬ b.code.toList <+: a.code.toList :=
    ⟨fun _ _ hab => hab.symm⟩
  exact (h.prefixFree.forall ha hb hne).1 hp

namespace HostName

/-- What a host name tells of a parameter. -/
structure Mark where
  pointer : Bool
  entry : TypeEntry

/-- The characters that stand for a parameter. -/
def Mark.text (m : Mark) : List Char := (if m.pointer then ['p'] else []) ++ m.entry.code.toList

def Mark.Of (table : TypeTable) (function : String) (type : NativeType) (m : Mark) : Prop :=
  m.pointer = type.isPtr ∧ table.resolve type function = .ok m.entry

section Codes

variable {table : TypeTable} (h : table.UniquelyCoded)
include h

private theorem head?_code {e : TypeEntry} (he : e ∈ table.entries) :
    ∃ c cs, e.code.toList = c :: cs ∧ c ≠ 'p' := by
  cases hcode : e.code.toList with
  | nil => exact absurd hcode (h.nonempty e he)
  | cons c cs =>
    refine ⟨c, cs, rfl, ?_⟩
    rintro rfl
    exact h.unmarked e he (by rw [hcode]; rfl)

private theorem eq_of_code_append {a b : TypeEntry} (ha : a ∈ table.entries)
    (hb : b ∈ table.entries) {us vs : List Char}
    (heq : a.code.toList ++ us = b.code.toList ++ vs) : a = b ∧ us = vs := by
  have hleft : a.code.toList <+: b.code.toList ++ vs := ⟨us, heq⟩
  have hright : b.code.toList <+: b.code.toList ++ vs := List.prefix_append _ _
  have hab : a = b := by
    rcases List.prefix_or_prefix_of_prefix hleft hright with hp | hp
    · exact h.eq_of_prefix ha hb hp
    · exact (h.eq_of_prefix hb ha hp).symm
  subst hab
  exact ⟨rfl, List.append_cancel_left heq⟩

private theorem Mark.text_append_inj {m n : Mark} (hm : m.entry ∈ table.entries)
    (hn : n.entry ∈ table.entries) {us vs : List Char} (heq : m.text ++ us = n.text ++ vs) :
    m = n ∧ us = vs := by
  obtain ⟨mp, me⟩ := m
  obtain ⟨np, ne⟩ := n
  cases mp <;> cases np <;> simp only [Mark.text, if_true, Bool.false_eq_true, if_false,
    List.nil_append, List.cons_append, List.cons.injEq, true_and] at heq
  case false.false | true.true =>
    obtain ⟨rfl, hrest⟩ := eq_of_code_append h hm hn heq
    exact ⟨rfl, hrest⟩
  -- No code begins with the letter of pointers, so the flags agree.
  case false.true =>
    obtain ⟨c, cs, hcode, hc⟩ := head?_code h hm
    rw [show me.code.toList = c :: cs from hcode, List.cons_append] at heq
    exact absurd (List.cons.inj heq).1 hc
  case true.false =>
    obtain ⟨c, cs, hcode, hc⟩ := head?_code h hn
    rw [show ne.code.toList = c :: cs from hcode, List.cons_append] at heq
    exact absurd (List.cons.inj heq).1.symm hc

private theorem Mark.text_ne_nil {m : Mark} (hm : m.entry ∈ table.entries) : m.text ≠ [] := by
  intro hnil
  exact h.nonempty _ hm (List.append_eq_nil_iff.mp hnil).2

private theorem Mark.flatMap_text_inj {ms ns : List Mark} (hm : ∀ m ∈ ms, m.entry ∈ table.entries)
    (hn : ∀ n ∈ ns, n.entry ∈ table.entries)
    (heq : ms.flatMap Mark.text = ns.flatMap Mark.text) : ms = ns := by
  induction ms generalizing ns with
  | nil =>
    cases ns with
    | nil => rfl
    | cons n ns =>
      have hnil := (List.append_eq_nil_iff.mp heq.symm).1
      exact absurd hnil (Mark.text_ne_nil h (hn n List.mem_cons_self))
  | cons m ms ih =>
    cases ns with
    | nil =>
      have hnil := (List.append_eq_nil_iff.mp heq).1
      exact absurd hnil (Mark.text_ne_nil h (hm m List.mem_cons_self))
    | cons n ns =>
      obtain ⟨rfl, hrest⟩ := Mark.text_append_inj h (hm m List.mem_cons_self)
        (hn n List.mem_cons_self) (by simpa using heq)
      rw [ih (fun k hk => hm k (List.mem_cons_of_mem _ hk))
        (fun k hk => hn k (List.mem_cons_of_mem _ hk)) hrest]

private theorem Mark.underscore_notMem {ms : List Mark} (hm : ∀ m ∈ ms, m.entry ∈ table.entries) :
    '_' ∉ ms.flatMap Mark.text := by
  intro hmem
  obtain ⟨m, hmm, hc⟩ := List.mem_flatMap.mp hmem
  rcases List.mem_append.mp hc with hc | hc
  · split at hc <;> simp at hc
  · exact h.plain _ (hm m hmm) hc

end Codes

variable {table : TypeTable} {s s₁ s₂ : Signature}

private theorem code_eq_ok_iff {function : String} {type : NativeType} {c : String} :
    code table function type = .ok c ↔
      ∃ m, Mark.Of table function type m ∧ c.toList = m.text := by
  unfold code
  rw [Traversal.map_eq_ok_iff]
  constructor
  · rintro ⟨e, he, rfl⟩
    refine ⟨⟨type.isPtr, e⟩, ⟨rfl, he⟩, ?_⟩
    cases type.isPtr <;> simp [Mark.text]
  · rintro ⟨⟨p, e⟩, ⟨rfl, he⟩, hc⟩
    refine ⟨e, he, String.toList_injective ?_⟩
    rw [hc]
    cases type.isPtr <;> simp [Mark.text]

/-- The marks are those of the explicit parameters of a signature. -/
def Marks (table : TypeTable) (s : Signature) (ms : List Mark) : Prop :=
  List.Forall₂ (fun p m => Mark.Of table s.name p.2 m) s.explicits ms

private theorem exists_marks_of_codes {params : List (String × NativeType)} {function : String}
    {cs : List String}
    (h : List.Forall₂ (fun p c => code table function p.2 = .ok c) params cs) :
    ∃ ms, List.Forall₂ (fun p m => Mark.Of table function p.2 m) params ms ∧
      (String.join cs).toList = ms.flatMap Mark.text := by
  induction h with
  | nil => exact ⟨[], .nil, rfl⟩
  | @cons p c params cs hp _ ih =>
    obtain ⟨m, hm, hc⟩ := code_eq_ok_iff.mp hp
    obtain ⟨ms, hms, hcs⟩ := ih
    refine ⟨m :: ms, .cons hm hms, ?_⟩
    simp [String.join_cons, hc, hcs]

theorem exists_marks {n : String} (h : ofSignature table s = .ok n) :
    ∃ ms, Marks table s ms ∧ n.toList = (ofName s.name).toList ++ '_' :: ms.flatMap Mark.text := by
  obtain ⟨cs, hcodes, rfl⟩ := Traversal.map_eq_ok_iff.mp h
  obtain ⟨ms, hms, hcs⟩ := exists_marks_of_codes (Traversal.mapM_eq_ok_iff.mp hcodes)
  exact ⟨ms, hms, by simp [hcs]⟩

theorem Marks.mem_entries {ms : List Mark} (h : Marks table s ms) :
    ∀ m ∈ ms, m.entry ∈ table.entries := by
  unfold Marks at h
  generalize s.explicits = params at h
  induction h with
  | nil => simp
  | cons hp _ ih =>
    intro m hm
    rcases List.mem_cons.mp hm with rfl | hm
    · exact (TypeTable.of_resolve_eq_ok hp.2).1
    · exact ih m hm

/-- Two explicit parameters have the same pointer flag and the same entry. -/
def SameParameter (table : TypeTable) (f g : String) (p q : String × NativeType) : Prop :=
  p.2.isPtr = q.2.isPtr ∧ ∃ e, table.resolve p.2 f = .ok e ∧ table.resolve q.2 g = .ok e

/-- Two signatures have equally many explicit parameters, and position by position the same pointer
flag and the same entry. -/
def SameParameters (table : TypeTable) (s₁ s₂ : Signature) : Prop :=
  List.Forall₂ (SameParameter table s₁.name s₂.name) s₁.explicits s₂.explicits

private theorem sameParameter_iff {f g : String} {p q : String × NativeType} {m n : Mark}
    (hm : Mark.Of table f p.2 m) (hn : Mark.Of table g q.2 n) :
    SameParameter table f g p q ↔ m = n := by
  obtain ⟨mp, me⟩ := m
  obtain ⟨np, ne⟩ := n
  obtain ⟨rfl, hme⟩ := hm
  obtain ⟨rfl, hne⟩ := hn
  constructor
  · rintro ⟨hflag, e, hp, hq⟩
    cases hp.symm.trans hme
    cases hq.symm.trans hne
    rw [hflag]
  · intro heq
    obtain ⟨hflag, rfl⟩ := Mark.mk.inj heq
    exact ⟨hflag, me, hme, hne⟩

private theorem forall₂_sameParameter_iff {f g : String} {ps qs : List (String × NativeType)}
    {ms ns : List Mark} (hm : List.Forall₂ (fun p m => Mark.Of table f p.2 m) ps ms)
    (hn : List.Forall₂ (fun q n => Mark.Of table g q.2 n) qs ns) :
    List.Forall₂ (SameParameter table f g) ps qs ↔ ms = ns := by
  induction hm generalizing qs ns with
  | nil => cases hn <;> simp
  | cons hp _ ih =>
    cases hn with
    | nil => simp
    | cons hq hqs => rw [List.forall₂_cons, sameParameter_iff hp hq, ih hqs, List.cons.injEq]

theorem sameParameters_iff {ms ns : List Mark} (hm : Marks table s₁ ms) (hn : Marks table s₂ ns) :
    SameParameters table s₁ s₂ ↔ ms = ns :=
  forall₂_sameParameter_iff hm hn

/-- With prefix-free codes, host names are equal just if the host forms of the names are, and the
parameters agree in pointer flags and entries. -/
theorem eq_iff_of_ofSignature (ht : table.UniquelyCoded) {n₁ n₂ : String}
    (h₁ : ofSignature table s₁ = .ok n₁) (h₂ : ofSignature table s₂ = .ok n₂) :
    n₁ = n₂ ↔ ofName s₁.name = ofName s₂.name ∧ SameParameters table s₁ s₂ := by
  obtain ⟨ms, hms, hn₁⟩ := exists_marks h₁
  obtain ⟨ns, hns, hn₂⟩ := exists_marks h₂
  rw [sameParameters_iff hms hns]
  constructor
  · rintro rfl
    -- Names may have underscores, codes have none: the last one divides them.
    have hsplit := hn₁.symm.trans hn₂
    obtain ⟨hname, hmarks⟩ := Text.append_cons_inj_last
      (Mark.underscore_notMem ht hms.mem_entries) (Mark.underscore_notMem ht hns.mem_entries) hsplit
    exact ⟨String.toList_injective hname,
      Mark.flatMap_text_inj ht hms.mem_entries hns.mem_entries hmarks⟩
  · rintro ⟨hname, rfl⟩
    exact String.toList_injective (by rw [hn₁, hn₂, hname])

private theorem type_eq_of_sameParameter {f g : String} {p q : String × NativeType}
    (hp : p.2.Readable) (hq : q.2.Readable) (h : SameParameter table f g p q) : p.2 = q.2 := by
  obtain ⟨hflag, e, hpe, hqe⟩ := h
  have hspelling : p.2.pointee.spelling = q.2.pointee.spelling :=
    (TypeTable.of_resolve_eq_ok hpe).2.symm.trans (TypeTable.of_resolve_eq_ok hqe).2
  have hpointee := NativeType.spelling_inj hp.pointee hq.pointee hspelling
  exact NativeType.eq_of_pointee hflag hpointee

private theorem sameParameter_of_type_eq {f g : String} {p q : String × NativeType} {m : Mark}
    (hm : Mark.Of table f p.2 m) (h : p.2 = q.2) : SameParameter table f g p q := by
  refine ⟨by rw [h], m.entry, hm.2, ?_⟩
  rw [← h]
  exact TypeTable.resolve_eq_ok_iff.mpr (TypeTable.resolve_eq_ok_iff.mp hm.2)

private theorem forall₂_sameParameter_iff_types {f g : String}
    {ps qs : List (String × NativeType)} {ms : List Mark}
    (hm : List.Forall₂ (fun p m => Mark.Of table f p.2 m) ps ms)
    (hp : ∀ p ∈ ps, p.2.Readable) (hq : ∀ q ∈ qs, q.2.Readable) :
    List.Forall₂ (SameParameter table f g) ps qs ↔ ps.map Prod.snd = qs.map Prod.snd := by
  induction hm generalizing qs with
  | nil => cases qs <;> simp
  | @cons p m ps ms hpm _ ih =>
    cases qs with
    | nil => simp
    | cons q qs =>
      have htail := ih (fun r hr => hp r (List.mem_cons_of_mem _ hr))
        fun r hr => hq r (List.mem_cons_of_mem _ hr)
      rw [List.forall₂_cons, htail, List.map_cons, List.map_cons, List.cons.injEq]
      refine and_congr_left fun _ => ?_
      exact ⟨type_eq_of_sameParameter (hp p List.mem_cons_self) (hq q List.mem_cons_self),
        sameParameter_of_type_eq hpm⟩

theorem sameParameters_iff_types {n : String} (h : ofSignature table s₁ = .ok n)
    (h₁ : s₁.Readable) (h₂ : s₂.Readable) :
    SameParameters table s₁ s₂ ↔ s₁.explicits.map Prod.snd = s₂.explicits.map Prod.snd := by
  obtain ⟨ms, hms, -⟩ := exists_marks h
  exact forall₂_sameParameter_iff_types hms h₁.1 h₂.1

/-- Host names are uniquely decodable. With prefix-free codes two of them are equal just if the host
forms of the names are and the parameters agree in pointer flags and entries; under the standard
table, for declarations whose types were read from texts, parameters agree just if their types are
equal. -/
theorem uniquely_decodable :
    (∀ table : TypeTable, table.UniquelyCoded → ∀ (s₁ s₂ : Signature) (n₁ n₂ : String),
      ofSignature table s₁ = .ok n₁ → ofSignature table s₂ = .ok n₂ →
      (n₁ = n₂ ↔ ofName s₁.name = ofName s₂.name ∧ SameParameters table s₁ s₂)) ∧
    TypeTable.standard.UniquelyCoded ∧
    ∀ d₁ d₂ : Declaration, d₁.Parsed → d₂.Parsed → ∀ n₁ n₂ : String,
      ofSignature TypeTable.standard (.ofDeclaration d₁) = .ok n₁ →
      ofSignature TypeTable.standard (.ofDeclaration d₂) = .ok n₂ →
      (SameParameters TypeTable.standard (.ofDeclaration d₁) (.ofDeclaration d₂) ↔
        (Signature.ofDeclaration d₁).explicits.map Prod.snd =
          (Signature.ofDeclaration d₂).explicits.map Prod.snd) := by
  refine ⟨?_, TypeTable.standard_uniquelyCoded, ?_⟩
  · intro table ht s₁ s₂ n₁ n₂ h₁ h₂
    exact eq_iff_of_ofSignature ht h₁ h₂
  · intro d₁ d₂ hd₁ hd₂ n₁ n₂ h₁ _
    exact sameParameters_iff_types h₁ (Signature.readable_ofDeclaration hd₁)
      (Signature.readable_ofDeclaration hd₂)

def maskedStorage : Declaration where
  name := "mask_p"
  overloadName := none
  arguments := [⟨"self", .ptr (.name "Storage"), none⟩, ⟨"g", .ptr (.name "Generator"), none⟩,
    ⟨"mask", .app "std::array" [.type (.name "bool"), .number 2], none⟩]
  returns := []
  mode := .native
  methodOf := []
  isFactoryMethod := none

/-- The same parameter types in other words, under other names and with a returned value. -/
def maskedStorageCopy : Declaration where
  name := "mask_p"
  overloadName := none
  arguments := [⟨"source", .ptr (.name "at::Storage"), none⟩,
    ⟨"bits", .app "std::array" [.type (.ref (.name "bool")), .number 2], none⟩]
  returns := [.name "Tensor"]
  mode := .native
  methodOf := []
  isFactoryMethod := none

theorem uniquely_decodable_maskedStorage :
    TypeTable.standard.UniquelyCoded ∧ maskedStorage.Parsed ∧ maskedStorageCopy.Parsed ∧
    ofSignature TypeTable.standard (.ofDeclaration maskedStorage) = .ok "mask_p_pSA2" ∧
    ofSignature TypeTable.standard (.ofDeclaration maskedStorageCopy) = .ok "mask_p_pSA2" ∧
    SameParameters TypeTable.standard (.ofDeclaration maskedStorage)
      (.ofDeclaration maskedStorageCopy) ∧
    (Signature.ofDeclaration maskedStorage).explicits.map Prod.snd =
      (Signature.ofDeclaration maskedStorageCopy).explicits.map Prod.snd := by
  have h₁ : ofSignature TypeTable.standard (.ofDeclaration maskedStorage) = .ok "mask_p_pSA2" := rfl
  have h₂ : ofSignature TypeTable.standard (.ofDeclaration maskedStorageCopy) =
    .ok "mask_p_pSA2" := rfl
  have hparsed₁ : maskedStorage.Parsed := by decide
  have hparsed₂ : maskedStorageCopy.Parsed := by decide
  obtain ⟨hdecode, hstandard, htypes⟩ := uniquely_decodable
  have hsame := ((hdecode _ hstandard _ _ _ _ h₁ h₂).mp rfl).2
  exact ⟨hstandard, hparsed₁, hparsed₂, h₁, h₂, hsame,
    (htypes _ _ hparsed₁ hparsed₂ _ _ h₁ h₂).mp hsame⟩

end HostName

end NativeBindings
