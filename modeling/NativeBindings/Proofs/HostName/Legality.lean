import NativeBindings.Proofs.HostName.Decoding
import NativeBindings.Proofs.HostName.Identifiers

set_option autoImplicit false
set_option relaxedAutoImplicit false

/-!
Host names as words of the host language. Main statement: whatever a function and its arguments are
called, their host names are variables and no reserved words.
-/

namespace NativeBindings.HostName

def VariableStart (c : Char) : Prop := 'a' ≤ c ∧ c ≤ 'z' ∨ c = '_'

def VariableChar (c : Char) : Prop :=
  'a' ≤ c ∧ c ≤ 'z' ∨ 'A' ≤ c ∧ c ≤ 'Z' ∨ '0' ≤ c ∧ c ≤ '9' ∨ c = '_'

instance (c : Char) : Decidable (VariableStart c) := inferInstanceAs (Decidable (_ ∨ _))

instance (c : Char) : Decidable (VariableChar c) := inferInstanceAs (Decidable (_ ∨ _))

/-- The text has the form of a variable; reserved words have it too. -/
def IsVariable (s : String) : Prop :=
  ∃ c rest, s.toList = c :: rest ∧ VariableStart c ∧ ∀ d ∈ rest, VariableChar d

/-- The reserved words of the host language, with those of its common extensions. The underscore
alone is the wildcard and reserved as well. -/
def reservedWords : List String :=
  ["_", "case", "class", "data", "default", "deriving", "do", "else", "forall", "foreign", "if",
    "import", "in", "infix", "infixl", "infixr", "instance", "let", "mdo", "module", "newtype",
    "of", "proc", "rec", "then", "type", "where"]

private theorem eq_wildcard_of_reserved {w : String} (h : w ∈ reservedWords)
    (hunderscore : '_' ∈ w.toList) : w = "_" := by
  revert w
  decide

private theorem variableStart_iff {c : Char} : VariableStart c ↔ isNameStart c = true := by
  rw [isNameStart, Bool.or_eq_true, Text.isLower_iff, beq_iff_eq]
  rfl

private theorem variableChar_iff {c : Char} : VariableChar c ↔ isNameChar c = true := by
  rw [isNameChar, Bool.or_eq_true, Text.isAlphanum_iff, Text.isUpper_iff, Text.isLower_iff,
    Text.isDigit_iff, beq_iff_eq, VariableChar]
  tauto

private theorem VariableStart.variableChar {c : Char} (h : VariableStart c) : VariableChar c := by
  rcases h with h | h
  · exact .inl h
  · exact .inr (.inr (.inr h))

private theorem variableChar_underscore : VariableChar '_' := .inr (.inr (.inr rfl))

private theorem variableChar_nameChar (c : Char) : VariableChar (nameChar c) := by
  unfold nameChar
  split
  · rename_i hc
    exact variableChar_iff.mpr hc
  · exact variableChar_underscore

private theorem nameChar_of_variableChar {c : Char} (h : VariableChar c) : nameChar c = c :=
  if_pos (variableChar_iff.mp h)

/-! Names of variables. -/

namespace IsVariable

variable {s : String}

private theorem variableChar (h : IsVariable s) : ∀ c ∈ s.toList, VariableChar c := by
  obtain ⟨c, rest, hs, hc, hrest⟩ := h
  rw [hs]
  exact List.forall_mem_cons.mpr ⟨hc.variableChar, hrest⟩

private theorem ofName_eq (h : IsVariable s) : ofName s = s := by
  have hkept : s.toList.map nameChar = s.toList := by
    conv_rhs => rw [← List.map_id s.toList]
    exact List.map_congr_left fun c hc => nameChar_of_variableChar (h.variableChar c hc)
  obtain ⟨c, rest, hs, hc, -⟩ := h
  have hstart : s.toList.head?.any isNameStart = true := by
    simp [hs, variableStart_iff.mp hc]
  rw [ofName, nameChars, if_pos hstart, hkept, String.ofList_toList]

theorem append (h : IsVariable s) {t : String} (ht : ∀ c ∈ t.toList, VariableChar c) :
    IsVariable (s ++ t) := by
  obtain ⟨c, rest, hs, hc, hrest⟩ := h
  refine ⟨c, rest ++ t.toList, by simp [hs], hc, ?_⟩
  intro d hd
  rcases List.mem_append.mp hd with hd | hd
  · exact hrest d hd
  · exact ht d hd

theorem toList_ne_nil (h : IsVariable s) : s.toList ≠ [] := by
  obtain ⟨c, rest, hs, -⟩ := h
  rw [hs]
  exact List.cons_ne_nil c rest

end IsVariable

theorem isVariable_ofName (s : String) : IsVariable (ofName s) := by
  unfold ofName nameChars
  split
  · rename_i hstart
    cases hs : s.toList with
    | nil => simp [hs] at hstart
    | cons c rest =>
      have hc : isNameStart c = true := by simpa [hs] using hstart
      have hvariable : VariableStart c := variableStart_iff.mpr hc
      refine ⟨c, rest.map nameChar, ?_, hvariable, ?_⟩
      · rw [String.toList_ofList, List.map_cons, nameChar_of_variableChar hvariable.variableChar]
      · intro d hd
        obtain ⟨e, -, rfl⟩ := List.mem_map.mp hd
        exact variableChar_nameChar e
  · refine ⟨'_', s.toList.map nameChar, String.toList_ofList, .inr rfl, ?_⟩
    intro d hd
    obtain ⟨e, -, rfl⟩ := List.mem_map.mp hd
    exact variableChar_nameChar e

theorem ofName_ofName (s : String) : ofName (ofName s) = ofName s := (isVariable_ofName s).ofName_eq

private theorem notMem_reservedWords {s : String} (hunderscore : '_' ∈ s.toList) (hs : s ≠ "_") :
    s ∉ reservedWords :=
  fun h => hs (eq_wildcard_of_reserved h hunderscore)

theorem ofParameter_notMem_reservedWords (s : String) : ofParameter s ∉ reservedWords := by
  apply notMem_reservedWords
  · simp [ofParameter]
  · intro h
    have hlist := congrArg String.toList h
    rw [ofParameter, String.toList_append] at hlist
    exact (isVariable_ofName s).toList_ne_nil (List.append_right_eq_self.mp hlist)

/-- The codes of a table are written in characters of variables. -/
def Wordlike (table : TypeTable) : Prop :=
  ∀ e ∈ table.entries, ∀ c ∈ e.code.toList, VariableChar c

private theorem standard_wordlike : Wordlike .standard := by
  have hall : (TypeTable.standard.entries.all fun e => e.code.toList.all isNameChar) = true := by
    decide
  intro e he c hc
  have hcode := List.all_eq_true.mp hall e he
  exact variableChar_iff.mpr (List.all_eq_true.mp hcode c hc)

section Function

variable {table : TypeTable} {s : Signature} {n : String}

private theorem Marks.variableChar {ms : List Mark} (h : Marks table s ms) (ht : Wordlike table) :
    ∀ c ∈ ms.flatMap Mark.text, VariableChar c := by
  intro c hc
  obtain ⟨m, hm, hc⟩ := List.mem_flatMap.mp hc
  rcases List.mem_append.mp hc with hc | hc
  · split at hc
    · rw [List.mem_singleton.mp hc]
      decide
    · cases hc
  · exact ht m.entry (h.mem_entries m hm) c hc

private theorem exists_suffix (h : ofSignature table s = .ok n) (ht : Wordlike table) :
    ∃ suffix : String, n = ofName s.name ++ ("_" ++ suffix) ∧
      ∀ c ∈ suffix.toList, VariableChar c := by
  obtain ⟨ms, hms, hn⟩ := exists_marks h
  refine ⟨String.ofList (ms.flatMap Mark.text), ?_, ?_⟩
  · apply String.toList_injective
    simp [hn]
  · rw [String.toList_ofList]
    exact hms.variableChar ht

theorem isVariable_ofSignature (h : ofSignature table s = .ok n) (ht : Wordlike table) :
    IsVariable n := by
  obtain ⟨suffix, rfl, hsuffix⟩ := exists_suffix h ht
  apply (isVariable_ofName s.name).append
  intro c hc
  rw [String.toList_append] at hc
  rcases List.mem_append.mp hc with hc | hc
  · rw [List.mem_singleton.mp hc]
    exact variableChar_underscore
  · exact hsuffix c hc

private theorem underscore_mem_ofSignature (h : ofSignature table s = .ok n) : '_' ∈ n.toList := by
  obtain ⟨ms, -, hn⟩ := exists_marks h
  simp [hn]

theorem ofSignature_notMem_reservedWords (h : ofSignature table s = .ok n) : n ∉ reservedWords := by
  apply notMem_reservedWords (underscore_mem_ofSignature h)
  rintro rfl
  obtain ⟨ms, -, hn⟩ := exists_marks h
  obtain ⟨c, rest, hname, -⟩ := isVariable_ofName s.name
  rw [hname] at hn
  simp at hn

end Function

/-- With the standard table the host name of a function is a variable with an underscore, that of an
argument a variable behind an underscore, whatever characters the names have; neither is reserved,
so neither is the wildcard. Host names are their own host names. Two identifiers share one just if
they are the same, or one of them is the other with an underscore in front of its capital. -/
theorem host_names_legal :
    (∀ (d : Declaration) (n : String), ofSignature .standard (.ofDeclaration d) = .ok n →
      IsVariable n ∧ '_' ∈ n.toList ∧ n ∉ reservedWords ∧
      ∀ a ∈ d.arguments, (∃ word, ofParameter a.name = "_" ++ word ∧ IsVariable word) ∧
        ofParameter a.name ∉ reservedWords) ∧
    (∀ s, ofName (ofName s) = ofName s) ∧
    ∀ a b, IsIdentifier a → IsIdentifier b →
      (ofName a = ofName b ↔ a = b ∨ Capital a ∧ b = "_" ++ a ∨ Capital b ∧ a = "_" ++ b) := by
  refine ⟨?_, ofName_ofName, ?_⟩
  · intro d n h
    refine ⟨isVariable_ofSignature h standard_wordlike, underscore_mem_ofSignature h,
      ofSignature_notMem_reservedWords h, ?_⟩
    intro a _
    exact ⟨⟨ofName a.name, rfl, isVariable_ofName a.name⟩, ofParameter_notMem_reservedWords a.name⟩
  · intro a b ha hb
    exact ofName_eq_iff ha hb

/-- A function and an argument with letters that no host name has, and an argument with the name of
a reserved word. -/
def foreignDeclaration : Declaration where
  name := "Größe.x"
  overloadName := none
  arguments := [⟨"λ", .name "Tensor", none⟩, ⟨"default", .ptr (.name "Storage"), none⟩]
  returns := []
  mode := .native
  methodOf := []
  isFactoryMethod := none

theorem host_names_legal_foreign :
    ofSignature .standard (.ofDeclaration foreignDeclaration) = .ok "_Gr__e_x_tpS" ∧
    IsVariable "_Gr__e_x_tpS" ∧ "_Gr__e_x_tpS" ∉ reservedWords ∧
    foreignDeclaration.arguments.map (fun a => ofParameter a.name) = ["___", "_default"] ∧
    "_default" ∉ reservedWords ∧
    IsIdentifier "Foo" ∧ IsIdentifier "_Foo" ∧ ofName "Foo" = ofName "_Foo" := by
  obtain ⟨hfunctions, -, hidentifiers⟩ := host_names_legal
  have hname : ofSignature .standard (.ofDeclaration foreignDeclaration) = .ok "_Gr__e_x_tpS" := rfl
  obtain ⟨hvariable, -, hreserved, harguments⟩ := hfunctions foreignDeclaration _ hname
  have hlast : ⟨"default", .ptr (.name "Storage"), none⟩ ∈ foreignDeclaration.arguments :=
    List.mem_cons_of_mem _ List.mem_cons_self
  have hfoo : IsIdentifier "Foo" := by decide
  have hunderscored : IsIdentifier "_Foo" := by decide
  have hcapital : Capital "Foo" := by decide
  exact ⟨hname, hvariable, hreserved, rfl, (harguments _ hlast).2, hfoo, hunderscored,
    (hidentifiers _ _ hfoo hunderscored).mpr (.inr (.inl ⟨hcapital, rfl⟩))⟩

end NativeBindings.HostName
