import NativeBindings.Proofs.TypeExpr.Scanning

set_option autoImplicit false
set_option relaxedAutoImplicit false

/-!
What stands around the name of a type: the qualifier before it, an extent and modifiers behind it.
Taking them off the tokens of a text is the same as finding them in the text.
-/

namespace NativeBindings.TypeExpr.Grammar

/-- The text begins with the name of a type, behind the qualifier if there is one. -/
inductive Head (n : String) : List Char → List Char → Prop
  | qualified {text a b rest : List Char} :
      ConstWord text a → Gap a b → NameWord n b rest → Head n text rest
  | plain {text rest : List Char} :
      (∀ a, ¬ ConstWord text a) → NameWord n text rest → Head n text rest

private theorem takeHead_qualified (n : String) (ts : List Token) :
    takeHead (.name "const" :: .name n :: ts) = some (n, ts) := rfl

private theorem takeHead_plain {n : String} (h : firstSegment n ≠ "const") (ts : List Token) :
    takeHead (.name n :: ts) = some (n, ts) := by
  unfold takeHead
  split
  · rename_i m rest heq
    obtain ⟨rfl, -⟩ := Token.name.inj (List.cons.inj heq).1
    exact absurd rfl h
  · rename_i m rest _ heq
    obtain ⟨hm, rfl⟩ := List.cons.inj heq
    cases hm
    rw [if_neg h]
  · rename_i hname
    exact absurd rfl (hname n ts)

theorem Head.takeHead {n : String} {text rest : List Char} (h : Head n text rest)
    {ts : List Token} (hrest : Token.scan rest = some ts) :
    ∃ us, Token.scan text = some us ∧ takeHead us = some (n, ts) ∧ ts.length < us.length := by
  cases h with
  | qualified hconst hgap hname =>
    have ha := scan_gap_word (.name n) hgap hname hrest
    have hword := hconst.nameWord ha
    refine ⟨_, scan_gap_word (.name "const") (Gap.refl text) hword ha, takeHead_qualified n ts,
      ?_⟩
    simp only [List.length_cons]
    omega
  | plain hconst hname =>
    have hsegment : firstSegment n ≠ "const" := fun heq => by
      obtain ⟨a, ha⟩ := hname.const_iff.mpr heq
      exact hconst a ha
    exact ⟨_, scan_gap_word (.name n) (Gap.refl text) hname hrest, takeHead_plain hsegment ts,
      by simp⟩

theorem head_of_takeHead {text : List Char} {us ts : List Token} {n : String}
    (hscan : Token.scan text = some us) (h : TypeExpr.takeHead us = some (n, ts)) :
    ∃ a rest, Gap text a ∧ Head n a rest ∧ Token.scan rest = some ts := by
  unfold TypeExpr.takeHead at h
  split at h
  · cases h
    obtain ⟨a, b, hgap, hconst, hb⟩ := word_of_scan_eq_cons hscan
    obtain ⟨c, rest, hgap', hname, hrest⟩ := word_of_scan_eq_cons hb
    exact ⟨a, rest, hgap, .qualified (NameWord.constWord hconst) hgap' hname, hrest⟩
  · split at h
    · cases h
    · rename_i hsegment
      cases h
      obtain ⟨a, rest, hgap, hname, hrest⟩ := word_of_scan_eq_cons hscan
      refine ⟨a, rest, hgap, .plain (fun b hb => ?_) hname, hrest⟩
      exact hsegment (NameWord.const_iff hname |>.mp ⟨b, hb⟩)
  · cases h

/-! Behind the head stand an extent and modifiers. -/

/-- What may follow a type: a comma, a closing bracket of a template, or nothing. -/
def Ends (ts : List Token) : Prop := ∀ t ∈ ts.head?, t = .comma ∨ t = .greater

theorem Ends.wrapModifiers {ts : List Token} (h : Ends ts) (t : TypeExpr) :
    TypeExpr.wrapModifiers t ts = (t, ts) := by
  unfold TypeExpr.wrapModifiers
  split
  · simp [Ends] at h
  · simp [Ends] at h
  · simp [Ends] at h
  · rfl

/-- The tokens begin neither with an extent nor with arguments. -/
def Bare (ts : List Token) : Prop := ts.head? ≠ some .less ∧ ts.head? ≠ some .openBracket

theorem Ends.bare {ts : List Token} (h : Ends ts) : Bare ts := by
  constructor <;> · intro heq; simpa using h _ heq

theorem Bare.dropExtent {ts : List Token} (h : Bare ts) : TypeExpr.dropExtent ts = ts := by
  unfold TypeExpr.dropExtent
  split
  · exact absurd rfl h.2
  · exact absurd rfl h.2
  · rfl

theorem Modifiers.wrapModifiers {inner t : TypeExpr} {text rest : List Char}
    (h : Modifiers inner text t rest) {ts : List Token} (hrest : Token.scan rest = some ts)
    (hends : Ends ts) :
    ∃ us, Token.scan text = some us ∧ TypeExpr.wrapModifiers inner us = (t, ts) ∧
      ts.length ≤ us.length ∧ Bare us := by
  induction h with
  | none => exact ⟨ts, hrest, hends.wrapModifiers _, le_rfl, hends.bare⟩
  | pointer hgap _ ih =>
    obtain ⟨us, hus, hwrap, hle, -⟩ := ih hrest
    exact ⟨.star :: us, scan_gap_word .star hgap rfl hus, hwrap, Nat.le_succ_of_le hle,
      by simp [Bare]⟩
  | reference hgap _ ih =>
    obtain ⟨us, hus, hwrap, hle, -⟩ := ih hrest
    exact ⟨.ampersand :: us, scan_gap_word .ampersand hgap rfl hus, hwrap, Nat.le_succ_of_le hle,
      by simp [Bare]⟩
  | const hgap hconst _ ih =>
    obtain ⟨us, hus, hwrap, hle, -⟩ := ih hrest
    have hword := hconst.nameWord hus
    refine ⟨.name "const" :: us, scan_gap_word (.name "const") hgap hword hus, ?_,
      Nat.le_succ_of_le hle, by simp [Bare]⟩
    simpa [TypeExpr.wrapModifiers] using hwrap

theorem modifiers_of_wrapModifiers {inner t : TypeExpr} {text : List Char} {us ts : List Token}
    (hscan : Token.scan text = some us) (h : TypeExpr.wrapModifiers inner us = (t, ts)) :
    ∃ rest, Modifiers inner text t rest ∧ Token.scan rest = some ts := by
  fun_induction TypeExpr.wrapModifiers inner us generalizing text with
  | case1 inner us ih =>
    obtain ⟨a, rest, hgap, rfl, hrest⟩ := word_of_scan_eq_cons hscan
    obtain ⟨last, hmodifiers, hlast⟩ := ih hrest h
    exact ⟨last, .pointer hgap hmodifiers, hlast⟩
  | case2 inner us ih =>
    obtain ⟨a, rest, hgap, rfl, hrest⟩ := word_of_scan_eq_cons hscan
    obtain ⟨last, hmodifiers, hlast⟩ := ih hrest h
    exact ⟨last, .reference hgap hmodifiers, hlast⟩
  | case3 inner us ih =>
    obtain ⟨a, rest, hgap, hword, hrest⟩ := word_of_scan_eq_cons hscan
    obtain ⟨last, hmodifiers, hlast⟩ := ih hrest h
    exact ⟨last, .const hgap (NameWord.constWord hword) hmodifiers, hlast⟩
  | case4 =>
    cases h
    exact ⟨text, .none, hscan⟩
  | case5 =>
    cases h
    exact ⟨text, .none, hscan⟩

theorem OptionalExtent.dropExtent {text rest : List Char} (h : OptionalExtent text rest)
    {ts : List Token} (hrest : Token.scan rest = some ts) (hbare : Bare ts) :
    ∃ us, Token.scan text = some us ∧ TypeExpr.dropExtent us = ts ∧ ts.length ≤ us.length ∧
      us.head? ≠ some .less := by
  cases h with
  | none =>
    exact ⟨ts, hrest, hbare.dropExtent, le_rfl, hbare.1⟩
  | extent hopen hsize hclose =>
    have hb := scan_gap_word .closeBracket hclose rfl hrest
    cases hsize with
    | none =>
      refine ⟨_, scan_gap_word .openBracket hopen rfl hb, rfl, ?_, by simp⟩
      simp only [List.length_cons]
      omega
    | number hgap hvalue =>
      have ha := scan_gap_word (.number _) hgap hvalue hb
      refine ⟨_, scan_gap_word .openBracket hopen rfl ha, rfl, ?_, by simp⟩
      simp only [List.length_cons]
      omega

theorem extent_of_scan {text : List Char} {us : List Token} (hscan : Token.scan text = some us) :
    ∃ rest, OptionalExtent text rest ∧ Token.scan rest = some (TypeExpr.dropExtent us) := by
  unfold TypeExpr.dropExtent
  split
  · obtain ⟨a, b, hopen, rfl, hb⟩ := word_of_scan_eq_cons hscan
    obtain ⟨c, rest, hclose, rfl, hrest⟩ := word_of_scan_eq_cons hb
    exact ⟨rest, .extent hopen .none hclose, hrest⟩
  · obtain ⟨a, b, hopen, rfl, hb⟩ := word_of_scan_eq_cons hscan
    obtain ⟨c, d, hgap, hvalue, hd⟩ := word_of_scan_eq_cons hb
    obtain ⟨e, rest, hclose, rfl, hrest⟩ := word_of_scan_eq_cons hd
    exact ⟨rest, .extent hopen (.number hgap hvalue) hclose, hrest⟩
  · exact ⟨text, .none, hscan⟩

end NativeBindings.TypeExpr.Grammar
