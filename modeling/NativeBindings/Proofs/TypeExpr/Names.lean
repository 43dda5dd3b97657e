import NativeBindings.TypeExpr.Parse

set_option autoImplicit false
set_option relaxedAutoImplicit false

/-!
The names in a tree that was read from a text: each begins like an identifier and has only
characters of qualified names. Main statement: every tree that `parse` gives is well named.
-/

namespace NativeBindings

open TypeExpr (Token isIdentStart isIdentChar spanName)

def TypeExpr.isQualifiedChar (c : Char) : Bool := isIdentChar c || c == ':'

/-- A text that begins like an identifier and has only characters of qualified names. -/
def TypeExpr.IsName (cs : List Char) : Prop :=
  cs.head?.any isIdentStart = true ∧ ∀ c ∈ cs, isQualifiedChar c = true

instance (cs : List Char) : Decidable (TypeExpr.IsName cs) :=
  decidable_of_iff (cs.head?.any isIdentStart = true ∧ cs.all TypeExpr.isQualifiedChar = true)
    (by simp [TypeExpr.IsName])

mutual

def TypeExpr.WellNamed : TypeExpr → Prop
  | .name n => TypeExpr.IsName n.toList
  | .app n args => TypeExpr.IsName n.toList ∧ TypeArg.AllWellNamed args
  | .ptr t => t.WellNamed
  | .ref t => t.WellNamed

def TypeArg.WellNamed : TypeArg → Prop
  | .type t => t.WellNamed
  | .number _ => True

def TypeArg.AllWellNamed : List TypeArg → Prop
  | [] => True
  | a :: rest => a.WellNamed ∧ TypeArg.AllWellNamed rest

end

namespace TypeExpr

theorem wellNamed_name {n : String} (h : IsName n.toList) : (TypeExpr.name n).WellNamed := h

def Token.WellNamed : Token → Prop
  | .name n => IsName n.toList
  | _ => True

theorem isQualifiedChar_of_isIdentChar {c : Char} (h : isIdentChar c = true) :
    isQualifiedChar c = true := by
  simp [isQualifiedChar, h]

private theorem isIdentChar_of_isIdentStart {c : Char} (h : isIdentStart c = true) :
    isIdentChar c = true := by
  simp only [isIdentStart, isIdentChar, Char.isAlphanum, Bool.or_eq_true] at h ⊢
  rcases h with h | h
  · exact Or.inl (Or.inl h)
  · exact Or.inr h

private theorem isQualifiedChar_of_mem_spanName {cs : List Char} {c : Char}
    (h : c ∈ (spanName cs).1) :
    isQualifiedChar c = true := by
  fun_induction spanName cs with
  | case1 d rest hd p ih =>
    simp only [List.mem_cons] at h
    rcases h with rfl | rfl | h
    · rfl
    · rfl
    · exact ih h
  | case2 => simp at h
  | case3 d rest hcol hd p ih =>
    simp only [List.mem_cons] at h
    rcases h with rfl | h
    · exact isQualifiedChar_of_isIdentChar hd
    · exact ih h
  | case4 => simp at h
  | case5 => simp at h

private theorem head?_spanName {c : Char} (rest : List Char) (h : isIdentStart c = true) :
    (spanName (c :: rest)).1.head? = some c := by
  have hc : c ≠ ':' := by
    rintro rfl
    simp [isIdentStart] at h
  have hi := isIdentChar_of_isIdentStart h
  unfold spanName
  split
  · rename_i heq
    simp only [List.cons.injEq] at heq
    exact absurd heq.1 hc
  · rename_i heq
    simp only [List.cons.injEq] at heq
    obtain ⟨rfl, rfl⟩ := heq
    simp [hi]
  · rename_i heq
    cases heq

private theorem isName_spanName {c : Char} (rest : List Char) (h : isIdentStart c = true) :
    IsName (spanName (c :: rest)).1 := by
  refine ⟨?_, fun _ => isQualifiedChar_of_mem_spanName⟩
  rw [head?_spanName rest h]
  exact h

private theorem punctuation_wellNamed {c : Char} {t : Token} (h : punctuation c = some t) :
    t.WellNamed := by
  unfold punctuation at h
  split at h <;> cases h <;> exact trivial

private theorem scan_wellNamed {cs : List Char} {ts : List Token} (h : Token.scan cs = some ts) :
    ∀ t ∈ ts, t.WellNamed := by
  revert ts
  fun_induction Token.scan cs with
  | case1 => simp
  | case2 c rest hb ih => exact ih
  | case3 c rest hb hs p =>
    rename_i ih
    intro ts h t ht
    obtain ⟨us, hus, rfl⟩ := Option.map_eq_some_iff.mp h
    rcases List.mem_cons.mp ht with rfl | ht
    · simpa [Token.WellNamed] using isName_spanName rest hs
    · exact ih hus t ht
  | case4 c rest hb hs hd digits =>
    rename_i ih
    intro ts h t ht
    obtain ⟨us, hus, rfl⟩ := Option.map_eq_some_iff.mp h
    rcases List.mem_cons.mp ht with rfl | ht
    · trivial
    · exact ih hus t ht
  | case5 c rest hb hs hd t hp ih =>
    intro ts h u hu
    obtain ⟨us, hus, rfl⟩ := Option.map_eq_some_iff.mp h
    rcases List.mem_cons.mp hu with rfl | hu
    · exact punctuation_wellNamed hp
    · exact ih hus u hu
  | case6 =>
    intro ts h
    cases h

/-! The reader takes names from the tokens and leaves a part of the tokens. -/

private theorem dropExtent_suffix (ts : List Token) : dropExtent ts <:+ ts := by
  unfold dropExtent
  split
  · exact ⟨[.openBracket, .closeBracket], rfl⟩
  · rename_i n rest
    exact ⟨[.openBracket, .number n, .closeBracket], rfl⟩
  · exact List.suffix_rfl

private theorem wrapModifiers_suffix (t : TypeExpr) (ts : List Token) :
    (wrapModifiers t ts).2 <:+ ts := by
  fun_induction wrapModifiers t ts with
  | case1 t rest ih => exact ih.trans (List.suffix_cons _ _)
  | case2 t rest ih => exact ih.trans (List.suffix_cons _ _)
  | case3 t rest ih => exact ih.trans (List.suffix_cons _ _)
  | case4 => exact List.suffix_rfl
  | case5 => exact List.suffix_rfl

private theorem wrapModifiers_wellNamed {t : TypeExpr} (ht : t.WellNamed) (ts : List Token) :
    (wrapModifiers t ts).1.WellNamed := by
  fun_induction wrapModifiers t ts with
  | case1 t rest ih => exact ih ht
  | case2 t rest ih => exact ih ht
  | case3 t rest ih => exact ih ht
  | case4 => exact ht
  | case5 => exact ht

private theorem takeHead_wellNamed {ts : List Token} {n : String} {rest : List Token}
    (hts : ∀ t ∈ ts, t.WellNamed) (h : takeHead ts = some (n, rest)) :
    IsName n.toList ∧ rest <:+ ts := by
  unfold takeHead at h
  split at h
  · rename_i m tail
    cases h
    exact ⟨hts (.name n) (by simp), ⟨[.name "const", .name n], rfl⟩⟩
  · rename_i m tail _
    split at h
    · cases h
    · cases h
      exact ⟨hts (.name n) (by simp), ⟨[.name n], rfl⟩⟩
  · cases h

/-- What reading needs to know of the tokens, for a reader of any kind of tree. -/
private def Keeps {α : Type} (named : α → Prop) (read : List Token → Option (α × List Token)) :
    Prop :=
  ∀ ts a rest, (∀ t ∈ ts, t.WellNamed) → read ts = some (a, rest) → named a ∧ rest <:+ ts

private theorem named_of_suffix {ts us : List Token} (h : us <:+ ts)
    (hts : ∀ t ∈ ts, t.WellNamed) : ∀ t ∈ us, t.WellNamed :=
  fun t ht => hts t (h.subset ht)

private theorem readType_step {fuel : Nat} (hargs : Keeps TypeArg.AllWellNamed (readArgs fuel)) :
    Keeps WellNamed (readType (fuel + 1)) := by
  intro ts t rest hts h
  simp only [readType] at h
  split at h
  · cases h
  · rename_i n tail hhead
    obtain ⟨hn, hsuffix⟩ := takeHead_wellNamed hts hhead
    have htail : tail <:+ ts := (List.suffix_cons _ _).trans hsuffix
    obtain ⟨⟨args, after⟩, hread, he⟩ := Option.map_eq_some_iff.mp h
    obtain ⟨hnamed, hafter⟩ := hargs tail args after (named_of_suffix htail hts) hread
    have happ : (TypeExpr.app n args).WellNamed := ⟨hn, hnamed⟩
    have ht := wrapModifiers_wellNamed happ (dropExtent after)
    have hrest := wrapModifiers_suffix (.app n args) (dropExtent after)
    rw [he] at ht hrest
    exact ⟨ht, (hrest.trans (dropExtent_suffix after)).trans (hafter.trans htail)⟩
  · rename_i n tail _ hhead
    obtain ⟨hn, hsuffix⟩ := takeHead_wellNamed hts hhead
    have hname : (TypeExpr.name n).WellNamed := hn
    have ht := wrapModifiers_wellNamed hname (dropExtent tail)
    have hrest := wrapModifiers_suffix (.name n) (dropExtent tail)
    rw [Option.some.inj h] at ht hrest
    exact ⟨ht, (hrest.trans (dropExtent_suffix tail)).trans hsuffix⟩

private theorem readArgs_step {fuel : Nat} (harg : Keeps TypeArg.WellNamed (readArg fuel))
    (hargs : Keeps TypeArg.AllWellNamed (readArgs fuel)) :
    Keeps TypeArg.AllWellNamed (readArgs (fuel + 1)) := by
  intro ts args rest hts h
  simp only [readArgs] at h
  split at h
  · rename_i a tail hread
    obtain ⟨ha, hsuffix⟩ := harg ts a _ hts hread
    have htail : tail <:+ ts := (List.suffix_cons _ _).trans hsuffix
    obtain ⟨⟨more, after⟩, hmore, he⟩ := Option.map_eq_some_iff.mp h
    obtain ⟨hnamed, hafter⟩ := hargs tail more after (named_of_suffix htail hts) hmore
    cases he
    exact ⟨⟨ha, hnamed⟩, hafter.trans htail⟩
  · rename_i a tail hread
    obtain ⟨ha, hsuffix⟩ := harg ts a _ hts hread
    cases h
    exact ⟨⟨ha, trivial⟩, (List.suffix_cons _ _).trans hsuffix⟩
  · cases h

private theorem readArg_step {fuel : Nat} (htype : Keeps WellNamed (readType fuel)) :
    Keeps TypeArg.WellNamed (readArg (fuel + 1)) := by
  intro ts a rest hts h
  unfold readArg at h
  split at h
  · cases h
    exact ⟨trivial, List.suffix_cons _ _⟩
  · cases h
  · rename_i heq _
    cases heq
    obtain ⟨⟨t, after⟩, hread, he⟩ := Option.map_eq_some_iff.mp h
    cases he
    exact htype _ t _ hts hread

private theorem readArg_zero : Keeps TypeArg.WellNamed (readArg 0) := by
  intro ts a rest hts h
  unfold readArg at h
  split at h
  · cases h
    exact ⟨trivial, List.suffix_cons _ _⟩
  · cases h
  · rename_i heq _
    cases heq

private theorem readers_keep (fuel : Nat) :
    Keeps WellNamed (readType fuel) ∧ Keeps TypeArg.AllWellNamed (readArgs fuel) ∧
      Keeps TypeArg.WellNamed (readArg fuel) := by
  induction fuel with
  | zero =>
    refine ⟨?_, ?_, readArg_zero⟩
    · intro ts t rest _ h
      simp [readType] at h
    · intro ts args rest _ h
      simp [readArgs] at h
  | succ fuel ih =>
    obtain ⟨htype, hargs, harg⟩ := ih
    exact ⟨readType_step hargs, readArgs_step harg hargs, readArg_step htype⟩

private theorem read?_wellNamed {s : String} {t : TypeExpr} (h : read? s = some t) :
    t.WellNamed := by
  obtain ⟨ts, hscan, hread⟩ := Option.bind_eq_some_iff.mp h
  unfold ofTokens? at hread
  split at hread
  · rename_i u hu
    cases hread
    exact ((readers_keep _).1 ts t [] (scan_wellNamed hscan) hu).1
  · cases hread

theorem parse_wellNamed {s : String} {t : TypeExpr} (h : parse s = .ok t) : t.WellNamed := by
  unfold parse at h
  split at h
  · cases h
  · rename_i u hread
    split at h
    · cases h
      exact read?_wellNamed hread
    · cases h

theorem parse_of_tokens {s : String} {t : TypeExpr} (ts : List Token)
    (hscan : Token.scan s.toList = some ts) (hread : ofTokens? ts = some t)
    (hnumbers : t.numbersBelow (Nat.pow 2 64) = true) : parse s = .ok t := by
  have h : read? s = some t := by simp [read?, hscan, hread]
  unfold parse
  rw [h]
  simp only [hnumbers, if_true]

end TypeExpr

end NativeBindings
