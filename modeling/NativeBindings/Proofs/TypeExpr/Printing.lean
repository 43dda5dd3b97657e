import NativeBindings.Proofs.TypeExpr.Exactness

set_option autoImplicit false
set_option relaxedAutoImplicit false

/-!
The printed form of a type is one of its spellings. Main statements: every type that is read from a
text is well formed, and a well-formed type whose names begin with no `const` segment is read back
from its printed form.
-/

namespace NativeBindings

open TypeExpr (isIdentStart isIdentChar isQualifiedChar spanName firstSegment)
open TypeExpr.Grammar (Gap Longest Identifier QualifiedName Digits NameWord NumberWord ConstWord
  OptionalExtent Modifiers Denotes Unqualified Arguments Argument)

mutual

/-- The type can be written: its names are qualified names, its templates have arguments, and its
numbers have 64 bits. -/
def TypeExpr.WellFormed : TypeExpr → Prop
  | .name n => QualifiedName n.toList
  | .app n args => QualifiedName n.toList ∧ args ≠ [] ∧ TypeArg.AllWellFormed args
  | .ptr t => t.WellFormed
  | .ref t => t.WellFormed

def TypeArg.WellFormed : TypeArg → Prop
  | .type t => t.WellFormed
  | .number n => n < Nat.pow 2 64

def TypeArg.AllWellFormed : List TypeArg → Prop
  | [] => True
  | a :: rest => a.WellFormed ∧ TypeArg.AllWellFormed rest

end

mutual

/-- No name in the type has `const` for its first segment. -/
def TypeExpr.ConstFree : TypeExpr → Prop
  | .name n => firstSegment n ≠ "const"
  | .app n args => firstSegment n ≠ "const" ∧ TypeArg.AllConstFree args
  | .ptr t => t.ConstFree
  | .ref t => t.ConstFree

def TypeArg.ConstFree : TypeArg → Prop
  | .type t => t.ConstFree
  | .number _ => True

def TypeArg.AllConstFree : List TypeArg → Prop
  | [] => True
  | a :: rest => a.ConstFree ∧ TypeArg.AllConstFree rest

end

namespace TypeExpr.Grammar

/-! What is spelled is well formed. -/

private theorem Modifiers.wellFormed {inner t : TypeExpr} {text rest : List Char}
    (h : Modifiers inner text t rest) (hinner : inner.WellFormed) : t.WellFormed := by
  induction h with
  | none => exact hinner
  | pointer _ _ ih => exact ih hinner
  | reference _ _ ih => exact ih hinner
  | const _ _ _ ih => exact ih hinner

theorem Arguments.ne_nil {text rest : List Char} {args : List TypeArg}
    (h : Arguments text args rest) : args ≠ [] := by
  cases h <;> simp

mutual

private theorem Denotes.wellFormed {text rest : List Char} {t : TypeExpr} :
    Denotes text t rest → t.WellFormed
  | .qualified _ _ h => h.wellFormed
  | .plain _ h => h.wellFormed

private theorem Unqualified.wellFormed {text rest : List Char} {t : TypeExpr} :
    Unqualified text t rest → t.WellFormed
  | .name hname _ hmodifiers => hmodifiers.wellFormed hname.isWord
  | .template hname _ _ hargs _ _ hmodifiers =>
    hmodifiers.wellFormed ⟨hname.isWord, hargs.ne_nil, hargs.wellFormed⟩

private theorem Arguments.wellFormed {text rest : List Char} {args : List TypeArg} :
    Arguments text args rest → TypeArg.AllWellFormed args
  | .last harg => ⟨harg.wellFormed, trivial⟩
  | .more harg _ _ hargs => ⟨harg.wellFormed, hargs.wellFormed⟩

private theorem Argument.wellFormed {text rest : List Char} {x : TypeArg} :
    Argument text x rest → x.WellFormed
  | .number _ hsmall => hsmall
  | .type h => h.wellFormed

end

/-! Words in front of a text that cannot go on with them. -/

def Stops (text : List Char) : Prop := ∀ c ∈ text.head?, isQualifiedChar c = false

theorem Stops.nil : Stops [] := by simp [Stops]

theorem Stops.cons {c : Char} (h : isQualifiedChar c = false) (text : List Char) :
    Stops (c :: text) := by
  intro d hd
  cases hd
  exact h

theorem QualifiedName.isQualifiedChar {cs : List Char} (h : QualifiedName cs) :
    ∀ c ∈ cs, TypeExpr.isQualifiedChar c = true := by
  have hword : ∀ ds, Identifier ds → ∀ c ∈ ds, TypeExpr.isQualifiedChar c = true :=
    fun ds hds c hc =>
      isQualifiedChar_of_isIdentChar (isIdentChar_iff.mpr (hds.wordChar c hc))
  induction h with
  | identifier h => exact hword _ h
  | @qualified cs ds hcs _ ih =>
    intro c hc
    rcases List.mem_append.mp hc with hc | hc
    · exact hword cs hcs c hc
    · rcases List.mem_cons.mp hc with rfl | hc
      · decide
      · rcases List.mem_cons.mp hc with rfl | hc
        · decide
        · exact ih c hc

private theorem qualifiedName_iff_spanName {cs : List Char} :
    QualifiedName cs ↔ cs.head?.any isIdentStart = true ∧ (spanName cs).1 = cs := by
  constructor
  · intro h
    obtain ⟨c, rest, rfl, hc⟩ := h.begins
    have hprefix := h.prefix_spanName []
    rw [List.append_nil] at hprefix
    have hback : (spanName (c :: rest)).1 <+: c :: rest := ⟨_, spanName_append (c :: rest)⟩
    exact ⟨by simpa using hc, hback.eq_of_length_le hprefix.length_le⟩
  · rintro ⟨hbegins, hspan⟩
    cases cs with
    | nil => simp at hbegins
    | cons c rest =>
      have hword := (longest_spanName (c := c) (by simpa using hbegins) rest).isWord
      rwa [hspan] at hword

instance (cs : List Char) : Decidable (QualifiedName cs) :=
  decidable_of_iff _ qualifiedName_iff_spanName.symm

private theorem Longest.of_stops {kind : List Char → Prop} {word rest : List Char}
    (hword : kind word)
    (hkind : ∀ other, kind other → ∀ c ∈ other, TypeExpr.isQualifiedChar c = true)
    (hrest : Stops rest) : Longest kind word (word ++ rest) rest where
  isWord := hword
  text_eq := rfl
  longest := by
    intro other hother hprefix
    by_contra hlong
    have hlt : word.length < other.length := Nat.lt_of_not_le hlong
    -- The longer word would take the first character behind this one.
    obtain ⟨more, rfl⟩ : word <+: other :=
      List.prefix_of_prefix_length_le (List.prefix_append _ _) hprefix hlt.le
    have hmore : more <+: rest := (List.prefix_append_right_inj word).mp hprefix
    cases more with
    | nil => simp at hlt
    | cons c more =>
      obtain ⟨tail, rfl⟩ := hmore
      have hc := hkind _ hother c (by simp)
      have hstop : TypeExpr.isQualifiedChar c = false := hrest c rfl
      rw [hc] at hstop
      cases hstop

theorem nameWord_of_stops {n : String} (h : QualifiedName n.toList) {rest : List Char}
    (hrest : Stops rest) : NameWord n (n.toList ++ rest) rest :=
  Longest.of_stops h (fun _ hother => hother.isQualifiedChar) hrest

theorem numberWord_of_stops (n : Nat) {rest : List Char} (hrest : Stops rest) :
    NumberWord n (n.repr.toList ++ rest) rest := by
  have hdigits : Digits n.repr.toList := ⟨digits_ne_nil n, fun c => isDigit_of_mem_repr⟩
  refine ⟨n.repr.toList, Longest.of_stops hdigits ?_ hrest, ?_⟩
  · intro other hother c hc
    exact isQualifiedChar_of_isDigit (hother.2 c hc)
  · rw [Nat.toList_repr, Nat.ofDigitChars_toDigits (by decide) (by decide)]

/-! Spellings are put together from spellings of their parts. -/

theorem Modifiers.trans {s t u : TypeExpr} {text mid rest : List Char}
    (h : Modifiers s text t mid) (h' : Modifiers t mid u rest) : Modifiers s text u rest := by
  induction h with
  | none => exact h'
  | pointer hgap _ ih => exact .pointer hgap (ih h')
  | reference hgap _ ih => exact .reference hgap (ih h')
  | const hgap hconst _ ih => exact .const hgap hconst (ih h')

private theorem Unqualified.modified {t u : TypeExpr} {text mid rest : List Char}
    (h : Unqualified text t mid) (hmodifiers : Modifiers t mid u rest) :
    Unqualified text u rest := by
  cases h with
  | name hname hextent hinner => exact .name hname hextent (hinner.trans hmodifiers)
  | template hname hopen hgap hargs hclose hextent hinner =>
    exact .template hname hopen hgap hargs hclose hextent (hinner.trans hmodifiers)

private theorem Denotes.modified {t u : TypeExpr} {text mid rest : List Char}
    (h : Denotes text t mid)
    (hmodifiers : Modifiers t mid u rest) : Denotes text u rest := by
  cases h with
  | qualified hconst hgap h => exact .qualified hconst hgap (h.modified hmodifiers)
  | plain hconst h => exact .plain hconst (h.modified hmodifiers)

/-- The text spells the type wherever it is followed by what cannot go on with it. -/
def SpelledBy (t : TypeExpr) (text : List Char) : Prop :=
  ∀ rest, Stops rest → Denotes (text ++ rest) t rest

/-- The text spells the argument wherever it is followed by what cannot go on with it. -/
def ArgumentSpelledBy (a : TypeArg) (text : List Char) : Prop :=
  ∀ rest, Stops rest → Argument (text ++ rest) a rest

private theorem Denotes.of_name {n : String} {t : TypeExpr} {text after rest : List Char}
    (hname : NameWord n text after) (hconst : firstSegment n ≠ "const")
    (h : Unqualified text t rest) : Denotes text t rest := by
  refine .plain (fun a ha => ?_) h
  exact hconst (hname.const_iff.mp ⟨a, ha⟩)

private theorem spelledBy_name {n : String} (h : QualifiedName n.toList)
    (hconst : firstSegment n ≠ "const") : SpelledBy (.name n) n.toList := by
  intro rest hrest
  have hname := nameWord_of_stops h hrest
  exact Denotes.of_name hname hconst (.name hname .none .none)

private theorem arguments_of_spelledBy {args : List TypeArg} {parts : List (List Char)}
    (h : List.Forall₂ ArgumentSpelledBy args parts) (hne : args ≠ []) {rest : List Char}
    (hrest : Stops rest) : Arguments (Text.joinWith ',' parts ++ rest) args rest := by
  induction h with
  | nil => exact absurd rfl hne
  | @cons a part args parts ha hargs ih =>
    cases hargs with
    | nil => exact .last (ha rest hrest)
    | @cons b next more others hb hmore =>
      have hothers := ih (by simp)
      have hpart := ha (',' :: (Text.joinWith ',' (next :: others) ++ rest))
        (Stops.cons (by decide) _)
      rw [Text.joinWith, List.append_assoc, List.cons_append]
      exact .more hpart (Gap.refl _) (Gap.refl _) hothers

theorem unqualified_app {n : String} {args : List TypeArg} {parts : List (List Char)}
    (h : QualifiedName n.toList) (hne : args ≠ [])
    (hargs : List.Forall₂ ArgumentSpelledBy args parts) (rest : List Char) :
    ∃ after, NameWord n (n.toList ++ '<' :: Text.joinWith ',' parts ++ ['>'] ++ rest) after ∧
      Unqualified (n.toList ++ '<' :: Text.joinWith ',' parts ++ ['>'] ++ rest) (.app n args)
        rest := by
  have hclose := arguments_of_spelledBy hargs hne (Stops.cons (c := '>') (by decide) rest)
  have hname := nameWord_of_stops h
    (Stops.cons (c := '<') (by decide) (Text.joinWith ',' parts ++ '>' :: rest))
  have htext : n.toList ++ '<' :: Text.joinWith ',' parts ++ ['>'] ++ rest =
      n.toList ++ '<' :: (Text.joinWith ',' parts ++ '>' :: rest) := by simp
  rw [htext]
  exact ⟨_, hname,
    .template hname (Gap.refl _) (Gap.refl _) hclose (Gap.refl _) .none .none⟩

theorem spelledBy_app {n : String} {args : List TypeArg} {parts : List (List Char)}
    (h : QualifiedName n.toList) (hconst : firstSegment n ≠ "const") (hne : args ≠ [])
    (hargs : List.Forall₂ ArgumentSpelledBy args parts) :
    SpelledBy (.app n args) (n.toList ++ '<' :: Text.joinWith ',' parts ++ ['>']) := by
  intro rest _
  obtain ⟨after, hname, happ⟩ := unqualified_app h hne hargs rest
  exact Denotes.of_name hname hconst happ

theorem spelledBy_qualified {t : TypeExpr} {text : List Char}
    (h : ∀ rest, Stops rest → Unqualified (text ++ rest) t rest) :
    SpelledBy t ("const ".toList ++ text) := by
  intro rest hrest
  have hblank : Gap (' ' :: (text ++ rest)) (text ++ rest) := Gap.cons (by decide) (Gap.refl _)
  have hword : ConstWord ("const ".toList ++ text ++ rest) (' ' :: (text ++ rest)) := by
    refine ⟨rfl, fun c hc => ?_⟩
    cases hc
    decide
  exact .qualified hword hblank (h rest hrest)

private theorem SpelledBy.modified {t u : TypeExpr} {text mark : List Char} (h : SpelledBy t text)
    (hstops : ∀ rest, Stops (mark ++ rest)) (hmark : ∀ rest, Modifiers t (mark ++ rest) u rest) :
    SpelledBy u (text ++ mark) := by
  intro rest _
  rw [List.append_assoc]
  exact (h _ (hstops rest)).modified (hmark rest)

theorem SpelledBy.ptr {t : TypeExpr} {text : List Char} (h : SpelledBy t text) :
    SpelledBy (.ptr t) (text ++ ['*']) ∧ SpelledBy (.ptr t) (text ++ [' ', '*']) := by
  constructor
  · apply h.modified
    · exact fun rest => Stops.cons (by decide) rest
    · exact fun rest => .pointer (Gap.refl _) .none
  · apply h.modified
    · exact fun rest => Stops.cons (by decide) ('*' :: rest)
    · exact fun rest => .pointer (Gap.cons (by decide) (Gap.refl _)) .none

theorem SpelledBy.ref {t : TypeExpr} {text : List Char} (h : SpelledBy t text) :
    SpelledBy (.ref t) (text ++ [' ', '&']) := by
  apply h.modified
  · exact fun rest => Stops.cons (by decide) ('&' :: rest)
  · exact fun rest => .reference (Gap.cons (by decide) (Gap.refl _)) .none

end TypeExpr.Grammar

/-! Whether a type can be written is decided name by name. -/

mutual

def TypeExpr.decideWellFormed : (t : TypeExpr) → Decidable t.WellFormed
  | .name n => inferInstanceAs (Decidable (QualifiedName n.toList))
  | .app _ args =>
    have := TypeArg.decideAllWellFormed args
    inferInstanceAs (Decidable (_ ∧ _ ∧ _))
  | .ptr t => t.decideWellFormed
  | .ref t => t.decideWellFormed

def TypeArg.decideWellFormed : (a : TypeArg) → Decidable a.WellFormed
  | .type t => t.decideWellFormed
  | .number n => inferInstanceAs (Decidable (n < Nat.pow 2 64))

def TypeArg.decideAllWellFormed : (args : List TypeArg) → Decidable (TypeArg.AllWellFormed args)
  | [] => .isTrue trivial
  | a :: rest =>
    have := a.decideWellFormed
    have := TypeArg.decideAllWellFormed rest
    inferInstanceAs (Decidable (_ ∧ _))

end

instance (t : TypeExpr) : Decidable t.WellFormed := t.decideWellFormed

open TypeExpr.Grammar (SpelledBy ArgumentSpelledBy)

private theorem TypeArg.toList_listText (args : List TypeArg) :
    (TypeArg.listText args).toList = Text.joinWith ',' (args.map fun a => a.text.toList) := by
  match args with
  | [] => rfl
  | [a] => rfl
  | a :: b :: rest =>
    have hrest := TypeArg.toList_listText (b :: rest)
    rw [TypeArg.listText_cons, String.toList_append, String.toList_append, hrest, List.append_assoc]
    rfl

mutual

theorem TypeExpr.spelledBy_text : ∀ {t : TypeExpr}, t.WellFormed → t.ConstFree →
    SpelledBy t t.text.toList
  | .name _, h, hconst => TypeExpr.Grammar.spelledBy_name h hconst
  | .app n args, h, hconst => by
    have hargs := TypeArg.forall₂_spelledBy_text h.2.2 hconst.2
    have htext : (TypeExpr.app n args).text.toList =
        n.toList ++ '<' :: Text.joinWith ',' (args.map fun a => a.text.toList) ++ ['>'] := by
      simp [TypeExpr.text_app, TypeArg.toList_listText]
    rw [htext]
    exact TypeExpr.Grammar.spelledBy_app h.1 hconst.1 h.2.1 hargs
  | .ptr t, h, hconst => by
    have ht := TypeExpr.spelledBy_text (t := t) h hconst
    rw [TypeExpr.text_ptr, String.toList_append]
    exact ht.ptr.2
  | .ref t, h, hconst => by
    have ht := TypeExpr.spelledBy_text (t := t) h hconst
    rw [TypeExpr.text_ref, String.toList_append]
    exact ht.ref

theorem TypeArg.spelledBy_text : ∀ {a : TypeArg}, a.WellFormed → a.ConstFree →
    ArgumentSpelledBy a a.text.toList
  | .type t, h, hconst => fun rest hrest =>
    .type (TypeExpr.spelledBy_text (t := t) h hconst rest hrest)
  | .number n, h, _ => fun _ hrest =>
    .number (TypeExpr.Grammar.numberWord_of_stops n hrest) h

private theorem TypeArg.forall₂_spelledBy_text :
    ∀ {args : List TypeArg}, TypeArg.AllWellFormed args →
    TypeArg.AllConstFree args →
    List.Forall₂ ArgumentSpelledBy args (args.map fun a => a.text.toList)
  | [], _, _ => .nil
  | _ :: _, h, hconst =>
    .cons (TypeArg.spelledBy_text h.1 hconst.1) (TypeArg.forall₂_spelledBy_text h.2 hconst.2)

end

namespace TypeExpr

theorem parse_wellFormed {s : String} {t : TypeExpr} (h : parse s = .ok t) : t.WellFormed := by
  obtain ⟨text, rest, hdenotes⟩ := exists_denotes_of_parse h
  exact hdenotes.wellFormed

theorem parse_of_spelledBy {s : String} {t : TypeExpr} (h : SpelledBy t s.toList) :
    parse s = .ok t := by
  have hdenotes := h [] Grammar.Stops.nil
  rw [List.append_nil] at hdenotes
  exact parse_of_denotes hdenotes

theorem parse_text {t : TypeExpr} (h : t.WellFormed) (hconst : t.ConstFree) :
    parse t.text = .ok t :=
  parse_of_spelledBy (spelledBy_text h hconst)

end TypeExpr

end NativeBindings
