import NativeBindings.Proofs.TypeExpr.Printing

set_option autoImplicit false
set_option relaxedAutoImplicit false

/-!
Reading printed types. A printed type has the tokens of its tree, and the reader takes nothing else
off them. Main statement: a well-formed type is read back from its printed form just if no name in
it begins with a `const` segment; with such a name the printed form is refused, though some other
text is read as the type.
-/

namespace NativeBindings

open TypeExpr (Token firstSegment wrapModifiers readType readArgs readArg)
open TypeExpr.Grammar (Gap Stops Ends Bare QualifiedName Unqualified SpelledBy ArgumentSpelledBy)

mutual

def TypeExpr.tokens : TypeExpr → List Token
  | .name n => [.name n]
  | .app n args => .name n :: .less :: (TypeArg.listTokens args ++ [.greater])
  | .ptr t => t.tokens ++ [.star]
  | .ref t => t.tokens ++ [.ampersand]

def TypeArg.tokens : TypeArg → List Token
  | .type t => t.tokens
  | .number n => [.number n]

def TypeArg.listTokens : List TypeArg → List Token
  | [] => []
  | [a] => a.tokens
  | a :: b :: rest => a.tokens ++ .comma :: TypeArg.listTokens (b :: rest)

end

/-! The printed form is split into these tokens. -/

namespace TypeExpr.Grammar

/-- The text is split into the tokens wherever it is followed by what cannot go on with it. -/
def ScannedAs (text : List Char) (us : List Token) : Prop :=
  ∀ rest ts, Stops rest → Token.scan rest = some ts → Token.scan (text ++ rest) = some (us ++ ts)

private theorem scannedAs_name {n : String} (h : QualifiedName n.toList) :
    ScannedAs n.toList [.name n] := by
  intro rest ts hrest hts
  exact scan_gap_word (.name n) (Gap.refl _) (nameWord_of_stops h hrest) hts

private theorem scannedAs_number (n : Nat) : ScannedAs n.repr.toList [.number n] := by
  intro rest ts hrest hts
  exact scan_gap_word (.number n) (Gap.refl _) (numberWord_of_stops n hrest) hts

theorem ScannedAs.nil : ScannedAs [] [] := fun _ _ _ hts => hts

theorem ScannedAs.append {xs ys : List Char} {us vs : List Token} (hx : ScannedAs xs us)
    (hy : ScannedAs ys vs) (hstops : ∀ rest, Stops (ys ++ rest)) :
    ScannedAs (xs ++ ys) (us ++ vs) := by
  intro rest ts hrest hts
  rw [List.append_assoc, List.append_assoc]
  exact hx _ _ (hstops rest) (hy rest ts hrest hts)

private theorem ScannedAs.symbol {c : Char} {t : Token} (h : punctuation c = some t)
    {xs : List Char}
    {us : List Token} (hx : ScannedAs xs us) : ScannedAs (c :: xs) (t :: us) := by
  intro rest ts hrest hts
  rw [List.cons_append, scan_symbol h, hx rest ts hrest hts]
  rfl

private theorem ScannedAs.blank {xs : List Char} {us : List Token} (hx : ScannedAs xs us) :
    ScannedAs (' ' :: xs) us := by
  intro rest ts hrest hts
  have hgap : Gap (' ' :: (xs ++ rest)) (xs ++ rest) := Gap.cons (by decide) (Gap.refl _)
  exact (scan_gap hgap).trans (hx rest ts hrest hts)

end TypeExpr.Grammar

open TypeExpr.Grammar (ScannedAs)

mutual

theorem TypeExpr.scannedAs_text : ∀ {t : TypeExpr}, t.WellFormed →
    ScannedAs t.text.toList t.tokens
  | .name _, h => TypeExpr.Grammar.scannedAs_name h
  | .app n args, h => by
    have hclose : ScannedAs ['>'] [.greater] := ScannedAs.nil.symbol rfl
    have hargs := (TypeArg.scannedAs_listText h.2.2).append hclose fun rest =>
      Stops.cons (by decide) rest
    have hopen : ScannedAs ('<' :: ((TypeArg.listText args).toList ++ ['>']))
        (.less :: (TypeArg.listTokens args ++ [.greater])) := hargs.symbol rfl
    have htext : (TypeExpr.app n args).text.toList =
        n.toList ++ '<' :: ((TypeArg.listText args).toList ++ ['>']) := by
      simp [TypeExpr.text_app]
    rw [htext]
    exact (TypeExpr.Grammar.scannedAs_name h.1).append hopen fun rest =>
      Stops.cons (by decide) _
  | .ptr t, h => by
    have hstar : ScannedAs [' ', '*'] [.star] := (ScannedAs.nil.symbol rfl).blank
    rw [TypeExpr.text_ptr, String.toList_append]
    exact (TypeExpr.scannedAs_text (t := t) h).append hstar fun rest =>
      Stops.cons (by decide) ('*' :: rest)
  | .ref t, h => by
    have hampersand : ScannedAs [' ', '&'] [.ampersand] := (ScannedAs.nil.symbol rfl).blank
    rw [TypeExpr.text_ref, String.toList_append]
    exact (TypeExpr.scannedAs_text (t := t) h).append hampersand fun rest =>
      Stops.cons (by decide) ('&' :: rest)

private theorem TypeArg.scannedAs_text : ∀ {a : TypeArg}, a.WellFormed →
    ScannedAs a.text.toList a.tokens
  | .type t, h => TypeExpr.scannedAs_text (t := t) h
  | .number n, _ => TypeExpr.Grammar.scannedAs_number n

private theorem TypeArg.scannedAs_listText : ∀ {args : List TypeArg}, TypeArg.AllWellFormed args →
    ScannedAs (TypeArg.listText args).toList (TypeArg.listTokens args)
  | [], _ => ScannedAs.nil
  | [a], h => TypeArg.scannedAs_text (a := a) h.1
  | a :: b :: rest, h => by
    have hmore : TypeArg.AllWellFormed (b :: rest) := h.2
    have hrest : ScannedAs (',' :: (TypeArg.listText (b :: rest)).toList)
        (.comma :: TypeArg.listTokens (b :: rest)) :=
      (TypeArg.scannedAs_listText hmore).symbol rfl
    have htext : (TypeArg.listText (a :: b :: rest)).toList =
        a.text.toList ++ ',' :: (TypeArg.listText (b :: rest)).toList := by
      simp [TypeArg.listText_cons]
    rw [htext]
    exact (TypeArg.scannedAs_text (a := a) h.1).append hrest fun rest =>
      Stops.cons (by decide) _

end

/-! What the reader takes off these tokens. -/

namespace TypeExpr.Grammar

def Apart (ts : List Token) : Prop := Bare ts ∧ ∀ n, ts.head? ≠ some (.name n)

theorem Ends.apart {ts : List Token} (h : Ends ts) : Apart ts := by
  refine ⟨h.bare, fun n hn => ?_⟩
  simpa using h _ hn

/-- A name in front of no other name is taken just if it does not begin with a `const` segment. -/
theorem takeHead_of_apart {n m : String} {ts us : List Token} (hts : ∀ k, ts.head? ≠ some (.name k))
    (h : takeHead (.name n :: ts) = some (m, us)) :
    firstSegment n ≠ "const" ∧ m = n ∧ us = ts := by
  unfold takeHead at h
  split at h
  · rename_i k rest heq
    obtain ⟨-, rfl⟩ := List.cons.inj heq
    exact absurd rfl (hts k)
  · rename_i k rest _ heq
    obtain ⟨hk, rfl⟩ := List.cons.inj heq
    cases hk
    split at h
    · cases h
    · rename_i hconst
      cases h
      exact ⟨hconst, rfl, rfl⟩
  · cases h

private theorem readType_name {fuel : Nat} {n : String} {ts : List Token}
    {p : TypeExpr × List Token}
    (hts : Apart ts) (h : readType fuel (.name n :: ts) = some p) :
    firstSegment n ≠ "const" ∧ p = wrapModifiers (.name n) ts := by
  cases fuel with
  | zero => simp [readType] at h
  | succ fuel =>
    rw [readType] at h
    split at h
    · cases h
    · rename_i m us hhead
      obtain ⟨-, -, hus⟩ := takeHead_of_apart hts.2 hhead
      exact absurd (by rw [← hus]; rfl) hts.1.1
    · rename_i m us _ hhead
      obtain ⟨hconst, rfl, rfl⟩ := takeHead_of_apart hts.2 hhead
      rw [hts.1.dropExtent] at h
      exact ⟨hconst, (Option.some.inj h).symm⟩

private theorem readType_app {fuel : Nat} {n : String} {ts : List Token} {p : TypeExpr × List Token}
    (h : readType fuel (.name n :: .less :: ts) = some p) :
    firstSegment n ≠ "const" ∧ ∃ inner args rest, readArgs inner ts = some (args, rest) ∧
      p = wrapModifiers (.app n args) (dropExtent rest) := by
  have hless : ∀ k, (Token.less :: ts).head? ≠ some (.name k) := by simp
  cases fuel with
  | zero => simp [readType] at h
  | succ fuel =>
    rw [readType] at h
    split at h
    · cases h
    · rename_i m us hhead
      obtain ⟨hconst, rfl, heq⟩ := takeHead_of_apart hless hhead
      obtain ⟨-, rfl⟩ := List.cons.inj heq
      obtain ⟨⟨args, rest⟩, hargs, hp⟩ := Option.map_eq_some_iff.mp h
      exact ⟨hconst, fuel, args, rest, hargs, hp.symm⟩
    · rename_i m us hnot hhead
      obtain ⟨-, rfl, rfl⟩ := takeHead_of_apart hless hhead
      exact absurd rfl (hnot ts)

private theorem readArg_greater (fuel : Nat) (ts : List Token) :
    readArg fuel (.greater :: ts) = none := by
  cases fuel with
  | zero => simp [readArg]
  | succ fuel =>
    cases fuel with
    | zero => simp [readArg, readType]
    | succ fuel => simp [readArg, readType, TypeExpr.takeHead]

end TypeExpr.Grammar

open TypeExpr.Grammar (Apart)

private theorem TypeExpr.tokens_eq_cons : ∀ t : TypeExpr, ∃ n rest, t.tokens = .name n :: rest
  | .name n => ⟨n, [], rfl⟩
  | .app n args => ⟨n, .less :: (TypeArg.listTokens args ++ [.greater]), rfl⟩
  | .ptr t => by
    obtain ⟨n, rest, h⟩ := t.tokens_eq_cons
    exact ⟨n, rest ++ [.star], by rw [TypeExpr.tokens, h, List.cons_append]⟩
  | .ref t => by
    obtain ⟨n, rest, h⟩ := t.tokens_eq_cons
    exact ⟨n, rest ++ [.ampersand], by rw [TypeExpr.tokens, h, List.cons_append]⟩

mutual

/-- Whatever is read off the tokens of a type is the type itself, with the modifiers behind it. -/
theorem TypeExpr.readType_tokens : ∀ (t : TypeExpr) {fuel : Nat} {ts : List Token}
    {p : TypeExpr × List Token}, Apart ts → readType fuel (t.tokens ++ ts) = some p →
      t.ConstFree ∧ p = wrapModifiers t ts
  | .name _, _, _, _, hts, h => TypeExpr.Grammar.readType_name hts h
  | .app n args, _, ts, _, hts, h => by
    have htokens : (TypeExpr.app n args).tokens ++ ts =
        .name n :: .less :: (TypeArg.listTokens args ++ .greater :: ts) := by
      simp [TypeExpr.tokens]
    rw [htokens] at h
    obtain ⟨hconst, inner, args', rest, hargs, rfl⟩ := TypeExpr.Grammar.readType_app h
    obtain ⟨hfree, heq⟩ := TypeArg.readArgs_tokens args hargs
    cases heq
    exact ⟨⟨hconst, hfree⟩, by rw [hts.1.dropExtent]⟩
  | .ptr t, _, ts, _, _, h => by
    rw [TypeExpr.tokens, List.append_assoc] at h
    exact TypeExpr.readType_tokens t (by simp [Apart, Bare]) h
  | .ref t, _, ts, _, _, h => by
    rw [TypeExpr.tokens, List.append_assoc] at h
    exact TypeExpr.readType_tokens t (by simp [Apart, Bare]) h

private theorem TypeArg.readArg_tokens : ∀ (a : TypeArg) {fuel : Nat} {ts : List Token}
    {p : TypeArg × List Token}, Ends ts → readArg fuel (a.tokens ++ ts) = some p →
      a.ConstFree ∧ p = (a, ts)
  | .number n, _, _, _, _, h => by
    rw [TypeArg.tokens, List.singleton_append] at h
    unfold readArg at h
    exact ⟨trivial, (Option.some.inj h).symm⟩
  | .type t, _, ts, _, hts, h => by
    obtain ⟨n, more, hname⟩ := t.tokens_eq_cons
    unfold readArg at h
    split at h
    · rename_i heq
      rw [TypeArg.tokens, hname] at heq
      cases heq
    · cases h
    · rename_i fuel us _ _
      obtain ⟨⟨u, rest⟩, hread, rfl⟩ := Option.map_eq_some_iff.mp h
      obtain ⟨hfree, heq⟩ := TypeExpr.readType_tokens t hts.apart hread
      rw [hts.wrapModifiers] at heq
      cases heq
      exact ⟨hfree, rfl⟩

private theorem TypeArg.readArgs_tokens : ∀ (args : List TypeArg) {fuel : Nat} {ts : List Token}
    {p : List TypeArg × List Token},
    readArgs fuel (TypeArg.listTokens args ++ .greater :: ts) = some p →
      TypeArg.AllConstFree args ∧ p = (args, ts)
  | [], fuel, ts, _, h => by
    cases fuel with
    | zero => simp [readArgs] at h
    | succ fuel =>
      rw [TypeArg.listTokens, List.nil_append] at h
      simp only [readArgs, TypeExpr.Grammar.readArg_greater] at h
      cases h
  | [a], fuel, ts, _, h => by
    cases fuel with
    | zero => simp [readArgs] at h
    | succ fuel =>
      rw [TypeArg.listTokens] at h
      simp only [readArgs] at h
      split at h
      · rename_i x after hx
        obtain ⟨-, heq⟩ := TypeArg.readArg_tokens a (by simp [Ends]) hx
        cases heq
      · rename_i x after hx
        obtain ⟨hfree, heq⟩ := TypeArg.readArg_tokens a (by simp [Ends]) hx
        cases heq
        exact ⟨⟨hfree, trivial⟩, (Option.some.inj h).symm⟩
      · cases h
  | a :: b :: rest, fuel, ts, _, h => by
    cases fuel with
    | zero => simp [readArgs] at h
    | succ fuel =>
      rw [TypeArg.listTokens, List.append_assoc, List.cons_append] at h
      simp only [readArgs] at h
      split at h
      · rename_i x after hx
        obtain ⟨hfree, heq⟩ := TypeArg.readArg_tokens a (by simp [Ends]) hx
        cases heq
        obtain ⟨⟨args, last⟩, hargs, rfl⟩ := Option.map_eq_some_iff.mp h
        obtain ⟨hothers, heq⟩ := TypeArg.readArgs_tokens (b :: rest) hargs
        cases heq
        exact ⟨⟨hfree, hothers⟩, rfl⟩
      · rename_i x after hx
        obtain ⟨-, heq⟩ := TypeArg.readArg_tokens a (by simp [Ends]) hx
        cases heq
      · cases h

end

/-! Every well-formed type is read from some text. -/

mutual

theorem TypeExpr.exists_spelledBy : ∀ {t : TypeExpr}, t.WellFormed → ∃ text, SpelledBy t text
  | .name n, h => ⟨_, TypeExpr.Grammar.spelledBy_qualified fun _ hrest =>
      .name (TypeExpr.Grammar.nameWord_of_stops h hrest) .none .none⟩
  | .app n args, h => by
    obtain ⟨parts, hparts⟩ := TypeArg.exists_spelledBy h.2.2
    have happ : ∀ rest, Stops rest →
        Unqualified (n.toList ++ '<' :: Text.joinWith ',' parts ++ ['>'] ++ rest) (.app n args)
          rest := by
      intro rest _
      obtain ⟨after, -, happ⟩ := TypeExpr.Grammar.unqualified_app h.1 h.2.1 hparts rest
      exact happ
    exact ⟨_, TypeExpr.Grammar.spelledBy_qualified happ⟩
  | .ptr t, h => by
    obtain ⟨text, htext⟩ := TypeExpr.exists_spelledBy (t := t) h
    exact ⟨_, htext.ptr.1⟩
  | .ref t, h => by
    obtain ⟨text, htext⟩ := TypeExpr.exists_spelledBy (t := t) h
    exact ⟨_, htext.ref⟩

private theorem TypeArg.exists_spelledBy : ∀ {args : List TypeArg}, TypeArg.AllWellFormed args →
    ∃ parts, List.Forall₂ ArgumentSpelledBy args parts
  | [], _ => ⟨[], .nil⟩
  | .type t :: rest, h => by
    obtain ⟨text, htext⟩ := TypeExpr.exists_spelledBy (t := t) h.1
    obtain ⟨parts, hparts⟩ := TypeArg.exists_spelledBy h.2
    exact ⟨text :: parts, .cons (fun after hafter => .type (htext after hafter)) hparts⟩
  | .number n :: rest, h => by
    obtain ⟨parts, hparts⟩ := TypeArg.exists_spelledBy h.2
    have hnumber : ArgumentSpelledBy (.number n) n.repr.toList := fun after hafter =>
      .number (TypeExpr.Grammar.numberWord_of_stops n hafter) h.1
    exact ⟨_ :: parts, .cons hnumber hparts⟩

end

namespace TypeExpr

theorem wellFormed_iff_exists_parse {t : TypeExpr} : t.WellFormed ↔ ∃ s, parse s = .ok t := by
  constructor
  · intro h
    obtain ⟨text, htext⟩ := exists_spelledBy h
    exact ⟨String.ofList text, parse_of_spelledBy (by rwa [String.toList_ofList])⟩
  · rintro ⟨s, hs⟩
    exact parse_wellFormed hs

private theorem of_parse_text {t u : TypeExpr} (h : t.WellFormed) (hread : parse t.text = .ok u) :
    t.ConstFree ∧ u = t := by
  obtain ⟨ts, hscan, hread⟩ := read?_eq_some_iff.mp (parse_eq_ok_iff_read?.mp hread).1
  have hend : Token.scan [] = some [] := by rw [Token.scan]
  have htokens := scannedAs_text h [] [] Stops.nil hend
  rw [List.append_nil, hscan] at htokens
  obtain rfl := Option.some.inj htokens
  have hends : Ends [] := by simp [Ends]
  obtain ⟨hfree, heq⟩ := readType_tokens t hends.apart hread
  cases heq
  exact ⟨hfree, rfl⟩

theorem parse_qualified_name {n : String} (h : QualifiedName n.toList) :
    parse ("const " ++ n) = .ok (.name n) := by
  refine parse_of_spelledBy ?_
  rw [String.toList_append]
  exact Grammar.spelledBy_qualified fun _ hrest =>
    .name (Grammar.nameWord_of_stops h hrest) .none .none

/-- A well-formed type is read back from its printed form just if no name in it begins with a
`const` segment, and otherwise reading fails. Types with such names are read from other texts, as
every well-formed type is; a name of this kind is read behind a qualifier. -/
theorem reads_back_iff_constFree (t : TypeExpr) (h : t.WellFormed) :
    (parse t.text = .ok t ↔ t.ConstFree) ∧
    (¬ t.ConstFree → ∃ r, parse t.text = .error r) ∧
    (∃ s, parse s = .ok t) ∧
    ∀ n : String, QualifiedName n.toList → parse ("const " ++ n) = .ok (.name n) := by
  refine ⟨⟨fun hread => (of_parse_text h hread).1, parse_text h⟩, fun hconst => ?_,
    wellFormed_iff_exists_parse.mp h, fun _ => parse_qualified_name⟩
  cases hread : parse t.text with
  | error r => exact ⟨r, rfl⟩
  | ok u => exact absurd (of_parse_text h hread).1 hconst

def constPair : TypeExpr :=
  .app "std::pair" [.type (.ref (.app "std::array" [.type (.name "bool"), .number 3])),
    .type (.ptr (.name "const::iterator"))]

theorem reads_back_iff_constFree_constPair :
    constPair.WellFormed ∧ ¬ constPair.ConstFree ∧
    constPair.text = "std::pair<std::array<bool,3> &,const::iterator *>" ∧
    (∃ r, parse "std::pair<std::array<bool,3> &,const::iterator *>" = .error r) ∧
    (∃ s, parse s = .ok constPair) ∧
    parse "const const" = .ok (.name "const") := by
  have hwell : constPair.WellFormed := by decide
  have hconst : ¬ constPair.ConstFree := by
    rintro ⟨-, -, hsegment, -⟩
    exact hsegment (by decide)
  obtain ⟨-, hrefused, hread, hqualified⟩ := reads_back_iff_constFree constPair hwell
  exact ⟨hwell, hconst, rfl, hrefused hconst, hread, hqualified "const" (by decide)⟩

end TypeExpr

end NativeBindings
