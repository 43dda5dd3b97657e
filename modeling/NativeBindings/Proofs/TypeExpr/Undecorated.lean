import NativeBindings.Proofs.TypeExpr.Printing

set_option autoImplicit false
set_option relaxedAutoImplicit false

/-!
Type texts without their decorations, which are the words `const`, the `&` and the extents. Main
statement: two texts with the same tokens besides decorations are read as types that differ in
references at most.
-/

namespace NativeBindings

open TypeExpr (Token)

namespace TypeExpr

def Token.undecorated : List Token → List Token
  | [] => []
  | .name n :: rest =>
    if n = "const" then Token.undecorated rest else .name n :: Token.undecorated rest
  | .ampersand :: rest => Token.undecorated rest
  | .openBracket :: .closeBracket :: rest => Token.undecorated rest
  | .openBracket :: .number _ :: .closeBracket :: rest => Token.undecorated rest
  | t :: rest => t :: Token.undecorated rest

/-- Two texts with the same tokens besides decorations. -/
def Alike (s₁ s₂ : String) : Prop :=
  (Token.scan s₁.toList).map Token.undecorated = (Token.scan s₂.toList).map Token.undecorated

instance (s₁ s₂ : String) : Decidable (Alike s₁ s₂) :=
  inferInstanceAs (Decidable (_ = _))

/-- What is left of a name. A type may be named `const` behind a qualifier. -/
def nameCore (n : String) : List Token := if n = "const" then [] else [.name n]

end TypeExpr

mutual

def TypeExpr.core : TypeExpr → List Token
  | .name n => TypeExpr.nameCore n
  | .app n args => TypeExpr.nameCore n ++ .less :: (TypeArg.listCore args ++ [.greater])
  | .ptr t => t.core ++ [.star]
  | .ref t => t.core

def TypeArg.core : TypeArg → List Token
  | .type t => t.core
  | .number n => [.number n]

def TypeArg.listCore : List TypeArg → List Token
  | [] => []
  | [a] => a.core
  | a :: b :: rest => a.core ++ .comma :: TypeArg.listCore (b :: rest)

end

mutual

/-- The type without its references, those in arguments included. -/
def TypeExpr.value : TypeExpr → TypeExpr
  | .name n => .name n
  | .app n args => .app n (TypeArg.listValue args)
  | .ptr t => .ptr t.value
  | .ref t => t.value

def TypeArg.value : TypeArg → TypeArg
  | .type t => .type t.value
  | .number n => .number n

def TypeArg.listValue : List TypeArg → List TypeArg
  | [] => []
  | a :: rest => a.value :: TypeArg.listValue rest

end

namespace TypeExpr

private theorem Token.undecorated_name (n : String) (rest : List Token) :
    Token.undecorated (.name n :: rest) = nameCore n ++ Token.undecorated rest := by
  rw [Token.undecorated, nameCore]
  split <;> rfl

/-! What a reader takes off the tokens has its core there. -/

private theorem undecorated_of_takeHead {us rest : List Token} {n : String}
    (h : takeHead us = some (n, rest)) :
    Token.undecorated us = nameCore n ++ Token.undecorated rest := by
  unfold takeHead at h
  split at h
  · cases h
    rw [Token.undecorated, if_pos rfl, Token.undecorated_name]
  · split at h
    · cases h
    · cases h
      exact Token.undecorated_name _ _
  · cases h

private theorem undecorated_dropExtent (us : List Token) :
    Token.undecorated (dropExtent us) = Token.undecorated us := by
  unfold dropExtent
  split
  · rfl
  · rfl
  · rfl

private theorem undecorated_wrapModifiers (t : TypeExpr) (us : List Token) :
    (wrapModifiers t us).1.core ++ Token.undecorated (wrapModifiers t us).2 =
      t.core ++ Token.undecorated us := by
  fun_induction wrapModifiers t us with
  | case1 t rest ih => simpa [core, Token.undecorated] using ih
  | case2 t rest ih => simpa [core, Token.undecorated] using ih
  | case3 t rest ih => simpa [Token.undecorated] using ih
  | case4 => rfl
  | case5 => rfl

/-- Whatever the reader takes off the tokens, its core stands at their beginning once decorations
are left out. -/
private def Cored {α : Type} (core : α → List Token)
    (read : List Token → Option (α × List Token)) : Prop :=
  ∀ us x rest, read us = some (x, rest) →
    Token.undecorated us = core x ++ Token.undecorated rest

private def closedCore (args : List TypeArg) : List Token :=
  TypeArg.listCore args ++ [.greater]

private theorem readType_cored {fuel : Nat} (hargs : Cored closedCore (readArgs fuel)) :
    Cored core (readType (fuel + 1)) := by
  intro us t rest h
  simp only [readType] at h
  split at h
  · cases h
  · rename_i n inner hhead
    obtain ⟨⟨args, after⟩, hread, hwrap⟩ := Option.map_eq_some_iff.mp h
    have hwrapped := undecorated_wrapModifiers (.app n args) (dropExtent after)
    have hbracket : Token.undecorated (.less :: inner) = .less :: Token.undecorated inner := rfl
    rw [hwrap, undecorated_dropExtent] at hwrapped
    rw [undecorated_of_takeHead hhead, hbracket, hargs _ _ _ hread]
    simpa [core, closedCore] using hwrapped.symm
  · rename_i n after _ hhead
    have hwrapped := undecorated_wrapModifiers (.name n) (dropExtent after)
    rw [Option.some.inj h, undecorated_dropExtent] at hwrapped
    rw [undecorated_of_takeHead hhead]
    exact hwrapped.symm

private theorem ne_nil_of_readArgs {fuel : Nat} {us rest : List Token} {args : List TypeArg}
    (h : readArgs fuel us = some (args, rest)) : args ≠ [] := by
  cases fuel with
  | zero => simp [readArgs] at h
  | succ fuel =>
    simp only [readArgs] at h
    split at h
    · obtain ⟨⟨more, after⟩, -, he⟩ := Option.map_eq_some_iff.mp h
      cases he
      simp
    · cases h
      simp
    · cases h

private theorem readArgs_cored {fuel : Nat} (harg : Cored TypeArg.core (readArg fuel))
    (hargs : Cored closedCore (readArgs fuel)) : Cored closedCore (readArgs (fuel + 1)) := by
  intro us args rest h
  simp only [readArgs] at h
  split at h
  · rename_i a tail hread
    obtain ⟨⟨more, after⟩, hmore, he⟩ := Option.map_eq_some_iff.mp h
    cases he
    have hcomma : Token.undecorated (.comma :: tail) = .comma :: Token.undecorated tail := rfl
    rw [harg _ _ _ hread, hcomma, hargs _ _ _ hmore]
    obtain ⟨b, others, rfl⟩ := List.exists_cons_of_ne_nil (ne_nil_of_readArgs hmore)
    simp [closedCore, TypeArg.listCore]
  · rename_i a tail hread
    cases h
    have hbracket : Token.undecorated (.greater :: rest) = .greater :: Token.undecorated rest := rfl
    rw [harg _ _ _ hread, hbracket]
    simp [closedCore, TypeArg.listCore]
  · cases h

private theorem readArg_cored {fuel : Nat}
    (htype : ∀ smaller, fuel = smaller + 1 → Cored core (readType smaller)) :
    Cored TypeArg.core (readArg fuel) := by
  intro us a rest h
  unfold readArg at h
  split at h
  · cases h
    rfl
  · cases h
  · obtain ⟨⟨t, after⟩, hread, he⟩ := Option.map_eq_some_iff.mp h
    cases he
    exact htype _ rfl _ _ _ hread

private theorem readers_cored (fuel : Nat) :
    Cored core (readType fuel) ∧ Cored closedCore (readArgs fuel) ∧
      Cored TypeArg.core (readArg fuel) := by
  induction fuel with
  | zero =>
    refine ⟨?_, ?_, readArg_cored fun _ h => by cases h⟩
    · intro us t rest h
      simp [readType] at h
    · intro us args rest h
      simp [readArgs] at h
  | succ fuel ih =>
    obtain ⟨htype, hargs, harg⟩ := ih
    refine ⟨readType_cored hargs, readArgs_cored harg hargs, readArg_cored ?_⟩
    rintro smaller h
    cases h
    exact htype

private theorem undecorated_of_read? {s : String} {t : TypeExpr} (h : read? s = some t) :
    (Token.scan s.toList).map Token.undecorated = some t.core := by
  obtain ⟨us, hscan, hread⟩ := Option.bind_eq_some_iff.mp h
  unfold ofTokens? at hread
  split at hread
  · rename_i u hu
    cases hread
    rw [hscan, Option.map_some, (readers_cored _).1 _ _ _ hu, Token.undecorated, List.append_nil]
  · cases hread

/-! The core tells the types apart, references aside. -/

def Follows (ts : List Token) : Prop := ∀ t ∈ ts.head?, t = .star ∨ t = .comma ∨ t = .greater

private theorem Follows.head?_ne_name {ts : List Token} (h : Follows ts) (n : String) :
    ts.head? ≠ some (.name n) := fun hn => by simpa using h _ hn

theorem Follows.star (ts : List Token) : Follows (.star :: ts) := by simp [Follows]

private theorem Grammar.ends_comma (ts : List Token) : Grammar.Ends (.comma :: ts) := by
  simp [Grammar.Ends]

private theorem Grammar.ends_greater (ts : List Token) : Grammar.Ends (.greater :: ts) := by
  simp [Grammar.Ends]

private theorem Grammar.Ends.follows {ts : List Token} (h : Grammar.Ends ts) : Follows ts :=
  fun t ht => .inr (h t ht)

private theorem nameCore_append_inj {m n : String} {ts us : List Token}
    (hts : ∀ k, ts.head? ≠ some (.name k)) (hus : ∀ k, us.head? ≠ some (.name k))
    (h : nameCore m ++ ts = nameCore n ++ us) : m = n ∧ ts = us := by
  unfold nameCore at h
  split at h <;> split at h
  · rename_i hm hn
    exact ⟨hm.trans hn.symm, h⟩
  · rw [List.nil_append] at h
    exact absurd (by rw [h]; rfl) (hts n)
  · rw [List.nil_append] at h
    exact absurd (by rw [← h]; rfl) (hus m)
  · simpa using h

private theorem head?_core_append (k : Nat) : ∀ (t : TypeExpr) {ts : List Token},
    (t.core ++ ts).head? = some (.number k) → ts.head? = some (.number k)
  | .name n, ts, h => by
    rw [core, nameCore] at h
    split at h
    · exact h
    · simp at h
  | .app n args, ts, h => by
    rw [core, nameCore] at h
    split at h <;> simp at h
  | .ptr t, ts, h => by
    rw [core, List.append_assoc] at h
    have hstar := head?_core_append k t h
    simp at hstar
  | .ref t, ts, h => head?_core_append k t h

end TypeExpr

open TypeExpr (Follows nameCore_append_inj wrapModifiers)
open TypeExpr.Grammar (Ends ends_comma ends_greater)

mutual

theorem TypeExpr.core_inj : ∀ {t u : TypeExpr} {ts us : List Token}, t.WellFormed → u.WellFormed →
    Follows ts → Follows us → t.core ++ ts = u.core ++ us →
    wrapModifiers t.value ts = wrapModifiers u.value us
  | .ptr t, u, ts, us, ht, hu, _, hus, h => by
    rw [TypeExpr.core, List.append_assoc] at h
    exact TypeExpr.core_inj (t := t) ht hu (Follows.star ts) hus h
  | .ref t, u, ts, us, ht, hu, hts, hus, h =>
    TypeExpr.core_inj (t := t) (u := u) ht hu hts hus h
  | .name n, .ptr u, ts, us, ht, hu, hts, _, h => by
    rw [TypeExpr.core, TypeExpr.core, List.append_assoc] at h
    exact TypeExpr.core_inj (t := .name n) (u := u) ht hu hts (Follows.star us) h
  | .name n, .ref u, ts, us, ht, hu, hts, hus, h =>
    TypeExpr.core_inj (t := .name n) (u := u) ht hu hts hus h
  | .app n args, .ptr u, ts, us, ht, hu, hts, _, h => by
    rw [TypeExpr.core.eq_def (.ptr u), List.append_assoc] at h
    exact TypeExpr.core_inj (t := .app n args) (u := u) ht hu hts (Follows.star us) h
  | .app n args, .ref u, ts, us, ht, hu, hts, hus, h =>
    TypeExpr.core_inj (t := .app n args) (u := u) ht hu hts hus h
  | .name m, .name n, ts, us, _, _, hts, hus, h => by
    obtain ⟨rfl, rfl⟩ := nameCore_append_inj hts.head?_ne_name hus.head?_ne_name h
    rfl
  | .name m, .app n args, ts, us, _, _, hts, _, h => by
    rw [TypeExpr.core, TypeExpr.core, List.append_assoc] at h
    obtain ⟨-, rfl⟩ := nameCore_append_inj hts.head?_ne_name (by simp) h
    simp [Follows] at hts
  | .app m args, .name n, ts, us, _, _, _, hus, h => by
    rw [TypeExpr.core, TypeExpr.core, List.append_assoc] at h
    obtain ⟨-, rfl⟩ := nameCore_append_inj (by simp) hus.head?_ne_name h
    simp [Follows] at hus
  | .app m as, .app n bs, ts, us, ht, hu, _, _, h => by
    rw [TypeExpr.core, TypeExpr.core, List.append_assoc, List.append_assoc] at h
    obtain ⟨rfl, hbrackets⟩ := nameCore_append_inj (by simp) (by simp) h
    simp only [List.cons_append, List.append_assoc, List.nil_append, List.cons.injEq,
      true_and] at hbrackets
    obtain ⟨hvalues, rfl⟩ := TypeArg.listCore_inj ht.2.1 hu.2.1 ht.2.2 hu.2.2 hbrackets
    rw [TypeExpr.value, TypeExpr.value, hvalues]

private theorem TypeArg.core_inj :
    ∀ {a b : TypeArg} {ts us : List Token}, a.WellFormed → b.WellFormed →
    Ends ts → Ends us → a.core ++ ts = b.core ++ us → a.value = b.value ∧ ts = us
  | .type t, .type u, ts, us, ha, hb, hts, hus, h => by
    have hwrapped := TypeExpr.core_inj (t := t) (u := u) ha hb hts.follows hus.follows h
    rw [hts.wrapModifiers, hus.wrapModifiers] at hwrapped
    obtain ⟨hvalue, hrest⟩ := Prod.mk.inj hwrapped
    exact ⟨by rw [TypeArg.value, TypeArg.value, hvalue], hrest⟩
  | .type t, .number n, ts, us, _, _, hts, _, h => by
    have hnumber : (t.core ++ ts).head? = some (.number n) := congrArg List.head? h
    simpa using hts _ (TypeExpr.head?_core_append n t hnumber)
  | .number n, .type u, ts, us, _, _, _, hus, h => by
    have hnumber : (u.core ++ us).head? = some (.number n) := congrArg List.head? h.symm
    simpa using hus _ (TypeExpr.head?_core_append n u hnumber)
  | .number m, .number n, ts, us, _, _, _, _, h => by
    simpa [TypeArg.core, TypeArg.value] using h

private theorem TypeArg.listCore_inj :
    ∀ {as bs : List TypeArg} {ts us : List Token}, as ≠ [] → bs ≠ [] →
    TypeArg.AllWellFormed as → TypeArg.AllWellFormed bs →
    TypeArg.listCore as ++ .greater :: ts = TypeArg.listCore bs ++ .greater :: us →
    TypeArg.listValue as = TypeArg.listValue bs ∧ ts = us
  | [], _, _, _, hne, _, _, _, _ => absurd rfl hne
  | _ :: _, [], _, _, _, hne, _, _, _ => absurd rfl hne
  | [a], [b], ts, us, _, _, ha, hb, h => by
    obtain ⟨hvalue, hrest⟩ := TypeArg.core_inj (a := a) (b := b) ha.1 hb.1 (ends_greater ts)
      (ends_greater us) h
    exact ⟨congrArg (· :: []) hvalue, (List.cons.inj hrest).2⟩
  | [a], b :: c :: bs, ts, us, _, _, ha, hb, h => by
    rw [TypeArg.listCore, TypeArg.listCore, List.append_assoc] at h
    obtain ⟨-, hrest⟩ := TypeArg.core_inj (a := a) (b := b) ha.1 hb.1 (ends_greater ts)
      (ends_comma _) h
    cases hrest
  | a :: c :: as, [b], ts, us, _, _, ha, hb, h => by
    rw [TypeArg.listCore, TypeArg.listCore, List.append_assoc] at h
    obtain ⟨-, hrest⟩ := TypeArg.core_inj (a := a) (b := b) ha.1 hb.1 (ends_comma _)
      (ends_greater us) h
    cases hrest
  | a :: c :: as, b :: d :: bs, ts, us, _, _, ha, hb, h => by
    rw [TypeArg.listCore, TypeArg.listCore, List.append_assoc, List.append_assoc] at h
    obtain ⟨hvalue, hrest⟩ := TypeArg.core_inj (a := a) (b := b) ha.1 hb.1 (ends_comma _)
      (ends_comma _) h
    obtain ⟨hvalues, rfl⟩ := TypeArg.listCore_inj (List.cons_ne_nil c as)
      (List.cons_ne_nil d bs) ha.2 hb.2 (List.cons.inj hrest).2
    exact ⟨congrArg₂ List.cons hvalue hvalues, rfl⟩

end

theorem TypeExpr.value_eq_of_alike {s₁ s₂ : String} {t₁ t₂ : TypeExpr}
    (h₁ : TypeExpr.parse s₁ = .ok t₁) (h₂ : TypeExpr.parse s₂ = .ok t₂)
    (h : TypeExpr.Alike s₁ s₂) : t₁.value = t₂.value := by
  have hcore : t₁.core = t₂.core := by
    have hread₁ := undecorated_of_read? (parse_eq_ok_iff_read?.mp h₁).1
    have hread₂ := undecorated_of_read? (parse_eq_ok_iff_read?.mp h₂).1
    rw [Alike, hread₁, hread₂] at h
    exact Option.some.inj h
  have hnone : Ends [] := by simp [Ends]
  have hwrapped := core_inj (parse_wellFormed h₁) (parse_wellFormed h₂) hnone.follows
    hnone.follows (congrArg (· ++ []) hcore)
  rw [hnone.wrapModifiers, hnone.wrapModifiers] at hwrapped
  exact (Prod.mk.inj hwrapped).1

end NativeBindings
