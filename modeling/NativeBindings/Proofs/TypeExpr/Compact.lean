import NativeBindings.Proofs.Text.Nesting
import NativeBindings.Proofs.TypeExpr.Names

set_option autoImplicit false
set_option relaxedAutoImplicit false

/-!
The printed form of a type without its blanks. Main statement: a well-named type can be read off
it, so no two of them print alike.
-/

namespace NativeBindings

open TypeExpr (isIdentStart isIdentChar isQualifiedChar)
open Text (Enclosed joinWith)

mutual

/-- The characters of the printed form of a type, blanks left out. -/
def TypeExpr.compact : TypeExpr → List Char
  | .name n => n.toList
  | .app n args => n.toList ++ '<' :: joinWith ',' (TypeArg.compacts args) ++ ['>']
  | .ptr t => t.compact ++ ['*']
  | .ref t => t.compact ++ ['&']

def TypeArg.compact : TypeArg → List Char
  | .type t => t.compact
  | .number n => n.repr.toList

def TypeArg.compacts : List TypeArg → List (List Char)
  | [] => []
  | a :: rest => a.compact :: TypeArg.compacts rest

end

namespace TypeExpr

private theorem isQualifiedChar_ne {c d : Char} (h : isQualifiedChar c = true)
    (hd : isQualifiedChar d = false) : c ≠ d := by
  rintro rfl
  rw [h] at hd
  cases hd

theorem IsName.notMem {cs : List Char} (h : IsName cs) {d : Char}
    (hd : isQualifiedChar d = false) : d ∉ cs :=
  fun hm => isQualifiedChar_ne (h.2 d hm) hd rfl

theorem IsName.enclosed {cs : List Char} (h : IsName cs) : Enclosed cs :=
  Enclosed.of_plain fun c hc => ⟨isQualifiedChar_ne (h.2 c hc) (by decide),
    isQualifiedChar_ne (h.2 c hc) (by decide), isQualifiedChar_ne (h.2 c hc) (by decide)⟩

/-- A text that begins with a character of identifiers that is no digit. -/
def Begins (cs : List Char) : Prop := cs.head?.any isIdentStart = true

instance (cs : List Char) : Decidable (Begins cs) :=
  inferInstanceAs (Decidable (cs.head?.any isIdentStart = true))

theorem Begins.ne_nil {cs : List Char} (h : Begins cs) : cs ≠ [] := by
  rintro rfl
  simp [Begins] at h

theorem Begins.append {cs : List Char} (h : Begins cs) (ds : List Char) : Begins (cs ++ ds) := by
  cases cs with
  | nil => simp [Begins] at h
  | cons c cs => simpa [Begins] using h

end TypeExpr

theorem digits_ne_nil (n : Nat) : n.repr.toList ≠ [] := by simp

theorem isDigit_of_mem_repr {n : Nat} {c : Char} (h : c ∈ n.repr.toList) : c.isDigit = true :=
  Nat.isDigit_of_mem_toDigits (b := 10) (by decide) (by decide) (by simpa using h)

private theorem repr_injective {m n : Nat} (h : m.repr.toList = n.repr.toList) : m = n := by
  have hm := Nat.ofDigitChars_toDigits (b := 10) (n := m) (by decide) (by decide)
  have hn := Nat.ofDigitChars_toDigits (b := 10) (n := n) (by decide) (by decide)
  simp only [Nat.toList_repr] at h
  rw [← hm, ← hn, h]

private theorem digits_enclosed (n : Nat) : Enclosed n.repr.toList := by
  refine Enclosed.of_plain fun c hc => ?_
  have hd := isDigit_of_mem_repr hc
  refine ⟨?_, ?_, ?_⟩ <;> · rintro rfl; simp at hd

theorem not_isIdentStart_of_isDigit {c : Char} (h : c.isDigit = true) :
    isIdentStart c = false := by
  have hvalues : 'A'.val.toNat = 65 ∧ 'a'.val.toNat = 97 ∧ '9'.val.toNat = 57 := by decide
  have halpha : c.isAlpha = (decide ('A'.val ≤ c.val ∧ c.val ≤ 'Z'.val) ||
      (decide ('a'.val ≤ c.val) && decide (c.val ≤ 'z'.val))) := rfl
  have hc : c ≠ '_' := by
    rintro rfl
    simp at h
  simp only [Char.isDigit, Bool.and_eq_true, decide_eq_true_eq, UInt32.le_iff_toNat_le] at h
  simp only [isIdentStart, halpha, Bool.or_eq_false_iff, Bool.and_eq_false_iff,
    decide_eq_false_iff_not, beq_eq_false_iff_ne, UInt32.le_iff_toNat_le]
  refine ⟨⟨?_, ?_⟩, hc⟩
  · omega
  · omega

private theorem digits_not_begin (n : Nat) : ¬ TypeExpr.Begins n.repr.toList := by
  intro h
  cases hn : n.repr.toList with
  | nil => exact digits_ne_nil n hn
  | cons c cs =>
    have hd := isDigit_of_mem_repr (n := n) (c := c) (by simp [hn])
    have hs : isIdentStart c = true := by simpa [TypeExpr.Begins, hn] using h
    simp [not_isIdentStart_of_isDigit hd] at hs

mutual

theorem TypeExpr.compact_form : ∀ {t : TypeExpr}, t.WellNamed →
    TypeExpr.Begins t.compact ∧ Enclosed t.compact
  | .name _, h => ⟨h.1, h.enclosed⟩
  | .app _ _, h => by
    rw [TypeExpr.compact, List.append_assoc]
    refine ⟨TypeExpr.Begins.append h.1.1 _, ?_⟩
    rw [← List.append_assoc]
    exact Enclosed.template h.1.enclosed fun p hp => (TypeArg.compacts_form h.2 p hp).1
  | .ptr t, h => by
    obtain ⟨hb, he⟩ := TypeExpr.compact_form (t := t) h
    exact ⟨hb.append _, he.append (by decide)⟩
  | .ref t, h => by
    obtain ⟨hb, he⟩ := TypeExpr.compact_form (t := t) h
    exact ⟨hb.append _, he.append (by decide)⟩

theorem TypeArg.compact_form : ∀ {a : TypeArg}, a.WellNamed →
    Enclosed a.compact ∧ a.compact ≠ []
  | .type _, h => ⟨(TypeExpr.compact_form h).2, (TypeExpr.compact_form h).1.ne_nil⟩
  | .number n, _ => ⟨digits_enclosed n, digits_ne_nil n⟩

private theorem TypeArg.compacts_form : ∀ {args : List TypeArg}, TypeArg.AllWellNamed args →
    ∀ p ∈ TypeArg.compacts args, Enclosed p ∧ p ≠ []
  | [], _ => by simp [TypeArg.compacts]
  | _ :: _, h => by
    intro p hp
    rcases List.mem_cons.mp hp with rfl | hp
    · exact TypeArg.compact_form h.1
    · exact TypeArg.compacts_form h.2 p hp

end

def TypeExpr.isCompactChar (c : Char) : Bool :=
  isQualifiedChar c || c == '<' || c == '>' || c == ',' || c == '*' || c == '&'

theorem isQualifiedChar_of_isDigit {c : Char} (h : c.isDigit = true) :
    isQualifiedChar c = true := by
  simp [isQualifiedChar, isIdentChar, Char.isAlphanum, h]

private theorem TypeExpr.isCompactChar_of_isQualifiedChar {c : Char}
    (h : isQualifiedChar c = true) :
    TypeExpr.isCompactChar c = true := by
  simp [TypeExpr.isCompactChar, h]

mutual

theorem TypeExpr.isCompactChar_of_mem : ∀ {t : TypeExpr} {c : Char}, t.WellNamed →
    c ∈ t.compact → TypeExpr.isCompactChar c = true
  | .name _, c, h, hc => TypeExpr.isCompactChar_of_isQualifiedChar (h.2 c hc)
  | .app _ args, c, h, hc => by
    simp only [TypeExpr.compact, List.mem_append, List.mem_cons, List.not_mem_nil,
      or_false] at hc
    rcases hc with (hc | rfl | hc) | rfl
    · exact TypeExpr.isCompactChar_of_isQualifiedChar (h.1.2 c hc)
    · decide
    · rcases Text.mem_joinWith hc with rfl | ⟨part, hpart, hc⟩
      · decide
      · exact TypeArg.isCompactChar_of_mem h.2 hpart hc
    · decide
  | .ptr t, c, h, hc => by
    simp only [TypeExpr.compact, List.mem_append, List.mem_singleton] at hc
    rcases hc with hc | rfl
    · exact TypeExpr.isCompactChar_of_mem (t := t) h hc
    · decide
  | .ref t, c, h, hc => by
    simp only [TypeExpr.compact, List.mem_append, List.mem_singleton] at hc
    rcases hc with hc | rfl
    · exact TypeExpr.isCompactChar_of_mem (t := t) h hc
    · decide

theorem TypeArg.isCompactChar_of_mem : ∀ {args : List TypeArg} {part : List Char} {c : Char},
    TypeArg.AllWellNamed args → part ∈ TypeArg.compacts args → c ∈ part →
    TypeExpr.isCompactChar c = true
  | .type t :: rest, part, c, h, hpart, hc => by
    rcases List.mem_cons.mp hpart with rfl | hpart
    · exact TypeExpr.isCompactChar_of_mem (t := t) h.1 hc
    · exact TypeArg.isCompactChar_of_mem h.2 hpart hc
  | .number n :: rest, part, c, h, hpart, hc => by
    rcases List.mem_cons.mp hpart with rfl | hpart
    · exact TypeExpr.isCompactChar_of_isQualifiedChar
        (isQualifiedChar_of_isDigit (isDigit_of_mem_repr hc))
    · exact TypeArg.isCompactChar_of_mem h.2 hpart hc

end

namespace TypeExpr

private theorem name_compact_ne_app {m n : String} (hm : IsName m.toList) (args : List TypeArg) :
    (TypeExpr.name m).compact ≠ (TypeExpr.app n args).compact := by
  intro h
  have hmem : '<' ∈ (TypeExpr.name m).compact := by
    rw [h]
    simp [compact]
  exact hm.notMem (by decide) hmem

private theorem name_compact_ne_append {m : String} (hm : IsName m.toList) {c : Char}
    (hc : isQualifiedChar c = false) (cs : List Char) :
    (TypeExpr.name m).compact ≠ cs ++ [c] := by
  intro h
  have hmem : c ∈ (TypeExpr.name m).compact := by
    rw [h]
    simp
  exact hm.notMem hc hmem

private theorem app_compact_ne_append {c : Char} (hc : c ≠ '>') (n : String)
    (args : List TypeArg) (cs : List Char) : (TypeExpr.app n args).compact ≠ cs ++ [c] := by
  intro h
  have hlast := congrArg List.getLast? h
  simp only [compact, List.getLast?_append, List.getLast?_singleton, Option.some_or,
    Option.some.injEq] at hlast
  exact hc hlast.symm

end TypeExpr

mutual

theorem TypeExpr.compact_inj : ∀ {t u : TypeExpr}, t.WellNamed → u.WellNamed →
    t.compact = u.compact → t = u
  | .name m, .name n, _, _, h => by rw [String.toList_injective h]
  | .name _, .app _ args, ht, _, h => absurd h (TypeExpr.name_compact_ne_app ht args)
  | .name _, .ptr _, ht, _, h => absurd h (TypeExpr.name_compact_ne_append ht (by decide) _)
  | .name _, .ref _, ht, _, h => absurd h (TypeExpr.name_compact_ne_append ht (by decide) _)
  | .app _ args, .name _, _, hu, h => absurd h.symm (TypeExpr.name_compact_ne_app hu args)
  | .app m as, .app n bs, ht, hu, h => by
    simp only [TypeExpr.compact, List.append_assoc, List.cons_append] at h
    obtain ⟨hname, hargs⟩ := Text.append_cons_inj (ht.1.notMem (by decide))
      (hu.1.notMem (by decide)) h
    have hjoined := List.append_cancel_right hargs
    have hcompacts := Text.joinWith_comma_inj (TypeArg.compacts_form ht.2)
      (TypeArg.compacts_form hu.2) hjoined
    rw [String.toList_injective hname, TypeArg.compacts_inj ht.2 hu.2 hcompacts]
  | .app n args, .ptr _, _, _, h =>
    absurd h (TypeExpr.app_compact_ne_append (by decide) n args _)
  | .app n args, .ref _, _, _, h =>
    absurd h (TypeExpr.app_compact_ne_append (by decide) n args _)
  | .ptr _, .name _, _, hu, h =>
    absurd h.symm (TypeExpr.name_compact_ne_append hu (by decide) _)
  | .ptr _, .app n args, _, _, h =>
    absurd h.symm (TypeExpr.app_compact_ne_append (by decide) n args _)
  | .ptr t, .ptr u, ht, hu, h => by
    rw [TypeExpr.compact_inj (t := t) (u := u) ht hu (List.append_cancel_right h)]
  | .ptr t, .ref u, _, _, h => by simp [TypeExpr.compact] at h
  | .ref _, .name _, _, hu, h =>
    absurd h.symm (TypeExpr.name_compact_ne_append hu (by decide) _)
  | .ref _, .app n args, _, _, h =>
    absurd h.symm (TypeExpr.app_compact_ne_append (by decide) n args _)
  | .ref t, .ptr u, _, _, h => by simp [TypeExpr.compact] at h
  | .ref t, .ref u, ht, hu, h => by
    rw [TypeExpr.compact_inj (t := t) (u := u) ht hu (List.append_cancel_right h)]

theorem TypeArg.compact_inj : ∀ {a b : TypeArg}, a.WellNamed → b.WellNamed →
    a.compact = b.compact → a = b
  | .type t, .type u, ha, hb, h => by rw [TypeExpr.compact_inj (t := t) (u := u) ha hb h]
  | .type t, .number n, ha, _, h => by
    have hbegins := (TypeExpr.compact_form (t := t) ha).1
    rw [show t.compact = n.repr.toList from h] at hbegins
    exact absurd hbegins (digits_not_begin n)
  | .number n, .type u, _, hb, h => by
    have hbegins := (TypeExpr.compact_form (t := u) hb).1
    rw [show u.compact = n.repr.toList from h.symm] at hbegins
    exact absurd hbegins (digits_not_begin n)
  | .number _, .number _, _, _, h => by rw [repr_injective h]

private theorem TypeArg.compacts_inj : ∀ {as bs : List TypeArg}, TypeArg.AllWellNamed as →
    TypeArg.AllWellNamed bs → TypeArg.compacts as = TypeArg.compacts bs → as = bs
  | [], [], _, _, _ => rfl
  | [], _ :: _, _, _, h => by simp [TypeArg.compacts] at h
  | _ :: _, [], _, _, h => by simp [TypeArg.compacts] at h
  | a :: as, b :: bs, ha, hb, h => by
    obtain ⟨hhead, htail⟩ := List.cons.inj h
    rw [TypeArg.compact_inj ha.1 hb.1 hhead, TypeArg.compacts_inj ha.2 hb.2 htail]

end

end NativeBindings
