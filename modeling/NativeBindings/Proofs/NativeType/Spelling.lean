import NativeBindings.NativeType.Classify
import NativeBindings.Proofs.TypeExpr.Compact

set_option autoImplicit false
set_option relaxedAutoImplicit false

/-!
The canonical spelling of the types that written types stand for. Main statement: no two such types
have the same spelling. Behind it stands a written type for each of them that prints, blanks aside,
as the type is spelled.
-/

namespace NativeBindings

open Text (Enclosed joinWith)

def Text.withoutBlanks (cs : List Char) : List Char := cs.filter (· ≠ ' ')

namespace Text

@[simp] theorem withoutBlanks_nil : withoutBlanks [] = [] := rfl

@[simp] theorem withoutBlanks_append (us vs : List Char) :
    withoutBlanks (us ++ vs) = withoutBlanks us ++ withoutBlanks vs :=
  List.filter_append us vs

@[simp] theorem withoutBlanks_cons_blank (cs : List Char) :
    withoutBlanks (' ' :: cs) = withoutBlanks cs := rfl

@[simp] theorem withoutBlanks_cons {c : Char} (h : c ≠ ' ') (cs : List Char) :
    withoutBlanks (c :: cs) = c :: withoutBlanks cs := by
  simp [withoutBlanks, h]

private theorem withoutBlanks_eq_self {cs : List Char} (h : ' ' ∉ cs) : withoutBlanks cs = cs := by
  refine List.filter_eq_self.mpr fun c hc => ?_
  simpa using fun he : c = ' ' => h (he ▸ hc)

private theorem foldlM_nest_withoutBlanks (cs : List Char) (depth : Nat) :
    (withoutBlanks cs).foldlM nest depth = cs.foldlM nest depth := by
  induction cs generalizing depth with
  | nil => rfl
  | cons c cs ih =>
    by_cases hc : c = ' '
    · simp [hc, ih, nest]
    · simp [hc, ih]

private theorem enclosed_withoutBlanks {cs : List Char} :
    Enclosed (withoutBlanks cs) ↔ Enclosed cs := by
  unfold Enclosed
  rw [foldlM_nest_withoutBlanks]

end Text

open Text (withoutBlanks)

namespace TypeExpr

private theorem IsName.withoutBlanks {cs : List Char} (h : IsName cs) :
    Text.withoutBlanks cs = cs :=
  Text.withoutBlanks_eq_self (h.notMem (by decide))

end TypeExpr

private theorem digits_withoutBlanks (n : Nat) : withoutBlanks n.repr.toList = n.repr.toList := by
  refine Text.withoutBlanks_eq_self fun h => ?_
  have hd := isDigit_of_mem_repr h
  simp at hd

private theorem TypeArg.joinWith_compacts_cons (a b : TypeArg) (rest : List TypeArg) :
    joinWith ',' (TypeArg.compacts (a :: b :: rest)) =
      a.compact ++ ',' :: joinWith ',' (TypeArg.compacts (b :: rest)) := rfl

mutual

private theorem TypeExpr.withoutBlanks_text : ∀ {t : TypeExpr}, t.WellNamed →
    withoutBlanks t.text.toList = t.compact
  | .name _, h => h.withoutBlanks
  | .app n args, h => by
    have hhead := h.1.withoutBlanks
    have hargs := TypeArg.withoutBlanks_listText h.2
    simp [TypeExpr.text_app, TypeExpr.compact, hhead, hargs]
  | .ptr t, h => by
    have ht := TypeExpr.withoutBlanks_text (t := t) h
    simp [TypeExpr.text_ptr, TypeExpr.compact, ht]
  | .ref t, h => by
    have ht := TypeExpr.withoutBlanks_text (t := t) h
    simp [TypeExpr.text_ref, TypeExpr.compact, ht]

private theorem TypeArg.withoutBlanks_text : ∀ {a : TypeArg}, a.WellNamed →
    withoutBlanks a.text.toList = a.compact
  | .type t, h => TypeExpr.withoutBlanks_text (t := t) h
  | .number n, _ => digits_withoutBlanks n

private theorem TypeArg.withoutBlanks_listText :
    ∀ {args : List TypeArg}, TypeArg.AllWellNamed args →
    withoutBlanks (TypeArg.listText args).toList = joinWith ',' (TypeArg.compacts args)
  | [], _ => rfl
  | [a], h => TypeArg.withoutBlanks_text (a := a) h.1
  | a :: b :: rest, h => by
    have ha := TypeArg.withoutBlanks_text (a := a) h.1
    have hrest := TypeArg.withoutBlanks_listText h.2
    simp [TypeArg.listText_cons, TypeArg.joinWith_compacts_cons, ha, hrest]

end

namespace NativeType

def compact (t : NativeType) : List Char := withoutBlanks t.spelling.toList

private theorem withoutBlanks_listSpelling (ts : List NativeType) :
    withoutBlanks (listSpelling ts).toList = joinWith ',' (ts.map compact) := by
  match ts with
  | [] => rfl
  | [t] => rfl
  | t :: u :: rest =>
    have hrest := withoutBlanks_listSpelling (u :: rest)
    have hjoin : joinWith ',' ((t :: u :: rest).map compact) =
        t.compact ++ ',' :: joinWith ',' ((u :: rest).map compact) := rfl
    rw [hjoin, ← hrest]
    simp [listSpelling_cons, compact]

theorem ofName_cases (n : String) : (∃ p, ofName n = .primitive p) ∨ (∃ h, ofName n = .handle h) ∨
    ofName n = .unknown n := by
  unfold ofName
  cases hl : knownNames.lookup (shortName n) with
  | none => exact Or.inr (Or.inr rfl)
  | some t =>
    obtain ⟨before, after, heq, -⟩ := List.lookup_eq_some_iff.mp hl
    have hmem : t ∈ knownNames.map Prod.snd := by simp [heq]
    simp only [knownNames, List.map_cons, List.map_nil, List.mem_cons, List.not_mem_nil,
      or_false] at hmem
    rcases hmem with rfl | rfl | rfl | rfl | rfl | rfl | rfl | rfl | rfl | rfl | rfl | rfl | rfl |
      rfl | rfl | rfl | rfl
    all_goals simp

theorem ofTemplate?_eq_some {head : String} {args : List NativeType.Argument} {t : NativeType}
    (h : ofTemplate? head args = some t) :
    (∃ n, t = .boolArray n) ∨ (∃ k, t = .handle k) ∨
      ∃ ts, head = "std::tuple" ∧ Argument.types? args = some ts ∧ t = .tuple ts := by
  unfold ofTemplate? at h
  split_ifs at h with harray hvector htuple
  · split at h
    · rename_i u n
      unfold arrayOf? at h
      split at h
      · exact Or.inl ⟨n, (Option.some.inj h).symm⟩
      · cases h
    · cases h
  · split at h
    · rename_i u
      unfold vectorOf? at h
      split at h
      · exact Or.inr (Or.inl ⟨_, (Option.some.inj h).symm⟩)
      · exact Or.inr (Or.inl ⟨_, (Option.some.inj h).symm⟩)
      · cases h
    · cases h
  · obtain ⟨ts, hts, rfl⟩ := Option.map_eq_some_iff.mp h
    exact Or.inr (Or.inr ⟨ts, htuple, hts, rfl⟩)

theorem types?_ofArgs (es : List TypeExpr) :
    Argument.types? (Argument.ofArgs (es.map .type)) = some (es.map ofExpr) := by
  induction es with
  | nil => rfl
  | cons e es ih => simp [Argument.ofArgs, Argument.ofArg, Argument.types?, ih]

theorem exists_ofExpr_of_ptr {e : TypeExpr} {t : NativeType} (h : ofExpr e = .ptr t) :
    ∃ f : TypeExpr, ofExpr f = t ∧ (e.WellNamed → f.WellNamed) := by
  match e with
  | .name n =>
    rcases ofName_cases n with ⟨p, hp⟩ | ⟨k, hk⟩ | hn <;> simp_all [ofExpr]
  | .app head args =>
    simp only [ofExpr] at h
    cases ht : ofTemplate? head (Argument.ofArgs args) with
    | none => simp [ht] at h
    | some u =>
      rcases ofTemplate?_eq_some ht with ⟨n, rfl⟩ | ⟨k, rfl⟩ | ⟨ts, -, -, rfl⟩ <;>
        simp [ht] at h
  | .ref e => exact exists_ofExpr_of_ptr (e := e) h
  | .ptr e =>
    cases h
    exact ⟨e, rfl, id⟩

/-- A well-named written type that stands for the type and prints, blanks aside, as it is
spelled. -/
def Written (t : NativeType) (e : TypeExpr) : Prop :=
  e.WellNamed ∧ ofExpr e = t ∧ e.compact = t.compact

theorem exists_written_primitive (p : Primitive) : ∃ e, Written (.primitive p) e := by
  refine ⟨.name p.spelling, ?_⟩
  cases p <;> exact ⟨TypeExpr.wellNamed_name (by decide), rfl, by decide⟩

theorem exists_written_handle (k : Handle) : ∃ e, Written (.handle k) e := by
  by_cases hlist : k = .tensorList
  · subst hlist
    exact ⟨.app "std::vector" [.type (.name "at::Tensor")],
      ⟨by decide, TypeExpr.wellNamed_name (by decide), trivial⟩, rfl, by decide⟩
  · by_cases harray : k = .intArray
    · subst harray
      exact ⟨.app "std::vector" [.type (.name "int64_t")],
        ⟨by decide, TypeExpr.wellNamed_name (by decide), trivial⟩, rfl, by decide⟩
    · refine ⟨.name k.spelling, ?_⟩
      cases k
      case tensorList => exact absurd rfl hlist
      case intArray => exact absurd rfl harray
      all_goals exact ⟨TypeExpr.wellNamed_name (by decide), rfl, by decide⟩

theorem exists_written_boolArray (n : Nat) : ∃ e, Written (.boolArray n) e := by
  refine ⟨.app "std::array" [.type (.name "bool"), .number n],
    ⟨by decide, TypeExpr.wellNamed_name (by decide), trivial, trivial⟩, rfl, ?_⟩
  have hn : withoutBlanks (Nat.toDigits 10 n) = Nat.toDigits 10 n := by
    simpa using digits_withoutBlanks n
  simp [compact, TypeExpr.compact, TypeArg.compacts, TypeArg.compact, joinWith, hn]

private theorem exists_written_name {n : String} (h : TypeExpr.IsName n.toList) :
    ∃ e, Written (ofName n) e := by
  rcases ofName_cases n with ⟨p, hp⟩ | ⟨k, hk⟩ | hunknown
  · rw [hp]
    exact exists_written_primitive p
  · rw [hk]
    exact exists_written_handle k
  · refine ⟨.name n, h, rfl, ?_⟩
    rw [hunknown]
    exact h.withoutBlanks.symm

theorem Written.ptr {t : NativeType} {e : TypeExpr} (h : Written t e) :
    Written (.ptr t) (.ptr e) := by
  obtain ⟨hnamed, htype, hcompact⟩ := h
  refine ⟨hnamed, congrArg NativeType.ptr htype, ?_⟩
  simp only [TypeExpr.compact, hcompact, compact, spelling_ptr, String.toList_append,
    Text.withoutBlanks_append]
  rfl

theorem Written.tuple {ts : List NativeType} {args : List TypeArg}
    (hnamed : TypeArg.AllWellNamed args)
    (htypes : Argument.types? (Argument.ofArgs args) = some ts)
    (hcompacts : TypeArg.compacts args = ts.map compact) :
    Written (.tuple ts) (.app "std::tuple" args) := by
  refine ⟨⟨by decide, hnamed⟩, ?_, ?_⟩
  · simp [ofExpr, ofTemplate?, htypes]
  · simp [compact, TypeExpr.compact, hcompacts, withoutBlanks_listSpelling]

private theorem written_unknown {head : String} {args : List TypeArg}
    (hnamed : (TypeExpr.app head args).WellNamed)
    (h : ofTemplate? head (Argument.ofArgs args) = none) :
    Written (ofExpr (.app head args)) (.app head args) := by
  refine ⟨hnamed, rfl, ?_⟩
  have htype : ofExpr (.app head args) = .unknown (TypeExpr.app head args).text := by
    simp [ofExpr, h]
  rw [htype]
  exact (TypeExpr.withoutBlanks_text hnamed).symm

mutual

/-- Each type that a well-named written type stands for has a written type that prints as the
type is spelled. -/
theorem exists_written : ∀ {e : TypeExpr}, e.WellNamed → ∃ w, Written (ofExpr e) w
  | .name _, h => exists_written_name h
  | .ref e, h => exists_written (e := e) h
  | .ptr e, h => by
    obtain ⟨w, hw⟩ := exists_written (e := e) h
    exact ⟨.ptr w, hw.ptr⟩
  | .app head args, h => by
    cases ht : ofTemplate? head (Argument.ofArgs args) with
    | none => exact ⟨_, written_unknown h ht⟩
    | some t =>
      have htype : ofExpr (.app head args) = t := by simp [ofExpr, ht]
      rw [htype]
      rcases ofTemplate?_eq_some ht with ⟨n, rfl⟩ | ⟨k, rfl⟩ | ⟨ts, rfl, hts, rfl⟩
      · exact exists_written_boolArray n
      · exact exists_written_handle k
      · obtain ⟨ws, hnamed, htypes, hcompacts⟩ := exists_written_args h.2 hts
        exact ⟨_, Written.tuple hnamed htypes hcompacts⟩

private theorem exists_written_args : ∀ {args : List TypeArg} {ts : List NativeType},
    TypeArg.AllWellNamed args → Argument.types? (Argument.ofArgs args) = some ts →
    ∃ ws, TypeArg.AllWellNamed ws ∧ Argument.types? (Argument.ofArgs ws) = some ts ∧
      TypeArg.compacts ws = ts.map compact
  | [], ts, _, h => ⟨[], trivial, h, by
      cases h
      rfl⟩
  | .number n :: rest, ts, _, h => by simp [Argument.ofArgs, Argument.ofArg, Argument.types?] at h
  | .type e :: rest, ts, hnamed, h => by
    simp only [Argument.ofArgs, Argument.ofArg, Argument.types?] at h
    obtain ⟨us, hus, rfl⟩ := Option.map_eq_some_iff.mp h
    obtain ⟨w, hw, hwtype, hwcompact⟩ := exists_written (e := e) hnamed.1
    obtain ⟨ws, hws, hwstypes, hwscompacts⟩ := exists_written_args hnamed.2 hus
    refine ⟨.type w :: ws, ⟨hw, hws⟩, ?_, ?_⟩
    · simp [Argument.ofArgs, Argument.ofArg, Argument.types?, hwtype, hwstypes]
    · simp [TypeArg.compacts, TypeArg.compact, hwcompact, hwscompacts]

end

/-- The type is what some well-named written type stands for. -/
def Readable (t : NativeType) : Prop := ∃ e : TypeExpr, e.WellNamed ∧ ofExpr e = t

theorem Written.readable {t : NativeType} {e : TypeExpr} (h : Written t e) : t.Readable :=
  ⟨e, h.1, h.2.1⟩

theorem Readable.exists_written {t : NativeType} (h : t.Readable) : ∃ w, Written t w := by
  obtain ⟨e, hnamed, rfl⟩ := h
  exact NativeType.exists_written hnamed

theorem Readable.spelling_enclosed {t : NativeType} (h : t.Readable) :
    Enclosed t.spelling.toList := by
  obtain ⟨w, hnamed, -, hcompact⟩ := h.exists_written
  have henclosed := (TypeExpr.compact_form hnamed).2
  rw [hcompact] at henclosed
  exact Text.enclosed_withoutBlanks.mp henclosed

theorem Readable.notMem_spelling {t : NativeType} (h : t.Readable) {c : Char}
    (hc : TypeExpr.isCompactChar c = false) (hblank : c ≠ ' ') : c ∉ t.spelling.toList := by
  obtain ⟨w, hnamed, -, hcompact⟩ := h.exists_written
  intro hmem
  have hcompact' : c ∈ w.compact := by
    rw [hcompact]
    exact List.mem_filter.mpr ⟨hmem, by simpa using hblank⟩
  rw [TypeExpr.isCompactChar_of_mem hnamed hcompact'] at hc
  cases hc

theorem spelling_inj {t u : NativeType} (ht : t.Readable) (hu : u.Readable)
    (h : t.spelling = u.spelling) : t = u := by
  obtain ⟨v, hvnamed, rfl, hv⟩ := ht.exists_written
  obtain ⟨w, hwnamed, rfl, hw⟩ := hu.exists_written
  -- The types are written by trees that print alike, and those are equal.
  have hcompact : v.compact = w.compact := by rw [hv, hw, compact, compact, h]
  rw [TypeExpr.compact_inj hvnamed hwnamed hcompact]

end NativeType

end NativeBindings
