import Mathlib.Data.List.Forall2
import NativeBindings.Proofs.Declaration.Parsed
import NativeBindings.Proofs.TypeExpr.Printing

set_option autoImplicit false
set_option relaxedAutoImplicit false

/-!
The canonical spelling of a type is itself a type text. Main statement: the spelling of what a text
without `const` segments stands for is read, and stands for the same type again; so it tells the
type, and a type of no known kind is never found under the spelling of a known one.
-/

namespace NativeBindings

open TypeExpr.Grammar (SpelledBy ArgumentSpelledBy QualifiedName)

def Primitive.expr (p : Primitive) : TypeExpr := .name p.spelling

def Handle.expr : Handle → TypeExpr
  | tensorList => .app "std::vector" [.type (.name "at::Tensor")]
  | intArray => .app "std::vector" [.type (.name "int64_t")]
  | k => .name k.spelling

private theorem TypeExpr.wellFormed_name {n : String} (h : QualifiedName n.toList) :
    (TypeExpr.name n).WellFormed := h

private theorem TypeExpr.constFree_name {n : String} (h : TypeExpr.firstSegment n ≠ "const") :
    (TypeExpr.name n).ConstFree := h

private theorem TypeArg.wellFormed_of_mem {args : List TypeArg} (h : TypeArg.AllWellFormed args)
    {a : TypeArg} (ha : a ∈ args) : a.WellFormed := by
  induction args with
  | nil => cases ha
  | cons b rest ih =>
    rcases List.mem_cons.mp ha with rfl | ha
    · exact h.1
    · exact ih h.2 ha

namespace NativeType

private theorem toList_listSpelling (ts : List NativeType) :
    (listSpelling ts).toList = Text.joinWith ',' (ts.map fun t => t.spelling.toList) := by
  match ts with
  | [] => rfl
  | [t] => rfl
  | t :: u :: rest =>
    have hrest := toList_listSpelling (u :: rest)
    rw [listSpelling_cons, String.toList_append, String.toList_append, hrest, List.append_assoc]
    rfl

/-- The written type stands for the type and is spelled by its canonical spelling. -/
structure Respelled (t : NativeType) (w : TypeExpr) : Prop where
  type : ofExpr w = t
  spelled : SpelledBy w t.spelling.toList

private theorem Respelled.of_text {t : NativeType} {w : TypeExpr} (h : w.WellFormed)
    (hconst : w.ConstFree)
    (htype : ofExpr w = t) (htext : w.text = t.spelling) : Respelled t w := by
  refine ⟨htype, ?_⟩
  rw [← htext]
  exact TypeExpr.spelledBy_text h hconst

private theorem respelled_primitive (p : Primitive) : Respelled (.primitive p) p.expr := by
  apply Respelled.of_text
  · cases p <;> exact TypeExpr.wellFormed_name (by decide)
  · cases p <;> exact TypeExpr.constFree_name (by decide)
  · cases p <;> rfl
  · rfl

private theorem respelled_handle (k : Handle) : Respelled (.handle k) k.expr := by
  apply Respelled.of_text
  · cases k
    case tensorList | intArray =>
      exact ⟨by decide, by simp, TypeExpr.wellFormed_name (by decide), trivial⟩
    all_goals exact TypeExpr.wellFormed_name (by decide)
  · cases k
    case tensorList | intArray => exact ⟨by decide, TypeExpr.constFree_name (by decide), trivial⟩
    all_goals exact TypeExpr.constFree_name (by decide)
  · cases k <;> rfl
  · cases k <;> rfl

private theorem respelled_boolArray {n : Nat} (h : n < Nat.pow 2 64) :
    Respelled (.boolArray n) (.app "std::array" [.type (.name "bool"), .number n]) := by
  apply Respelled.of_text
  · exact ⟨by decide, by simp, TypeExpr.wellFormed_name (by decide), h, trivial⟩
  · exact ⟨by decide, TypeExpr.constFree_name (by decide), trivial, trivial⟩
  · rfl
  · have hargs : TypeArg.listText [.type (.name "bool"), .number n] = "bool" ++ "," ++ n.repr := rfl
    apply String.toList_injective
    simp [TypeExpr.text_app, hargs]

private theorem exists_respelled_name {n : String} (h : QualifiedName n.toList)
    (hconst : TypeExpr.firstSegment n ≠ "const") : ∃ w, Respelled (ofName n) w := by
  rcases ofName_cases n with ⟨p, hp⟩ | ⟨k, hk⟩ | hunknown
  · rw [hp]
    exact ⟨_, respelled_primitive p⟩
  · rw [hk]
    exact ⟨_, respelled_handle k⟩
  · refine ⟨.name n, Respelled.of_text h hconst rfl ?_⟩
    rw [hunknown]
    rfl

theorem Respelled.ptr {t : NativeType} {w : TypeExpr} (h : Respelled t w) :
    Respelled (.ptr t) (.ptr w) := by
  refine ⟨congrArg NativeType.ptr h.type, ?_⟩
  rw [spelling_ptr, String.toList_append]
  exact h.spelled.ptr.1

theorem Respelled.tuple {ts : List NativeType} {ws : List TypeExpr}
    (h : List.Forall₂ Respelled ts ws) (hne : ts ≠ []) :
    Respelled (.tuple ts) (.app "std::tuple" (ws.map .type)) := by
  have htypes : ws.map ofExpr = ts := by
    have hall : List.Forall₂ (· = ·) (ws.map ofExpr) ts := by
      rw [List.forall₂_map_left_iff]
      exact h.flip.imp fun _ _ hw => hw.type
    rwa [List.forall₂_eq_eq_eq] at hall
  constructor
  · simp [ofExpr, ofTemplate?, types?_ofArgs, htypes]
  · have hargs : List.Forall₂ ArgumentSpelledBy (ws.map .type)
        (ts.map fun t => t.spelling.toList) := by
      rw [List.forall₂_map_left_iff, List.forall₂_map_right_iff]
      exact h.flip.imp fun _ _ hw rest hrest => .type (hw.spelled rest hrest)
    have hsome : ws.map TypeArg.type ≠ [] := by
      rw [← htypes] at hne
      simpa using hne
    have htext : (NativeType.tuple ts).spelling.toList = "std::tuple".toList ++ '<' ::
        Text.joinWith ',' (ts.map fun t => t.spelling.toList) ++ ['>'] := by
      simp [toList_listSpelling]
    rw [htext]
    exact TypeExpr.Grammar.spelledBy_app (by decide) (by decide) hsome hargs

/-! The arguments of a known template. -/

private theorem number_mem_of_boolArray {head : String} {as : List NativeType.Argument} {n : Nat}
    (h : ofTemplate? head as = some (.boolArray n)) : .number n ∈ as := by
  unfold ofTemplate? at h
  split_ifs at h with harray hvector htuple
  · split at h
    · rename_i t m
      unfold arrayOf? at h
      split at h
      · cases h
        simp
      · cases h
    · cases h
  · split at h
    · rename_i t
      unfold vectorOf? at h
      split at h <;> cases h
    · cases h
  · obtain ⟨ts, -, hts⟩ := Option.map_eq_some_iff.mp h
    cases hts

private theorem number_mem_of_ofArgs {args : List TypeArg} {n : Nat}
    (h : .number n ∈ Argument.ofArgs args) : .number n ∈ args := by
  induction args with
  | nil => cases h
  | cons a rest ih =>
    rcases List.mem_cons.mp h with ha | hrest
    · cases a with
      | type t => cases ha
      | number m =>
        cases ha
        exact List.mem_cons_self
    · exact List.mem_cons_of_mem _ (ih hrest)

private theorem eq_nil_of_types?_ofArgs {args : List TypeArg}
    (h : Argument.types? (Argument.ofArgs args) = some []) : args = [] := by
  cases args with
  | nil => rfl
  | cons a rest =>
    cases a with
    | type t =>
      obtain ⟨ts, -, hts⟩ := Option.map_eq_some_iff.mp h
      cases hts
    | number n => cases h

mutual

/-- What a well-formed type without `const` segments stands for is stood for by the type that its
spelling is read as. -/
theorem exists_respelled : ∀ {e : TypeExpr}, e.WellFormed → e.ConstFree →
    ∃ w, Respelled (ofExpr e) w
  | .name _, h, hconst => exists_respelled_name h hconst
  | .ref e, h, hconst => exists_respelled (e := e) h hconst
  | .ptr e, h, hconst => by
    obtain ⟨w, hw⟩ := exists_respelled (e := e) h hconst
    exact ⟨.ptr w, hw.ptr⟩
  | .app head args, h, hconst => by
    cases ht : ofTemplate? head (Argument.ofArgs args) with
    | none =>
      -- A template of no known kind keeps the printed form of its tree for a spelling.
      have htype : ofExpr (.app head args) = .unknown (TypeExpr.app head args).text := by
        simp [ofExpr, ht]
      refine ⟨.app head args, Respelled.of_text h hconst rfl ?_⟩
      rw [htype, spelling_unknown]
    | some t =>
      have htype : ofExpr (.app head args) = t := by simp [ofExpr, ht]
      rw [htype]
      rcases ofTemplate?_eq_some ht with ⟨n, rfl⟩ | ⟨k, rfl⟩ | ⟨ts, rfl, hts, rfl⟩
      · have hsmall : (TypeArg.number n).WellFormed :=
          TypeArg.wellFormed_of_mem h.2.2 (number_mem_of_ofArgs (number_mem_of_boolArray ht))
        exact ⟨_, respelled_boolArray hsmall⟩
      · exact ⟨_, respelled_handle k⟩
      · obtain ⟨ws, hws⟩ := exists_respelled_args h.2.2 hconst.2 hts
        have hne : ts ≠ [] := by
          rintro rfl
          exact h.2.1 (eq_nil_of_types?_ofArgs hts)
        exact ⟨_, Respelled.tuple hws hne⟩

private theorem exists_respelled_args : ∀ {args : List TypeArg} {ts : List NativeType},
    TypeArg.AllWellFormed args → TypeArg.AllConstFree args →
    Argument.types? (Argument.ofArgs args) = some ts → ∃ ws, List.Forall₂ Respelled ts ws
  | [], ts, _, _, h => by
    cases h
    exact ⟨[], .nil⟩
  | .number n :: rest, ts, _, _, h => by cases h
  | .type e :: rest, ts, hformed, hconst, h => by
    simp only [Argument.ofArgs, Argument.ofArg, Argument.types?] at h
    obtain ⟨us, hus, rfl⟩ := Option.map_eq_some_iff.mp h
    obtain ⟨w, hw⟩ := exists_respelled (e := e) hformed.1 hconst.1
    obtain ⟨ws, hws⟩ := exists_respelled_args hformed.2 hconst.2 hus
    exact ⟨w :: ws, .cons hw hws⟩

end

theorem exists_parse_spelling {s : String} {e : TypeExpr} (h : TypeExpr.parse s = .ok e)
    (hconst : e.ConstFree) :
    ∃ w, TypeExpr.parse (ofExpr e).spelling = .ok w ∧ ofExpr w = ofExpr e := by
  obtain ⟨w, hw⟩ := exists_respelled (TypeExpr.parse_wellFormed h) hconst
  exact ⟨w, TypeExpr.parse_of_spelledBy hw.spelled, hw.type⟩

theorem ofExpr_eq_of_spelling_eq {s₁ s₂ : String} {e₁ e₂ : TypeExpr}
    (h₁ : TypeExpr.parse s₁ = .ok e₁) (hconst₁ : e₁.ConstFree) (h₂ : TypeExpr.parse s₂ = .ok e₂)
    (hconst₂ : e₂.ConstFree) (h : (ofExpr e₁).spelling = (ofExpr e₂).spelling) :
    ofExpr e₁ = ofExpr e₂ := by
  obtain ⟨w₁, hw₁, htype₁⟩ := exists_parse_spelling h₁ hconst₁
  obtain ⟨w₂, hw₂, htype₂⟩ := exists_parse_spelling h₂ hconst₂
  rw [h, hw₂] at hw₁
  cases hw₁
  exact htype₁.symm.trans htype₂

/-- The spelling of what a text stands for is read again and stands for the same type, if no name in
the text begins with a `const` segment. So two such texts have the same spelling just if they stand
for the same type, and what is looked up for a type of no known kind is never the entry of a known
one. -/
theorem spelling_round_trips :
    (∀ (s : String) (e : TypeExpr), TypeExpr.parse s = .ok e → e.ConstFree →
      ∃ w, TypeExpr.parse (ofExpr e).spelling = .ok w ∧ ofExpr w = ofExpr e) ∧
    ∀ (s₁ s₂ : String) (e₁ e₂ : TypeExpr), TypeExpr.parse s₁ = .ok e₁ → e₁.ConstFree →
      TypeExpr.parse s₂ = .ok e₂ → e₂.ConstFree →
      ((ofExpr e₁).spelling = (ofExpr e₂).spelling ↔ ofExpr e₁ = ofExpr e₂) ∧
      ∀ u, (ofExpr e₁).pointee = .unknown u → (∀ v, ofExpr e₂ ≠ .unknown v) →
        ∀ (table : TypeTable) (function : String) (entry : TypeEntry),
          table.resolve (ofExpr e₁) function = .ok entry →
          entry.native ≠ (ofExpr e₂).spelling := by
  refine ⟨fun s e => exists_parse_spelling, ?_⟩
  intro s₁ s₂ e₁ e₂ h₁ hconst₁ h₂ hconst₂
  constructor
  · constructor
    · exact ofExpr_eq_of_spelling_eq h₁ hconst₁ h₂ hconst₂
    · intro hsame
      rw [hsame]
  · intro u hunknown hknown table function entry hentry hnative
    have hspelling : (ofExpr e₁).pointee.spelling = (ofExpr e₂).spelling := by
      rw [← (TypeTable.of_resolve_eq_ok hentry).2, hnative]
    have hread₁ := readable_ofExpr (TypeExpr.parse_wellNamed h₁)
    have hread₂ := readable_ofExpr (TypeExpr.parse_wellNamed h₂)
    have hsame := spelling_inj hread₁.pointee hread₂ hspelling
    rw [hunknown] at hsame
    exact hknown u hsame.symm

def mixedPair : TypeExpr :=
  .app "std::tuple"
    [.type (.app "Foo" [.type (.ptr (.name "int"))]), .type (.ref (.name "IntList"))]

def unknownPointer : TypeExpr := .ptr (.app "Foo" [.type (.ptr (.name "int"))])

private theorem parse_mixedPair :
    TypeExpr.parse "std::tuple<Foo<int*>, const IntList &>" = .ok mixedPair :=
  TypeExpr.parse_of_tokens
    [.name "std::tuple", .less, .name "Foo", .less, .name "int", .star, .greater, .comma,
      .name "const", .name "IntList", .ampersand, .greater] (by decide +kernel) rfl (by decide)

private theorem parse_unknownPointer : TypeExpr.parse "Foo<int*>*" = .ok unknownPointer :=
  TypeExpr.parse_of_tokens [.name "Foo", .less, .name "int", .star, .greater, .star]
    (by decide +kernel) rfl (by decide)

theorem spelling_round_trips_mixedPair :
    TypeExpr.parse "std::tuple<Foo<int*>, const IntList &>" = .ok mixedPair ∧
    mixedPair.ConstFree ∧
    (ofExpr mixedPair).spelling = "std::tuple<Foo<int *>,std::vector<int64_t>>" ∧
    (∃ w, TypeExpr.parse "std::tuple<Foo<int *>,std::vector<int64_t>>" = .ok w ∧
      ofExpr w = ofExpr mixedPair) ∧
    TypeExpr.parse "Foo<int*>*" = .ok unknownPointer ∧ unknownPointer.ConstFree ∧
    (ofExpr unknownPointer).pointee = .unknown "Foo<int *>" ∧
    ((ofExpr unknownPointer).spelling = (ofExpr mixedPair).spelling ↔
      ofExpr unknownPointer = ofExpr mixedPair) ∧
    ∀ entry, TypeTable.resolve ⟨[⟨"Foo<int *>", "Foo", .handle, "f", none⟩]⟩
      (ofExpr unknownPointer) "f" = .ok entry → entry.native ≠ (ofExpr mixedPair).spelling := by
  have hint : (TypeExpr.name "int").ConstFree := TypeExpr.constFree_name (by decide)
  have hlist : (TypeExpr.name "IntList").ConstFree := TypeExpr.constFree_name (by decide)
  have hpair : mixedPair.ConstFree := ⟨by decide, ⟨by decide, hint, trivial⟩, hlist, trivial⟩
  have hpointer : unknownPointer.ConstFree := ⟨by decide, hint, trivial⟩
  have hspelling : (ofExpr mixedPair).spelling = "std::tuple<Foo<int *>,std::vector<int64_t>>" := by
    decide
  have hunknown : (ofExpr unknownPointer).pointee = .unknown "Foo<int *>" := by
    rfl
  have hknown : ∀ v, ofExpr mixedPair ≠ .unknown v := by
    intro v h
    cases h
  obtain ⟨hread, htold⟩ := spelling_round_trips
  obtain ⟨hiff, hlookup⟩ := htold _ _ _ _ parse_unknownPointer hpointer parse_mixedPair hpair
  have hagain := hread _ _ parse_mixedPair hpair
  rw [hspelling] at hagain
  exact ⟨parse_mixedPair, hpair, hspelling, hagain, parse_unknownPointer, hpointer, hunknown, hiff,
    hlookup _ hunknown hknown _ _⟩

end NativeType

end NativeBindings
