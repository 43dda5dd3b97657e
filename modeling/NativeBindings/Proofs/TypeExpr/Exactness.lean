import NativeBindings.Proofs.TypeExpr.Decorations
import NativeBindings.TypeExpr.Parse

set_option autoImplicit false
set_option relaxedAutoImplicit false

/-!
Reading a type text is exact. Main statement: `parse` gives the tree that the text spells by the
grammar, and fails for every other text.
-/

namespace NativeBindings.TypeExpr

namespace Grammar

/-! Soundness: what the readers take off the tokens is spelled by the text. -/

private theorem numbersBelow_wrapModifiers (bound : Nat) (t : TypeExpr) (ts : List Token) :
    (TypeExpr.wrapModifiers t ts).1.numbersBelow bound = t.numbersBelow bound := by
  fun_induction TypeExpr.wrapModifiers t ts with
  | case1 t rest ih => exact ih
  | case2 t rest ih => exact ih
  | case3 t rest ih => exact ih
  | case4 => rfl
  | case5 => rfl

private theorem Head.denotes {n : String} {text a rest : List Char} {t : TypeExpr}
    (h : Head n text a)
    (ht : ∀ b, NameWord n b a → Unqualified b t rest) : Denotes text t rest := by
  cases h with
  | qualified hconst hgap hname => exact .qualified hconst hgap (ht _ hname)
  | plain hconst hname => exact .plain hconst (ht _ hname)

/-- Whatever a reader takes off the tokens of a text stands in the text, if its numbers are not too
large. -/
def Sound {α : Type} (spelled : List Char → α → List Char → Prop) (small : α → Prop)
    (read : List Token → Option (α × List Token)) : Prop :=
  ∀ us x ts text, read us = some (x, ts) → small x → Token.scan text = some us →
    ∃ a rest, Gap text a ∧ spelled a x rest ∧ Token.scan rest = some ts

/-- Arguments and the bracket that closes them. -/
def Closed (text : List Char) (args : List TypeArg) (rest : List Char) : Prop :=
  ∃ a, Arguments text args a ∧ Gap a ('>' :: rest)

abbrev SoundType (read : List Token → Option (TypeExpr × List Token)) : Prop :=
  Sound Denotes (fun t => t.numbersBelow (Nat.pow 2 64) = true) read

abbrev SoundArgs (read : List Token → Option (List TypeArg × List Token)) : Prop :=
  Sound Closed (fun args => TypeArg.allBelow (Nat.pow 2 64) args = true) read

abbrev SoundArg (read : List Token → Option (TypeArg × List Token)) : Prop :=
  Sound Argument (fun a => a.numbersBelow (Nat.pow 2 64) = true) read

private theorem readType_sound_step {fuel : Nat} (hargs : SoundArgs (readArgs fuel)) :
    SoundType (readType (fuel + 1)) := by
  intro us t ts text hread hsmall hscan
  simp only [readType] at hread
  split at hread
  · cases hread
  · rename_i n inner hhead
    obtain ⟨a, b, hgap, hname, hb⟩ := head_of_takeHead hscan hhead
    obtain ⟨c, d, hopen, rfl, hd⟩ := word_of_scan_eq_cons hb
    obtain ⟨⟨args, after⟩, hread, hwrap⟩ := Option.map_eq_some_iff.mp hread
    have hsmallArgs : TypeArg.allBelow (Nat.pow 2 64) args = true := by
      have hnumbers :=
        numbersBelow_wrapModifiers (Nat.pow 2 64) (.app n args) (TypeExpr.dropExtent after)
      rw [hwrap, hsmall] at hnumbers
      exact hnumbers.symm
    obtain ⟨e, f, hinner, ⟨g, hargs, hclose⟩, hf⟩ := hargs _ _ _ _ hread hsmallArgs hd
    obtain ⟨i, hextent, hi⟩ := extent_of_scan hf
    obtain ⟨rest, hmodifiers, hrest⟩ := modifiers_of_wrapModifiers hi hwrap
    exact ⟨a, rest, hgap, hname.denotes fun _ hn =>
      .template hn hopen hinner hargs hclose hextent hmodifiers, hrest⟩
  · rename_i n after _ hhead
    obtain ⟨a, b, hgap, hname, hb⟩ := head_of_takeHead hscan hhead
    obtain ⟨c, hextent, hc⟩ := extent_of_scan hb
    obtain ⟨rest, hmodifiers, hrest⟩ := modifiers_of_wrapModifiers hc (Option.some.inj hread)
    exact ⟨a, rest, hgap, hname.denotes fun _ hn => .name hn hextent hmodifiers, hrest⟩

private theorem readArgs_sound_step {fuel : Nat} (harg : SoundArg (readArg fuel))
    (hargs : SoundArgs (readArgs fuel)) : SoundArgs (readArgs (fuel + 1)) := by
  intro us args ts text hread hsmall hscan
  simp only [readArgs] at hread
  split at hread
  · rename_i x after hx
    obtain ⟨⟨others, last⟩, hothers, heq⟩ := Option.map_eq_some_iff.mp hread
    cases heq
    obtain ⟨hsmallArg, hsmallArgs⟩ := Bool.and_eq_true_iff.mp hsmall
    obtain ⟨a, b, hgap, hspelled, hb⟩ := harg _ _ _ _ hx hsmallArg hscan
    obtain ⟨c, d, hcomma, rfl, hd⟩ := word_of_scan_eq_cons hb
    obtain ⟨e, rest, hinner, ⟨f, hargs, hclose⟩, hrest⟩ := hargs _ _ _ _ hothers hsmallArgs hd
    exact ⟨a, rest, hgap, ⟨f, .more hspelled hcomma hinner hargs, hclose⟩, hrest⟩
  · rename_i x after hx
    cases hread
    obtain ⟨hsmallArg, -⟩ := Bool.and_eq_true_iff.mp hsmall
    obtain ⟨a, b, hgap, hspelled, hb⟩ := harg _ _ _ _ hx hsmallArg hscan
    obtain ⟨c, rest, hclose, rfl, hrest⟩ := word_of_scan_eq_cons hb
    exact ⟨a, rest, hgap, ⟨b, .last hspelled, hclose⟩, hrest⟩
  · cases hread

private theorem readArg_sound_number {value : Nat} {us : List Token} {text : List Char}
    (hsmall : (TypeArg.number value).numbersBelow (Nat.pow 2 64) = true)
    (hscan : Token.scan text = some (.number value :: us)) :
    ∃ a rest, Gap text a ∧ Argument a (.number value) rest ∧ Token.scan rest = some us := by
  obtain ⟨a, rest, hgap, hword, hrest⟩ := word_of_scan_eq_cons hscan
  exact ⟨a, rest, hgap, .number hword (of_decide_eq_true hsmall), hrest⟩

private theorem readArg_sound_step {fuel : Nat} (htype : SoundType (readType fuel)) :
    SoundArg (readArg (fuel + 1)) := by
  intro us x ts text hread hsmall hscan
  unfold readArg at hread
  split at hread
  · cases hread
    exact readArg_sound_number hsmall hscan
  · cases hread
  · rename_i heq _
    cases heq
    obtain ⟨⟨t, after⟩, ht, heq⟩ := Option.map_eq_some_iff.mp hread
    cases heq
    obtain ⟨a, rest, hgap, hspelled, hrest⟩ := htype _ _ _ _ ht hsmall hscan
    exact ⟨a, rest, hgap, .type hspelled, hrest⟩

private theorem readers_sound (fuel : Nat) :
    SoundType (readType fuel) ∧ SoundArgs (readArgs fuel) ∧ SoundArg (readArg fuel) := by
  induction fuel with
  | zero =>
    refine ⟨?_, ?_, ?_⟩
    · intro us t ts text hread
      simp [readType] at hread
    · intro us args ts text hread
      simp [readArgs] at hread
    · intro us x ts text hread hsmall hscan
      unfold readArg at hread
      split at hread
      · cases hread
        exact readArg_sound_number hsmall hscan
      · cases hread
      · rename_i heq _
        cases heq
  | succ fuel ih =>
    obtain ⟨htype, hargs, harg⟩ := ih
    exact ⟨readType_sound_step hargs, readArgs_sound_step harg hargs, readArg_sound_step htype⟩

/-! Completeness: what the text spells is read off its tokens. -/

/-- The tokens of the text are read as `x`, with `ts` left, by every fuel that is large enough. -/
def ReadAs {α : Type} (read : Nat → List Token → Option (α × List Token)) (slack : Nat)
    (text : List Char) (x : α) (ts : List Token) : Prop :=
  ∃ us, Token.scan text = some us ∧ ts.length ≤ us.length ∧
    ∀ fuel, 3 * us.length + slack ≤ fuel → read fuel us = some (x, ts)

/-- Behind the name of a type the tokens of the text are read as `t`, with `ts` left. -/
def GoesOn (text : List Char) (t : TypeExpr) (ts : List Token) : Prop :=
  ∃ n after us, NameWord n text after ∧ Token.scan after = some us ∧ ts.length ≤ us.length ∧
    ∀ all fuel, takeHead all = some (n, us) → 3 * us.length ≤ fuel →
      readType (fuel + 1) all = some (t, ts)

theorem readAs_of_head {n : String} {text after : List Char} {t : TypeExpr} {us ts : List Token}
    (hhead : Head n text after) (hus : Token.scan after = some us) (hle : ts.length ≤ us.length)
    (hread : ∀ all fuel, takeHead all = some (n, us) → 3 * us.length ≤ fuel →
      readType (fuel + 1) all = some (t, ts)) : ReadAs readType 1 text t ts := by
  obtain ⟨all, hall, htake, hlt⟩ := hhead.takeHead hus
  refine ⟨all, hall, by omega, fun fuel hfuel => ?_⟩
  obtain ⟨fuel, rfl⟩ : ∃ k, fuel = k + 1 := ⟨fuel - 1, by omega⟩
  exact hread all fuel htake (by omega)

private theorem readArg_of_readType {fuel : Nat} {us ts : List Token} {t : TypeExpr}
    (h : readType fuel us = some (t, ts)) : readArg (fuel + 1) us = some (.type t, ts) := by
  unfold readArg
  split
  · cases fuel with
    | zero => simp [readType] at h
    | succ fuel => simp [readType, TypeExpr.takeHead] at h
  · rename_i heq _
    cases heq
  · rename_i heq _
    cases heq
    rw [h]
    rfl

theorem readAs_name {text a b rest : List Char} {n : String} {t : TypeExpr} {ts : List Token}
    (hname : NameWord n text a) (hextent : OptionalExtent a b)
    (hmodifiers : Modifiers (.name n) b t rest) (hrest : Token.scan rest = some ts)
    (hends : Ends ts) : GoesOn text t ts := by
  obtain ⟨vs, hvs, hwrap, hle, hbare⟩ := hmodifiers.wrapModifiers hrest hends
  obtain ⟨us, hus, hdrop, hle', hless⟩ := hextent.dropExtent hvs hbare
  refine ⟨n, a, us, hname, hus, by omega, fun all fuel htake _ => ?_⟩
  unfold readType
  split
  · rename_i hnone
    rw [htake] at hnone
    cases hnone
  · rename_i m inner hsome
    rw [htake] at hsome
    cases hsome
    exact absurd rfl hless
  · rename_i m after _ hsome
    rw [htake] at hsome
    cases hsome
    rw [hdrop, hwrap]

theorem readAs_template {text a b c e f rest : List Char} {n : String} {args : List TypeArg}
    {t : TypeExpr} {ts : List Token} (hname : NameWord n text a) (hopen : Gap a ('<' :: b))
    (hinner : Gap b c)
    (hargs : ∀ vs, Token.scan e = some vs → ReadAs readArgs 3 c args vs)
    (hextent : OptionalExtent e f) (hmodifiers : Modifiers (.app n args) f t rest)
    (hrest : Token.scan rest = some ts) (hends : Ends ts) : GoesOn text t ts := by
  obtain ⟨ws, hws, hwrap, hle, hbare⟩ := hmodifiers.wrapModifiers hrest hends
  obtain ⟨vs, hvs, hdrop, hle', -⟩ := hextent.dropExtent hws hbare
  obtain ⟨us, hus, hle'', hread⟩ := hargs vs hvs
  have hopened := scan_gap_word .less hopen rfl ((scan_gap hinner).trans hus)
  refine ⟨n, a, _, hname, hopened, ?_, fun all fuel htake hfuel => ?_⟩
  · simp only [List.length_cons]
    omega
  · simp only [List.length_cons] at hfuel
    rw [readType]
    simp only [htake, hread fuel (by omega), Option.map_some, hdrop, hwrap]

theorem readAs_number {value : Nat} {text rest : List Char} {ts : List Token}
    (hvalue : NumberWord value text rest) (hrest : Token.scan rest = some ts) :
    ReadAs readArg 2 text (.number value) ts := by
  refine ⟨_, scan_gap_word (.number _) (Gap.refl _) hvalue hrest, by simp, fun fuel _ => ?_⟩
  unfold readArg
  rfl

theorem readAs_type {text : List Char} {t : TypeExpr} {ts : List Token}
    (h : ReadAs readType 1 text t ts) : ReadAs readArg 2 text (.type t) ts := by
  obtain ⟨us, hus, hle, hread⟩ := h
  refine ⟨us, hus, hle, fun fuel hfuel => ?_⟩
  obtain ⟨fuel, rfl⟩ : ∃ k, fuel = k + 1 := ⟨fuel - 1, by omega⟩
  exact readArg_of_readType (hread fuel (by omega))

theorem readAs_last {text : List Char} {x : TypeArg} {ts : List Token}
    (h : ReadAs readArg 2 text x (.greater :: ts)) : ReadAs readArgs 3 text [x] ts := by
  obtain ⟨us, hus, hle, hread⟩ := h
  simp only [List.length_cons] at hle
  refine ⟨us, hus, by omega, fun fuel hfuel => ?_⟩
  obtain ⟨fuel, rfl⟩ : ∃ k, fuel = k + 1 := ⟨fuel - 1, by omega⟩
  rw [readArgs, hread fuel (by omega)]

theorem readAs_more {text a b c : List Char} {x : TypeArg} {args : List TypeArg}
    {ts : List Token} (hcomma : Gap a (',' :: b)) (hinner : Gap b c)
    (hargs : ReadAs readArgs 3 c args ts)
    (harg : ∀ us, Token.scan a = some (.comma :: us) → ReadAs readArg 2 text x (.comma :: us)) :
    ReadAs readArgs 3 text (x :: args) ts := by
  obtain ⟨vs, hvs, hle, hread⟩ := hargs
  have hb := scan_gap_word .comma hcomma rfl ((scan_gap hinner).trans hvs)
  obtain ⟨us, hus, hle', hread'⟩ := harg vs hb
  simp only [List.length_cons] at hle'
  refine ⟨us, hus, by omega, fun fuel hfuel => ?_⟩
  obtain ⟨fuel, rfl⟩ : ∃ k, fuel = k + 1 := ⟨fuel - 1, by omega⟩
  rw [readArgs, hread' fuel (by omega)]
  simp only [hread fuel (by omega), Option.map_some]

mutual

private theorem Denotes.readAs {text rest : List Char} {t : TypeExpr} {ts : List Token} :
    Denotes text t rest → Token.scan rest = some ts → Ends ts → ReadAs readType 1 text t ts
  | .qualified hconst hgap h, hrest, hends => by
    obtain ⟨n, after, us, hname, hus, hle, hread⟩ := h.goesOn hrest hends
    exact readAs_of_head (.qualified hconst hgap hname) hus hle hread
  | .plain hconst h, hrest, hends => by
    obtain ⟨n, after, us, hname, hus, hle, hread⟩ := h.goesOn hrest hends
    exact readAs_of_head (.plain hconst hname) hus hle hread

theorem Unqualified.goesOn {text rest : List Char} {t : TypeExpr} {ts : List Token} :
    Unqualified text t rest → Token.scan rest = some ts → Ends ts → GoesOn text t ts
  | .name hname hextent hmodifiers, hrest, hends =>
    readAs_name hname hextent hmodifiers hrest hends
  | .template hname hopen hinner hargs hclose hextent hmodifiers, hrest, hends =>
    readAs_template hname hopen hinner
      (fun _ hvs => hargs.readAs (scan_gap_word .greater hclose rfl hvs)) hextent hmodifiers
      hrest hends

private theorem Arguments.readAs {text rest : List Char} {args : List TypeArg} {ts : List Token} :
    Arguments text args rest → Token.scan rest = some (.greater :: ts) →
      ReadAs readArgs 3 text args ts
  | .last harg, hrest => readAs_last (harg.readAs hrest (by simp [Ends]))
  | .more harg hcomma hinner hargs, hrest =>
    readAs_more hcomma hinner (hargs.readAs hrest) fun _ hb => harg.readAs hb (by simp [Ends])

private theorem Argument.readAs {text rest : List Char} {x : TypeArg} {ts : List Token} :
    Argument text x rest → Token.scan rest = some ts → Ends ts → ReadAs readArg 2 text x ts
  | .number hvalue _, hrest, _ => readAs_number hvalue hrest
  | .type h, hrest, hends => readAs_type (h.readAs hrest hends)

end

/-! The numbers of a spelled type are small. -/

theorem Modifiers.numbersBelow {bound : Nat} {inner t : TypeExpr} {text rest : List Char}
    (h : Modifiers inner text t rest) : t.numbersBelow bound = inner.numbersBelow bound := by
  induction h with
  | none => rfl
  | pointer _ _ ih => exact ih
  | reference _ _ ih => exact ih
  | const _ _ _ ih => exact ih

mutual

theorem Denotes.numbersBelow {text rest : List Char} {t : TypeExpr} :
    Denotes text t rest → t.numbersBelow (Nat.pow 2 64) = true
  | .qualified _ _ h => h.numbersBelow
  | .plain _ h => h.numbersBelow

theorem Unqualified.numbersBelow {text rest : List Char} {t : TypeExpr} :
    Unqualified text t rest → t.numbersBelow (Nat.pow 2 64) = true
  | .name _ _ hmodifiers => hmodifiers.numbersBelow
  | .template _ _ _ hargs _ _ hmodifiers => hmodifiers.numbersBelow.trans hargs.numbersBelow

theorem Arguments.numbersBelow {text rest : List Char} {args : List TypeArg} :
    Arguments text args rest → TypeArg.allBelow (Nat.pow 2 64) args = true
  | .last harg => Bool.and_eq_true_iff.mpr ⟨harg.numbersBelow, rfl⟩
  | .more harg _ _ hargs => Bool.and_eq_true_iff.mpr ⟨harg.numbersBelow, hargs.numbersBelow⟩

theorem Argument.numbersBelow {text rest : List Char} {x : TypeArg} :
    Argument text x rest → x.numbersBelow (Nat.pow 2 64) = true
  | .number _ hsmall => decide_eq_true hsmall
  | .type h => h.numbersBelow

end

end Grammar

theorem read?_eq_some_iff {s : String} {t : TypeExpr} :
    read? s = some t ↔ ∃ ts, Token.scan s.toList = some ts ∧
      readType (3 * ts.length + 1) ts = some (t, []) := by
  unfold read?
  rw [Option.bind_eq_some_iff]
  refine exists_congr fun ts => and_congr_right fun _ => ?_
  unfold ofTokens?
  split
  · rename_i u hu
    simp [hu]
  · rename_i hnone
    simp only [reduceCtorEq, false_iff]
    exact fun h => hnone t h

theorem parse_eq_ok_iff_read? {s : String} {t : TypeExpr} :
    parse s = .ok t ↔ read? s = some t ∧ t.numbersBelow (Nat.pow 2 64) = true := by
  unfold parse
  cases hread : read? s with
  | none => simp
  | some u =>
    dsimp only
    constructor
    · intro h
      split at h
      · rename_i hsmall
        cases h
        exact ⟨rfl, hsmall⟩
      · cases h
    · rintro ⟨heq, hsmall⟩
      cases heq
      exact if_pos hsmall

theorem exists_denotes_of_parse {s : String} {t : TypeExpr} (h : parse s = .ok t) :
    ∃ text rest, Grammar.Denotes text t rest := by
  obtain ⟨hread, hsmall⟩ := parse_eq_ok_iff_read?.mp h
  obtain ⟨ts, hscan, hread⟩ := read?_eq_some_iff.mp hread
  obtain ⟨text, rest, -, hdenotes, -⟩ := (Grammar.readers_sound _).1 _ _ _ _ hread hsmall hscan
  exact ⟨text, rest, hdenotes⟩

theorem parse_of_denotes {s : String} {t : TypeExpr} (h : Grammar.Denotes s.toList t []) :
    parse s = .ok t := by
  have hend : Token.scan [] = some [] := by rw [Token.scan]
  obtain ⟨ts, hscan, -, hread⟩ := h.readAs hend (by simp [Grammar.Ends])
  have hread' : read? s = some t := read?_eq_some_iff.mpr ⟨ts, hscan, hread _ le_rfl⟩
  exact parse_eq_ok_iff_read?.mpr ⟨hread', h.numbersBelow⟩

/-- Reading a text gives the type that it spells, and fails for a text that spells none. -/
theorem parse_eq_ok_iff_spells (s : String) (t : TypeExpr) :
    parse s = .ok t ↔ Grammar.Spells s.toList t := by
  rw [parse_eq_ok_iff_read?, read?_eq_some_iff]
  constructor
  · rintro ⟨⟨ts, hscan, hread⟩, hsmall⟩
    obtain ⟨a, rest, hgap, hdenotes, hrest⟩ :=
      (Grammar.readers_sound _).1 _ _ _ _ hread hsmall hscan
    exact ⟨a, rest, hgap, hdenotes, Grammar.gap_of_scan_eq_nil hrest⟩
  · rintro ⟨a, rest, hgap, hdenotes, hend⟩
    have hrest : Token.scan rest = some [] := by
      rw [Grammar.scan_gap hend, Token.scan]
    obtain ⟨ts, hts, -, hread⟩ := hdenotes.readAs hrest (by simp [Grammar.Ends])
    exact ⟨⟨ts, (Grammar.scan_gap hgap).trans hts, hread _ le_rfl⟩, hdenotes.numbersBelow⟩

end NativeBindings.TypeExpr
