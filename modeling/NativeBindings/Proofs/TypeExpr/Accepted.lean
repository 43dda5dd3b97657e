import NativeBindings.Proofs.TypeExpr.Exactness
import NativeBindings.Proofs.TypeExpr.Matching

set_option autoImplicit false
set_option relaxedAutoImplicit false

/-!
What the grammar of reports accepts. Main statement: a text that the reader refuses is not matched
as a whole type, so a report always tells of a failure.
-/

namespace NativeBindings.TypeExpr.Expectation

open Grammar

variable {spaced : Bool} {place next last : Place}

private theorem Gives.many_induction {inner : Pattern} {motive : Place → Place → Prop}
    (stop : ∀ place, Gives spaced inner place none → motive place place)
    (step : ∀ place next last result, Gives spaced inner place (some next) →
      motive (skipBlanks spaced next) last →
      (result = last ∨ result = next ∧ last = skipBlanks spaced next) → motive place result)
    (h : Gives spaced (.many inner) place (some last)) : motive place last := by
  generalize hpattern : Pattern.many inner = pattern at h
  generalize hresult : some last = result at h
  induction h generalizing last with
  | notMany hnone =>
    cases hpattern
    cases hresult
    exact stop _ hnone
  | many hnext hagain _ ih =>
    cases hpattern
    cases hresult
    refine step _ _ _ _ hnext (ih stop step rfl rfl) ?_
    split
    · exact .inr ⟨rfl, hagain.reaches.1.eq_of_column ‹_›⟩
    · exact .inl rfl
  | _ => cases hpattern

/-! Words. -/

private theorem Gives.many_one {accepts : Char → Bool}
    (h : Gives false (.many (.one accepts)) place (some last)) :
    last.rest = place.rest.dropWhile accepts := by
  refine Gives.many_induction (motive := fun place last => last.rest = place.rest.dropWhile accepts)
    ?_ ?_ h
  · intro place hnone
    cases hnone with
    | notOne hfails =>
      cases hrest : place.rest with
      | nil => rfl
      | cons c rest => simp [hfails c (by simp [hrest])]
  · intro place next last result hone ih hresult
    obtain rfl : result = last := hresult.elim id fun hnext => hnext.1.trans hnext.2.symm
    cases hone with
    | one hc => rw [ih, List.dropWhile_cons_of_pos hc, skipBlanks_false]

private theorem Gives.identifier (h : Gives spaced (.phrase .identifier) place (some next)) :
    ∃ c rest, place.rest = c :: rest ∧ isIdentStart c = true ∧
      next.rest = rest.dropWhile isIdentChar := by
  cases h with
  | phrase h =>
    cases h with
    | both hfirst hrest =>
      cases hfirst with
      | one hc => exact ⟨_, _, rfl, hc, Gives.many_one hrest⟩

private theorem Gives.not_identifier (h : Gives spaced (.phrase .identifier) place none) :
    ∀ c ∈ place.rest.head?, isIdentStart c = false := by
  cases h with
  | phrase h =>
    cases h with
    | both _ hrest =>
      obtain ⟨_, hnone⟩ := Gives.exists_of_many hrest
      cases hnone
    | notBoth hfirst =>
      cases hfirst with
      | notOne hfails => exact hfails

private theorem spanName_stops {cs : List Char} (h : ∀ c ∈ cs.head?, isIdentChar c = false)
    (hcolons : ∀ c rest, cs = ':' :: ':' :: c :: rest → isIdentStart c = false) :
    (spanName cs).2 = cs := by
  unfold spanName
  split
  · rename_i c rest
    rw [if_neg (by simp [hcolons c rest rfl])]
  · rename_i c rest _
    rw [if_neg (by simp [h c rfl])]
  · rfl

private theorem spanName_dropWhile {c : Char} (hc : isIdentStart c = true) (rest : List Char) :
    (spanName (c :: rest)).2 = (spanName (rest.dropWhile isIdentChar)).2 := by
  have hword : ∀ d ∈ c :: rest.takeWhile isIdentChar, WordChar d := by
    refine List.forall_mem_cons.mpr ⟨?_, fun d hd => isIdentChar_iff.mp (List.mem_takeWhile_imp hd)⟩
    exact Identifier.wordChar ⟨c, [], rfl, isIdentStart_iff.mp hc, by simp⟩ c List.mem_cons_self
  have hsplit : c :: rest =
      (c :: rest.takeWhile isIdentChar) ++ rest.dropWhile isIdentChar := by
    rw [List.cons_append, List.takeWhile_append_dropWhile]
  rw [hsplit, spanName_wordChars hword]

private theorem head?_dropWhile_isIdentChar (rest : List Char) :
    ∀ c ∈ (rest.dropWhile isIdentChar).head?, isIdentChar c = false := by
  intro c hc
  have hnot := List.head?_dropWhile_not isIdentChar rest
  rw [hc] at hnot
  simpa using hnot

private theorem Gives.many_qualified
    (h : Gives false (.many (.both (.text [':', ':']) (.phrase .identifier))) place (some last)) :
    (∀ c ∈ place.rest.head?, isIdentChar c = false) → last.rest = (spanName place.rest).2 := by
  refine Gives.many_induction (motive := fun place last =>
    (∀ c ∈ place.rest.head?, isIdentChar c = false) → last.rest = (spanName place.rest).2) ?_ ?_ h
  · intro place hnone hstart
    refine (spanName_stops hstart ?_).symm
    intro c rest hrest
    cases hnone with
    | both hcolons hname =>
      cases hcolons with
      | text =>
        obtain rfl : _ = c :: rest := by simpa using hrest
        exact hname.not_identifier c rfl
    | notBoth hcolons =>
      cases hcolons with
      | notText hnot => exact absurd ⟨c :: rest, hrest.symm⟩ hnot
  · intro place next last result hpart ih hresult hstart
    obtain rfl : result = last := hresult.elim id fun hnext => hnext.1.trans hnext.2.symm
    cases hpart with
    | both hcolons hname =>
      cases hcolons with
      | text =>
        obtain ⟨c, rest, hrest, hc, hnext⟩ := hname.identifier
        obtain rfl : _ = c :: rest := hrest
        have hstop := head?_dropWhile_isIdentChar rest
        rw [← hnext] at hstop
        rw [ih hstop, skipBlanks_false, hnext, ← spanName_dropWhile hc]
        exact (congrArg Prod.snd (spanName_colons hc rest)).symm

private theorem Gives.qualifiedName
    (h : Gives spaced (.phrase .qualifiedName) place (some next)) :
    ∃ n, NameWord n place.rest next.rest := by
  cases h with
  | phrase h =>
    cases h with
    | both hfirst hrest =>
      obtain ⟨c, rest, hplace, hc, hmiddle⟩ := hfirst.identifier
      have hstop := head?_dropWhile_isIdentChar rest
      rw [← hmiddle] at hstop
      have hnext : next.rest = (spanName (c :: rest)).2 := by
        rw [Gives.many_qualified hrest hstop, spanName_dropWhile hc]
        exact congrArg (fun cs => (spanName cs).2) hmiddle
      refine ⟨String.ofList (spanName (c :: rest)).1, ?_⟩
      rw [NameWord, String.toList_ofList, hplace, hnext]
      exact longest_spanName hc rest

private theorem Gives.number (h : Gives spaced (.phrase .number) place (some next)) :
    ∃ value, NumberWord value place.rest next.rest := by
  cases h with
  | phrase h =>
    cases h with
    | both hfirst hrest =>
      cases hfirst with
      | one hc =>
        rw [Gives.many_one hrest]
        exact ⟨_, _, longest_digits hc _, rfl⟩

private theorem notAhead_iff {accepts : Char → Bool} {kind : Char → Prop}
    (hkind : ∀ c, accepts c = true ↔ kind c) (cs : List Char) :
    (∀ c ∈ cs.head?, accepts c = false) ↔ ∀ c ∈ cs.head?, ¬ kind c := by
  simp only [← hkind, Bool.not_eq_true]

private theorem Gives.constWord (h : Gives spaced (.phrase .constWord) place (some next)) :
    ConstWord place.rest next.rest := by
  cases h with
  | phrase h =>
    cases h with
    | both hletters hstop =>
      cases hletters with
      | text =>
        cases hstop with
        | notAhead hnot => exact ⟨rfl, (notAhead_iff (fun _ => isIdentChar_iff) _).mp hnot⟩

private theorem Gives.not_constWord (h : Gives spaced (.phrase .constWord) place none)
    (rest : List Char) : ¬ ConstWord place.rest rest := by
  rintro ⟨htext, hstop⟩
  cases h with
  | phrase h =>
    cases h with
    | both hletters hahead =>
      cases hletters with
      | text =>
        cases hahead with
        | ahead hc haccepts =>
          obtain rfl := List.append_cancel_left (htext : _ = "const".toList ++ rest)
          exact hstop _ hc (isIdentChar_iff.mp haccepts)
    | notBoth hletters =>
      cases hletters with
      | notText hnot => exact hnot ⟨rest, htext.symm⟩

/-! What stands behind a name. -/

private theorem gap_skipBlanks (place : Place) : Gap place.rest (skipBlanks true place).rest :=
  ⟨place.rest.takeWhile isBlank, fun _ hc => isBlank_iff.mp (List.mem_takeWhile_imp hc),
    List.takeWhile_append_dropWhile.symm⟩

private theorem Gives.text_rest {cs : List Char} (h : Gives spaced (.text cs) place (some next)) :
    place.rest = cs ++ next.rest := by
  cases h with
  | text => rfl

private theorem Gives.finish_rest (h : Gives true (.phrase .endOfInput) place (some next)) :
    place.rest = [] := by
  cases h with
  | phrase h =>
    cases h with
    | finish => rfl

private theorem Gives.parts {p : Phrase} {result : Option Place} (hspaced : p.isWord = false)
    (h : Gives spaced (.phrase p) place result) : Gives true p.body place result := by
  cases h with
  | phrase h => simpa [hspaced] using h

private theorem Gives.extent (h : Gives spaced (.phrase .extent) place (some next)) :
    ∃ a b, place.rest = '[' :: a ∧ ExtentSize a b ∧ Gap b (']' :: next.rest) := by
  cases h.parts rfl with
  | @both _ _ _ _ opened _ hopen hinner =>
    cases hinner with
    | @both _ _ _ _ sized _ hsize hclose =>
      have hclosed := gap_skipBlanks sized
      rw [hclose.text_rest] at hclosed
      refine ⟨opened.rest, ?_⟩
      cases hsize with
      | optional hnumber =>
        obtain ⟨value, hvalue⟩ := hnumber.number
        exact ⟨_, hopen.text_rest, .number (gap_skipBlanks opened) hvalue, hclosed⟩
      | notOptional =>
        exact ⟨_, hopen.text_rest, .none, (gap_skipBlanks opened).trans hclosed⟩

private theorem Gives.modifier (h : Gives spaced (.phrase .modifier) place (some next))
    (inner : TypeExpr) : ∃ inner', ∀ t rest,
      Modifiers inner' next.rest t rest → Modifiers inner place.rest t rest := by
  cases h.parts rfl with
  | first hpointer =>
    have hstar := Gives.text_rest (hpointer.parts rfl)
    exact ⟨.ptr inner, fun _ _ => .pointer (hstar ▸ Gap.refl _)⟩
  | second _ h =>
    cases h with
    | first hreference =>
      have hampersand := Gives.text_rest (hreference.parts rfl)
      exact ⟨.ref inner, fun _ _ => .reference (hampersand ▸ Gap.refl _)⟩
    | second _ hconst => exact ⟨inner, fun _ _ => .const (Gap.refl _) hconst.constWord⟩

private theorem exists_modifiers_of_gap {text a rest : List Char} {inner t : TypeExpr}
    (hgap : Gap text a) (h : Modifiers inner a t rest) :
    ∃ b, Modifiers inner text t b ∧ Gap b rest := by
  cases h with
  | none => exact ⟨text, .none, hgap⟩
  | pointer hstar hmore => exact ⟨rest, .pointer (hgap.trans hstar) hmore, Gap.refl rest⟩
  | reference hampersand hmore =>
    exact ⟨rest, .reference (hgap.trans hampersand) hmore, Gap.refl rest⟩
  | const hblanks hconst hmore =>
    exact ⟨rest, .const (hgap.trans hblanks) hconst hmore, Gap.refl rest⟩

private theorem Gives.many_modifier
    (h : Gives true (.many (.phrase .modifier)) place (some last)) (inner : TypeExpr) :
    ∃ t b, Modifiers inner place.rest t b ∧ Gap b last.rest := by
  refine Gives.many_induction (motive := fun place last => ∀ inner,
    ∃ t b, Modifiers inner place.rest t b ∧ Gap b last.rest) ?_ ?_ h inner
  · intro place _ inner
    exact ⟨inner, place.rest, .none, Gap.refl _⟩
  · intro place next last result hmodifier ih hresult inner
    obtain ⟨inner', hone⟩ := hmodifier.modifier inner
    rcases hresult with rfl | ⟨rfl, -⟩
    · obtain ⟨t, b, hmore, hgap⟩ := ih inner'
      obtain ⟨c, hmodifiers, hgap'⟩ := exists_modifiers_of_gap (gap_skipBlanks next) hmore
      exact ⟨t, c, hone t c hmodifiers, hgap'.trans hgap⟩
    · exact ⟨inner', _, hone _ _ .none, Gap.refl _⟩

private theorem Gives.decorations
    (h : Gives true (.both (.optional (.phrase .extent)) (.many (.phrase .modifier)))
      (skipBlanks true place) (some last)) (inner : TypeExpr) :
    ∃ t a b, OptionalExtent place.rest a ∧ Modifiers inner a t b ∧ Gap b last.rest := by
  cases h with
  | @both _ _ _ _ middle _ hextent hmodifiers =>
    obtain ⟨t, b, hmodifiers, hend⟩ := hmodifiers.many_modifier inner
    obtain ⟨a, hextent, hgap⟩ :
        ∃ a, OptionalExtent place.rest a ∧ Gap a (skipBlanks true middle).rest := by
      have hskip := gap_skipBlanks middle
      cases hextent with
      | optional hextent =>
        obtain ⟨c, d, hopen, hsize, hclose⟩ := hextent.extent
        exact ⟨_, .extent (hopen ▸ gap_skipBlanks place) hsize hclose, hskip⟩
      | notOptional => exact ⟨_, .none, (gap_skipBlanks place).trans hskip⟩
    obtain ⟨c, hmodifiers, hgap'⟩ := exists_modifiers_of_gap hgap hmodifiers
    exact ⟨t, a, c, hextent, hmodifiers, hgap'.trans hend⟩

/-! Types. The induction is on the length of the text: arguments begin behind a name. -/

def ReadsType (place next : Place) : Prop :=
  ∃ t, ∀ ts, Token.scan next.rest = some ts → Ends ts → ReadAs readType 1 place.rest t ts

def ReadsArg (place next : Place) : Prop :=
  ∃ x, ∀ ts, Token.scan next.rest = some ts → Ends ts → ReadAs readArg 2 place.rest x ts

/-- Arguments that begin at places without blanks, in less than a length of text, are read. -/
def ArgumentsBelow (n : Nat) : Prop :=
  ∀ place next, (skipBlanks true place).rest.length < n →
    Gives true (.phrase .argument) (skipBlanks true place) (some next) →
    ReadsArg (skipBlanks true place) next

private theorem Gives.many_arguments {n : Nat} (hbelow : ArgumentsBelow n)
    (h : Gives true (.many (.both (.text [',']) (.phrase .argument))) place (some last))
    (hplace : place.rest.length ≤ n) {text : List Char} {x : TypeArg}
    (hx : ∀ ts, Token.scan place.rest = some ts → Ends ts → ReadAs readArg 2 text x ts) :
    ∃ args, ∀ ts, Token.scan last.rest = some (.greater :: ts) →
      ReadAs readArgs 3 text args ts := by
  refine Gives.many_induction (motive := fun place last =>
    place.rest.length ≤ n → ∀ text x,
      (∀ ts, Token.scan place.rest = some ts → Ends ts → ReadAs readArg 2 text x ts) →
      ∃ args, ∀ ts, Token.scan last.rest = some (.greater :: ts) → ReadAs readArgs 3 text args ts)
    ?_ ?_ h hplace text x hx
  · intro place _ _ text x hx
    exact ⟨[x], fun ts hts => readAs_last (hx _ hts (by simp [Ends]))⟩
  · intro place next last result hpart ih hresult hplace text x hx
    have hscan : Token.scan result.rest = Token.scan last.rest := by
      rcases hresult with rfl | ⟨rfl, rfl⟩
      · rfl
      · exact scan_gap (gap_skipBlanks result)
    cases hpart with
    | @both _ _ _ _ middle _ hcomma hargument =>
      have hlength := congrArg List.length hcomma.text_rest
      simp only [List.length_append, List.length_singleton] at hlength
      have hskip := (reaches_skipBlanks true middle).length_le
      have hnext := hargument.reaches.1.length_le
      have hskip' := (reaches_skipBlanks true next).length_le
      obtain ⟨y, hy⟩ := hbelow middle next (by omega) hargument
      obtain ⟨args, hargs⟩ := ih (by omega) (skipBlanks true middle).rest y
        fun ts hts => hy ts ((scan_gap (gap_skipBlanks next)).trans hts)
      refine ⟨x :: args, fun ts hts => ?_⟩
      refine readAs_more (hcomma.text_rest ▸ Gap.refl _) (gap_skipBlanks middle)
        (hargs ts (hscan ▸ hts)) fun us hus => hx _ hus (by simp [Ends])

private theorem Gives.template (hbelow : ArgumentsBelow place.rest.length)
    (h : Gives spaced (.phrase .template) place (some next)) :
    ∃ n a b c args, NameWord n place.rest a ∧ Gap a ('<' :: b) ∧ Gap b c ∧
      ∀ vs, Token.scan next.rest = some vs → ReadAs readArgs 3 c args vs := by
  cases h.parts rfl with
  | @both _ _ _ _ named _ hname h =>
    cases h with
    | @both _ _ _ _ opened _ hopen h =>
      cases h with
      | @both _ _ _ _ first _ hfirst h =>
        cases h with
        | @both _ _ _ _ behind _ hmore hclose =>
          obtain ⟨n, hn⟩ := hname.qualifiedName
          have hlt := hname.reaches.2 (by decide)
          have hopening := (reaches_skipBlanks true named).length_le
          have hopened := hopen.reaches.1.length_le
          have hskip := (reaches_skipBlanks true opened).length_le
          have hbehind := hfirst.reaches.1.length_le
          have hskip' := (reaches_skipBlanks true first).length_le
          obtain ⟨x, hx⟩ := hbelow opened first (by omega) hfirst
          obtain ⟨args, hargs⟩ := Gives.many_arguments hbelow hmore (by omega)
            fun ts hts => hx ts ((scan_gap (gap_skipBlanks first)).trans hts)
          refine ⟨n, named.rest, opened.rest, _, args, hn, ?_, gap_skipBlanks opened, ?_⟩
          · have hgap := gap_skipBlanks named
            rwa [hopen.text_rest] at hgap
          · intro vs hvs
            apply hargs
            rw [scan_gap (gap_skipBlanks behind), hclose.text_rest]
            exact scan_gap_word .greater (Gap.refl _) rfl hvs

private theorem Gives.goesOn {middle : Place} (hbelow : ArgumentsBelow place.rest.length)
    (hatom : Gives spaced (.phrase .atom) place (some middle))
    (hbehind : Gives true (.both (.optional (.phrase .extent)) (.many (.phrase .modifier)))
      (skipBlanks true middle) (some next)) :
    ∃ t, ∀ ts, Token.scan next.rest = some ts → Ends ts → GoesOn place.rest t ts := by
  cases hatom.parts rfl with
  | first htemplate =>
    obtain ⟨n, a, b, c, args, hname, hopen, hinner, hargs⟩ := htemplate.template hbelow
    obtain ⟨t, d, e, hextent, hmodifiers, hgap⟩ := hbehind.decorations (.app n args)
    exact ⟨t, fun ts hts hends => readAs_template hname hopen hinner hargs hextent hmodifiers
      ((scan_gap hgap).trans hts) hends⟩
  | second _ hname =>
    obtain ⟨n, hname⟩ := hname.qualifiedName
    obtain ⟨t, d, e, hextent, hmodifiers, hgap⟩ := hbehind.decorations (.name n)
    exact ⟨t, fun ts hts hends => readAs_name hname hextent hmodifiers
      ((scan_gap hgap).trans hts) hends⟩

private theorem skipBlanks_eq_self (h : ∀ c ∈ place.rest.head?, isBlank c = false) :
    skipBlanks true place = place := by
  obtain ⟨rest, column⟩ := place
  cases rest with
  | nil => rfl
  | cons c rest => simp [skipBlanks, h c rfl]

@[simp] private theorem skipBlanks_skipBlanks (place : Place) :
    skipBlanks true (skipBlanks true place) = skipBlanks true place := by
  refine skipBlanks_eq_self fun c hc => ?_
  have hnot := List.head?_dropWhile_not isBlank place.rest
  rw [show (place.rest.dropWhile isBlank).head? = some c from hc] at hnot
  simpa using hnot

private theorem Gives.type (hbelow : ArgumentsBelow (skipBlanks true place).rest.length)
    (h : Gives true (.phrase .type) (skipBlanks true place) (some next)) :
    ReadsType (skipBlanks true place) next := by
  cases h.parts rfl with
  | @both _ _ _ _ qualified _ hconst h =>
    cases h with
    | @both _ _ _ _ named _ hatom hbehind =>
      have hskip := (reaches_skipBlanks true qualified).length_le
      have hshorter := hconst.reaches.1.length_le
      obtain ⟨t, ht⟩ := hatom.goesOn
        (fun place next hlt => hbelow place next (by omega)) hbehind
      refine ⟨t, fun ts hts hends => ?_⟩
      obtain ⟨n, after, us, hname, hus, hle, hread⟩ := ht ts hts hends
      cases hconst with
      | optional hconst =>
        exact readAs_of_head (.qualified hconst.constWord (gap_skipBlanks qualified) hname) hus hle
          hread
      | notOptional hconst =>
        rw [skipBlanks_skipBlanks] at hname
        exact readAs_of_head (.plain hconst.not_constWord hname) hus hle hread

private theorem argumentsBelow (n : Nat) : ArgumentsBelow n := by
  induction n with
  | zero => exact fun _ _ hlt => absurd hlt (Nat.not_lt_zero _)
  | succ n ih =>
    intro place next hlt h
    cases h.parts rfl with
    | first hnumber =>
      obtain ⟨value, hvalue⟩ := hnumber.number
      exact ⟨.number value, fun ts hts _ => readAs_number hvalue hts⟩
    | second _ htype =>
      have hbelow : ArgumentsBelow (skipBlanks true place).rest.length :=
        fun p q hp => ih p q (by omega)
      obtain ⟨t, ht⟩ := Gives.type hbelow htype
      exact ⟨.type t, fun ts hts hends => readAs_type (ht ts hts hends)⟩

private theorem exists_read_of_gives {s : String}
    (h : Gives true (.phrase .wholeType) ⟨s.toList, 0⟩ (some next)) : ∃ t, read? s = some t := by
  cases h.parts rfl with
  | @both _ _ _ _ start _ hstart h =>
    cases h with
    | @both _ _ _ _ behind _ htype hend =>
      obtain ⟨t, ht⟩ := Gives.type (argumentsBelow _) htype
      have hblank : Token.scan behind.rest = some [] := by
        rw [scan_gap (gap_skipBlanks behind), hend.finish_rest, Token.scan]
      have hwhole : s.toList = start.rest := hstart.text_rest
      obtain ⟨us, hus, -, hread⟩ := ht [] hblank (by simp [Ends])
      rw [← scan_gap (gap_skipBlanks start), ← hwhole] at hus
      exact ⟨t, read?_eq_some_iff.mpr ⟨us, hus, hread _ le_rfl⟩⟩

/-- A text that the reader refuses is not matched as a whole type, given the fuel of a report. -/
theorem run_wholeType_of_refused {s : String} (trace : Trace) (h : read? s = none) :
    ((Pattern.phrase .wholeType).run (64 * (s.toList.length + 2)) true ⟨s.toList, 0⟩ trace).1 =
      none := by
  have hgives := gives_run (64 * (s.toList.length + 2)) true (.phrase .wholeType) ⟨s.toList, 0⟩
    trace rfl (by simp only [Pattern.need, Phrase.need]; omega)
  cases hrun :
      ((Pattern.phrase .wholeType).run (64 * (s.toList.length + 2)) true ⟨s.toList, 0⟩ trace).1 with
  | none => rfl
  | some next =>
    rw [hrun] at hgives
    obtain ⟨t, ht⟩ := exists_read_of_gives hgives
    rw [h] at ht
    cases ht

end NativeBindings.TypeExpr.Expectation
