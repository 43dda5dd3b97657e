import NativeBindings.Proofs.Toml.Tables

set_option autoImplicit false
set_option relaxedAutoImplicit false

/-!
Written lines of a TOML text. Main statements: the lines of a table are read as members that give
its record, and become the entries of the table that is open.
-/

namespace NativeBindings.Toml

open Writing Shape

variable {w rest gap : List Char} {fuel depth : Nat}

/-! Reading of lines. -/

def LinesRead (fuel : Nat) (cs : List Char) (lines : List Line) : Prop :=
  ∀ count, cs.length < count → readLinesWith? fuel count cs = some lines

theorem linesRead_nil (hgap : gap ⊆ listSpaces .toml) : LinesRead fuel gap [] := by
  have hend : skipGaps? false gap = some [] := by
    induction gap with
    | nil => rfl
    | cons e more ih =>
      obtain ⟨he, hmore⟩ := List.cons_subset.mp hgap
      have hskip : ∀ e ∈ listSpaces .toml, isBlank e = true ∨ e = '\n' := by decide
      rw [skipGaps?, if_pos ((hskip e he).imp id .inl)]
      exact ih hmore
  intro count hcount
  obtain ⟨count, rfl⟩ := Nat.exists_eq_add_of_lt hcount
  rw [readLinesWith?, hend]

theorem LinesRead.cons {before : List Char} {c : Char} {start : List Char} {line : Line}
    {lines : List Line} (hbefore : before ⊆ listSpaces .toml) (hc : OpensKey c ∨ c = '[')
    (hline : readLine? fuel (c :: start) = some (line, rest))
    (hshorter : rest.length ≤ start.length) (h : LinesRead fuel rest lines) :
    LinesRead fuel (before ++ c :: start) (line :: lines) := by
  intro count hcount
  rw [List.length_append, List.length_cons] at hcount
  obtain ⟨count, rfl⟩ : ∃ k, count = k + 1 := ⟨count - 1, by omega⟩
  have hstops : c ∉ [' ', '\t', '\n', '\r', '#'] := hc.elim OpensKey.stops fun hc => hc ▸ by decide
  rw [readLinesWith?, skipGaps?_gap hbefore hstops]
  dsimp only
  rw [hline]
  dsimp only
  rw [h count (by omega)]
  rfl

private theorem endLine?_gap (hgap : gap ⊆ spaces .toml) (rest : List Char) :
    endLine? false (gap ++ '\n' :: rest) = some rest := by
  induction gap with
  | nil => simp [endLine?]
  | cons e more ih =>
    obtain ⟨he, hmore⟩ := List.cons_subset.mp hgap
    have hblank : ∀ e ∈ spaces .toml, isBlank e = true ∧ e ≠ '\n' ∧ e ≠ '\r' := by decide
    obtain ⟨hskip, hnewline, hreturn⟩ := hblank e he
    rw [List.cons_append, endLine?, if_neg hnewline, if_neg fun h => hreturn h.1,
      if_neg Bool.false_ne_true, if_pos hskip]
    exact ih hmore

section Line

variable {Record : Type} {S : Shape Record} {field : (f : S.Field) → Decoder (S.Value f)}

private theorem readLine?_member {m : Member} {g : S.Given}
    (hgives : m.Gives (fun f v w => Denotes depth (field f) v w) (Passes depth) g)
    (hw : MemberWritten .toml m w) (hfuel : 2 * w.length ≤ fuel) (hdepth : depth ≤ depthLimit)
    (hgap : gap ⊆ spaces .toml) (rest : List Char) :
    ∃ key v n, readLine? fuel (w ++ (gap ++ '\n' :: rest)) =
        some (.member ⟨[], ⟨some key.name, key.extent⟩⟩ v, rest) ∧
      key.name = m.key ∧ v.node = .ok n ∧ Entry.Gives field (.mk key n) g := by
  obtain ⟨key, before, behind, value, hkey, hbefore, hbehind, hvalue, rfl⟩ := hw
  simp only [List.length_append, List.length_cons] at hfuel
  have hwrites := writes_of_gives hgives hvalue
  have hvalueFuel : 2 * value.length ≤ fuel := by omega
  have hends : Ends (gap ++ '\n' :: rest) := ⟨gap, '\n', rest, hgap, by decide, rfl⟩
  obtain ⟨v, n, hread, hnode, hn⟩ := hwrites.reads fuel depthLimit _ hvalueFuel hdepth hends
  obtain ⟨c, more, rfl, hc⟩ := hwrites.opens
  have hpathFuel : 0 < fuel := by omega
  obtain ⟨extent, hpath⟩ := readPath_written hkey hbefore (c := '=') (by decide) hpathFuel
    (behind ++ (c :: more ++ (gap ++ '\n' :: rest)))
  refine ⟨⟨m.key, extent⟩, v, n, ?_, rfl, hnode, hn extent⟩
  obtain ⟨d, start, rfl, hd⟩ := keyWritten_opens hkey
  have hblank : isBlank c = false := Opens.not_blank hc
  have hmissing : atMissingValue (c :: (more ++ (gap ++ '\n' :: rest))) = false := by
    have hne := hc.stops
    simp only [List.mem_cons, List.not_mem_nil, or_false, not_or] at hne
    simp [atMissingValue, hne]
  simp only [keySign, List.append_assoc, List.cons_append] at hpath hread ⊢
  have hlist : d ≠ '[' := by
    rintro rfl
    exact absurd hd (by decide)
  rw [readLine?]
  · rw [readMemberLine?, hpath]
    simp only
    rw [skipBlank_gap hbehind hblank, readLineValue?, hmissing, if_neg Bool.false_ne_true,
      readValue?, hread]
    simp only
    rw [endLine?_gap hgap]
    rfl
  · exact fun _ heq => hlist (List.cons.inj heq).1
  · exact fun _ heq => hlist (List.cons.inj heq).1

def memberLine : WrittenMember → Line
  | .mk path value => .member path value

theorem linesRead_members {order : List Member} {gs : List S.Given} {lines : List Char}
    (h : LinesWritten order lines)
    (hgives : List.Forall₂
      (Member.Gives (fun f v w => Denotes depth (field f) v w) (Passes depth)) order gs)
    (hfuel : 2 * lines.length ≤ fuel) (hdepth : depth ≤ depthLimit) {tail : List Char}
    {later : List Line} (htail : LinesRead fuel tail later) :
    ∃ ms, Collected field order gs ms ∧
      LinesRead fuel (lines ++ tail) (ms.map memberLine ++ later) := by
  induction h generalizing gs with
  | nil =>
    cases hgives
    exact ⟨[], ⟨[], .nil, rfl, .nil⟩, htail⟩
  | @cons m order before w behind rest hbefore hw hbehind _ ih =>
    obtain ⟨g, gs, hg, hgs, rfl⟩ := List.forall₂_cons_left_iff.mp hgives
    simp only [List.length_append, List.length_cons] at hfuel
    have hmemberFuel : 2 * w.length ≤ fuel := by omega
    obtain ⟨ms, hcollected, hlater⟩ := ih hgs (by omega)
    obtain ⟨key, v, n, hread, hname, hnode, hn⟩ :=
      readLine?_member hg hw hmemberFuel hdepth hbehind (rest ++ tail)
    refine ⟨_, .cons hname hnode hn hcollected, ?_⟩
    obtain ⟨c, start, rfl, hc⟩ := memberWritten_opens hw
    simp only [List.append_assoc, List.cons_append] at hread ⊢
    refine .cons hbefore (.inl hc) hread ?_ hlater
    simp only [List.length_append, List.length_cons]
    omega

theorem exists_frontLines (field : (f : S.Field) → Decoder (S.Value f)) {known : List String}
    {order : List Member} {lines tail : List Char} (hordered : Ordered .toml known [] order)
    (hknown : known = S.fields.map S.key) (h : LinesWritten order lines)
    (hfuel : 2 * lines.length ≤ fuel) {later : List Line} (htail : LinesRead fuel tail later) :
    ∃ ms es, LinesRead fuel (lines ++ tail) (ms.map memberLine ++ later) ∧
      List.Forall₂ WrittenMember.Holds ms es ∧ (es.map Entry.name).Nodup ∧
      ∀ e ∈ es, Entry.Gives field e .unknown := by
  obtain ⟨extras, hextras, hunknown, hperm⟩ := hordered
  have hgives : List.Forall₂
      (Member.Gives (fun f v w => Denotes 0 (field f) v w) (Passes 0)) order
      (order.map fun _ => .unknown) := by
    refine List.forall₂_map_right_iff.mpr (List.forall₂_same.mpr fun m hm => ?_)
    obtain ⟨e, he, rfl⟩ := List.mem_map.mp (hperm.mem_iff.mp hm)
    exact ⟨field?_eq_none_iff.mpr (hknown ▸ hunknown e he), fun _ => passes_text⟩
  have hkeys : (order.map Member.key).Nodup := by
    have hmap := hperm.map Member.key
    rw [List.nil_append, List.map_map] at hmap
    exact hmap.nodup_iff.mpr hextras
  obtain ⟨ms, ⟨es, hholds, hnames, hall⟩, hread⟩ :=
    linesRead_members h hgives hfuel (Nat.zero_le _) htail
  refine ⟨ms, es, hread, hholds, hnames ▸ hkeys, fun e he => ?_⟩
  obtain ⟨g, hg, he⟩ := Traversal.exists_of_forall₂_of_mem hall he
  rwa [eq_unknown_of_mem_map order g hg] at he

end Line

/-! Headers. -/

def brackets (listed : Bool) (c : Char) : List Char := if listed then [c, c] else [c]

def headerText (listed : Bool) (key : List Char) : List Char :=
  brackets listed '[' ++ (key ++ brackets listed ']')

private theorem readHeader?_written (listed : Bool) {key : String} (hkey : KeyWritten .toml key w)
    (hfuel : 0 < fuel) (hgap : gap ⊆ spaces .toml) (start rest : List Char) :
    ∃ e, readHeader? fuel listed start (w ++ (brackets listed ']' ++ (gap ++ '\n' :: rest))) =
      some (.header listed ⟨start, gap ++ '\n' :: rest⟩ ⟨[], ⟨some key, e⟩⟩, rest) := by
  have hclose : ∃ more, brackets listed ']' ++ (gap ++ '\n' :: rest) = ']' :: more ∧
      closeHeader? listed (']' :: more) = some (gap ++ '\n' :: rest) := by
    cases listed <;> exact ⟨_, rfl, rfl⟩
  obtain ⟨more, hmore, hclose⟩ := hclose
  obtain ⟨e, hpath⟩ := readPath_written hkey (List.nil_subset _) (c := ']') (by decide) hfuel more
  rw [List.nil_append] at hpath
  refine ⟨e, ?_⟩
  rw [hmore, readHeader?, hpath]
  simp only [hclose]
  rw [endLine?_gap hgap]
  rfl

private theorem readLine?_header (listed : Bool) {key : String} (hkey : KeyWritten .toml key w)
    (hfuel : 0 < fuel) (hgap : gap ⊆ spaces .toml) (rest : List Char) :
    ∃ extent e, readLine? fuel (headerText listed w ++ (gap ++ '\n' :: rest)) =
      some (.header listed extent ⟨[], ⟨some key, e⟩⟩, rest) := by
  let start := headerText listed w ++ (gap ++ '\n' :: rest)
  obtain ⟨e, hread⟩ := readHeader?_written listed hkey hfuel hgap start rest
  refine ⟨⟨start, gap ++ '\n' :: rest⟩, e, ?_⟩
  rw [← hread]
  -- the key does not begin with the bracket that would double a single one
  obtain ⟨c, more, rfl, hc⟩ := keyWritten_opens hkey
  have hlist : c ≠ '[' := by
    rintro rfl
    exact absurd hc (by decide)
  cases listed <;> simp [start, headerText, brackets, readLine?, hlist]

theorem LinesRead.header {before : List Char} (hbefore : before ⊆ listSpaces .toml)
    (listed : Bool) {key : String} (hkey : KeyWritten .toml key w) (hfuel : 0 < fuel)
    (hgap : gap ⊆ spaces .toml) {lines : List Line} (h : LinesRead fuel rest lines) :
    ∃ extent e, LinesRead fuel (before ++ (headerText listed w ++ (gap ++ '\n' :: rest)))
      (.header listed extent ⟨[], ⟨some key, e⟩⟩ :: lines) := by
  obtain ⟨extent, e, hread⟩ := readLine?_header listed hkey hfuel hgap rest
  refine ⟨extent, e, ?_⟩
  obtain ⟨start, hstart⟩ : ∃ start, headerText listed w = '[' :: start := by
    cases listed <;> exact ⟨_, rfl⟩
  rw [hstart, List.cons_append] at hread ⊢
  refine .cons hbefore (.inr rfl) hread ?_ h
  simp only [List.length_append, List.length_cons]
  omega

/-! Lines of a document. -/

def Draft.current (d : Draft) : Entries :=
  match d.header with
  | none => d.root
  | some _ => d.entries

def Draft.extend (d : Draft) (es : Entries) : Draft :=
  match d.header with
  | none => { d with root := d.root ++ es }
  | some _ => { d with entries := d.entries ++ es }

private theorem extend_nil (d : Draft) : d.extend [] = d := by
  obtain ⟨root, header, entries⟩ := d
  cases header <;> simp [Draft.extend]

private theorem current_extend (d : Draft) (es : Entries) :
    (d.extend es).current = d.current ++ es := by
  obtain ⟨root, header, entries⟩ := d
  cases header <;> rfl

private theorem extend_append (d : Draft) (es later : Entries) :
    (d.extend es).extend later = d.extend (es ++ later) := by
  obtain ⟨root, header, entries⟩ := d
  cases header <;> simp [Draft.extend]

private theorem enterMember_of_node {d : Draft} {key : Key} {v : WrittenValue} {n : Node}
    (hnode : v.node = .ok n) (hnew : key.name ∉ d.current.map Entry.name) :
    d.enterMember ⟨[], ⟨some key.name, key.extent⟩⟩ v = .ok (d.extend [.mk key n]) := by
  obtain ⟨root, header, entries⟩ := d
  rw [Draft.enterMember, keys_single]
  simp only
  rw [hnode]
  cases header with
  | none =>
    have hroot : key.name ∉ root.map Entry.name := hnew
    simp only
    rw [enterMember_new hroot]
    rfl
  | some header =>
    have hopen : key.name ∉ entries.map Entry.name := hnew
    simp only
    rw [enterMember_new hopen]
    rfl

theorem enterLines_members {ms : List WrittenMember} {es : List Entry}
    (h : List.Forall₂ WrittenMember.Holds ms es) {d : Draft}
    (hnames : ((d.current ++ es).map Entry.name).Nodup) (later : List Line) :
    d.enterLines (ms.map memberLine ++ later) = (d.extend es).enterLines later := by
  induction h generalizing d with
  | nil =>
    rw [extend_nil]
    rfl
  | @cons m e ms es hm _ ih =>
    obtain ⟨hnode⟩ := hm
    rename_i key v n
    have hnew : key.name ∉ d.current.map Entry.name := name_notMem_of_nodup hnames
    have hrest : (((d.extend [.mk key n]).current ++ es).map Entry.name).Nodup := by
      rwa [current_extend, List.append_assoc]
    rw [List.map_cons, List.cons_append, Draft.enterLines, memberLine, Draft.enterLine,
      enterMember_of_node hnode hnew]
    simp only
    rw [ih hrest, extend_append]
    rfl

/-- A header closes the table before it and opens the next. One that is not listed has to be new. -/
theorem enterLine_header {d : Draft} {root : Entries} (h : d.close = .ok root) (listed : Bool)
    (key : Key) (hnew : listed = false → key.name ∉ root.map Entry.name) (extent : Extent) :
    d.enterLine (.header listed extent ⟨[], ⟨some key.name, key.extent⟩⟩) =
      .ok ⟨root, some ⟨extent, [], key, listed⟩, []⟩ := by
  rw [Draft.enterLine, Draft.openTable, h, keys_single]
  cases listed with
  | true => rfl
  | false =>
    have hfind : find? key.name root = none := find?_eq_none_of_notMem (hnew rfl)
    have hremove : remove key.name root = root := by
      refine List.filter_eq_self.mpr fun e he => decide_eq_true fun hname => ?_
      exact hnew rfl (List.mem_map.mpr ⟨e, he, hname⟩)
    simp [Header.openIn, lookAt, Header.taken, updateAt, hfind, hremove, Except.map]

/-! Texts as a whole. -/

theorem head?_gap_ne (hgap : gap ⊆ listSpaces .toml) (hrest : rest.head? ≠ some byteOrderMark) :
    (gap ++ rest).head? ≠ some byteOrderMark := by
  have hspaces : ∀ c ∈ listSpaces .toml, c ≠ byteOrderMark := by decide
  cases gap with
  | nil => exact hrest
  | cons c more => exact fun heq => hspaces c (hgap List.mem_cons_self) (Option.some.inj heq)

theorem head?_lines_ne {order : List Member} {lines : List Char} (h : LinesWritten order lines)
    (hrest : rest.head? ≠ some byteOrderMark) : (lines ++ rest).head? ≠ some byteOrderMark := by
  cases h with
  | nil => exact hrest
  | cons hbefore hw _ _ =>
    rw [List.append_assoc]
    refine head?_gap_ne hbefore fun heq => ?_
    obtain ⟨c, more, rfl, hc⟩ := memberWritten_opens hw
    exact absurd (Option.some.inj heq ▸ hc) (by decide)

theorem document_of_linesRead {source : List Char} (hmark : source.head? ≠ some byteOrderMark)
    {lines : List Line} (hread : LinesRead (3 * source.length + 3) source lines) {d : Draft}
    (henter : Draft.enterLines ⟨[], none, []⟩ lines = .ok d) {root : Entries}
    (hclose : d.close = .ok root) :
    document source = .ok (.table (wholeExtent source) .opened root) := by
  have hlines : readLines? source = some lines := by
    rw [readLines?, dropByteOrderMark, if_neg hmark]
    exact hread _ (Nat.lt_succ_self _)
  rw [document, hlines]
  simp only
  rw [henter]
  simp only
  rw [hclose]
  rfl

end NativeBindings.Toml
