import NativeBindings.Proofs.Listing.Drafts
import NativeBindings.Proofs.Toml.Scalars
import NativeBindings.Proofs.Traversal

set_option autoImplicit false
set_option relaxedAutoImplicit false

/-!
Written lists and tables are read part by part. Main statements: a list of written items is decoded
as their list, and a table whose members give the fields of a record as the record.
-/

namespace NativeBindings.Toml

open Writing Shape

variable {w rest gap : List Char} {c : Char} {fuel d depth : Nat}

/-! White space between the parts. -/

theorem skipGaps?_gap (hgap : gap ⊆ listSpaces .toml) (hc : c ∉ [' ', '\t', '\n', '\r', '#'])
    (rest : List Char) : skipGaps? false (gap ++ c :: rest) = some (c :: rest) := by
  induction gap with
  | nil =>
    simp only [List.mem_cons, List.not_mem_nil, or_false, not_or] at hc
    simp [skipGaps?, isBlank, hc]
  | cons e more ih =>
    obtain ⟨he, hmore⟩ := List.cons_subset.mp hgap
    have hskip : ∀ e ∈ listSpaces .toml, isBlank e = true ∨ e = '\n' := by decide
    rw [List.cons_append, skipGaps?, if_pos ((hskip e he).imp id .inl)]
    exact ih hmore

theorem Opens.stops (h : Opens c) : c ∉ [' ', '\t', '\n', '\r', '#'] :=
  fun hmem => h (List.mem_append_left [',', ']', '\x7d'] hmem)

theorem Opens.not_blank (h : Opens c) : isBlank c = false := by
  have hne := h.stops
  simp only [List.mem_cons, List.not_mem_nil, or_false, not_or] at hne
  simp [isBlank, hne]

theorem OpensKey.stops (h : OpensKey c) : c ∉ [' ', '\t', '\n', '\r', '#'] :=
  fun hmem => h (List.mem_append_left [',', '.', '[', ']', '\x7d', byteOrderMark] hmem)

private theorem spaces_subset : spaces .toml ⊆ listSpaces .toml := List.subset_cons_self _ _

private theorem ends_of_listSpaces (hgap : gap ⊆ listSpaces .toml) (hc : c ∈ [',', ']', '\x7d'])
    (rest : List Char) : Ends (gap ++ c :: rest) := by
  induction gap with
  | nil =>
    exact ⟨[], c, rest, List.nil_subset _, List.mem_append_left ['\n'] hc, rfl⟩
  | cons e more ih =>
    obtain ⟨he, hmore⟩ := List.cons_subset.mp hgap
    rcases List.mem_cons.mp he with rfl | he
    · exact ⟨[], '\n', _, List.nil_subset _, by decide, rfl⟩
    · obtain ⟨blanks, closing, after, hblanks, hclosing, hrest⟩ := ih hmore
      exact ⟨e :: blanks, closing, after, List.cons_subset.mpr ⟨he, hblanks⟩, hclosing,
        congrArg (e :: ·) hrest⟩

private theorem exists_cons_of_enclosed {α : Type} {opening closing : Char} {gaps : List Char}
    {Item : α → List Char → Prop} {xs : List α} (h : Enclosed opening closing gaps Item xs w) :
    ∃ body, w = opening :: body := by
  cases h <;> exact ⟨_, rfl⟩

/-! Lists. -/

private theorem readItemsWith?_step {P : Node → Prop} {before after : List Char}
    (hw : Writes depth P w)
    (hbefore : before ⊆ listSpaces .toml) (hfuel : 2 * w.length ≤ fuel) (hd : depth ≤ d)
    (hafter : Ends after) :
    ∃ v n, v.node = .ok n ∧ P n ∧
      readItemsWith? (fuel + 1) d (before ++ (w ++ after)) =
        match skipGaps? false after with
        | some (']' :: more) => some ([v], more)
        | some (',' :: more) => (readItemsWith? fuel d more).map fun p => (v :: p.1, p.2)
        | _ => none := by
  obtain ⟨v, n, hread, hnode, hn⟩ := hw.reads fuel d after hfuel hd hafter
  obtain ⟨c, more, rfl, hc⟩ := hw.opens
  refine ⟨v, n, hnode, hn, ?_⟩
  rw [List.cons_append] at hread ⊢
  rw [readItemsWith?, skipGaps?_gap hbefore hc.stops]
  split
  · rename_i heq
    exact absurd ((List.cons.inj (Option.some.inj heq)).1 ▸ hc) (by decide)
  · rename_i heq
    obtain rfl := Option.some.inj heq
    rewrite [hread]
    rfl
  · rename_i heq
    cases heq

section List

variable {α : Type} {item : Decoder α} {Item : α → List Char → Prop}
  (hitem : ∀ x w, Item x w → Denotes depth item x w)
include hitem

private theorem readItemsWith?_separated {xs : List α} {body : List Char}
    (h : Separated (listSpaces .toml) Item xs body) (hfuel : 2 * body.length < fuel)
    (hd : depth ≤ d) (rest : List Char) :
    ∃ vs ns, readItemsWith? fuel d (body ++ ']' :: rest) = some (vs, rest) ∧
      WrittenValue.nodes vs = .ok ns ∧ List.Forall₂ (fun n x => item n = .ok x) ns xs := by
  induction h generalizing fuel with
  | @last x before w behind hbefore hw hbehind =>
    simp only [List.length_append] at hfuel
    obtain ⟨fuel, rfl⟩ : ∃ k, fuel = k + 1 := ⟨fuel - 1, by omega⟩
    have hitemFuel : 2 * w.length ≤ fuel := by omega
    obtain ⟨v, n, hnode, hn, hread⟩ := readItemsWith?_step (hitem x w hw) hbefore hitemFuel hd
      (ends_of_listSpaces hbehind (c := ']') (by decide) rest)
    refine ⟨[v], [n], ?_, ?_, .cons hn .nil⟩
    · simp only [List.append_assoc]
      rw [hread, skipGaps?_gap hbehind (by decide)]
      rfl
    · simp [WrittenValue.nodes, hnode, Except.map]
  | @more x xs before w behind body hbefore hw hbehind _ ih =>
    simp only [List.length_append, List.length_cons] at hfuel
    obtain ⟨fuel, rfl⟩ : ∃ k, fuel = k + 1 := ⟨fuel - 1, by omega⟩
    have hitemFuel : 2 * w.length ≤ fuel := by omega
    have hbodyFuel : 2 * body.length < fuel := by omega
    obtain ⟨v, n, hnode, hn, hread⟩ := readItemsWith?_step (hitem x w hw) hbefore hitemFuel hd
      (ends_of_listSpaces hbehind (c := ',') (by decide) (body ++ ']' :: rest))
    obtain ⟨vs, ns, hrest, hnodes, hall⟩ := ih hbodyFuel
    refine ⟨v :: vs, n :: ns, ?_, ?_, .cons hn hall⟩
    · simp only [List.append_assoc, List.cons_append]
      rw [hread, skipGaps?_gap hbehind (by decide)]
      simp [hrest]
    · simp [WrittenValue.nodes, hnode, hnodes, Except.map]

private theorem readItemsWith?_enclosed {xs : List α} {body : List Char}
    (h : ListWritten .toml Item xs ('[' :: body)) (hfuel : 2 * body.length ≤ fuel)
    (hd : depth ≤ d) (rest : List Char) :
    ∃ vs ns, readItemsWith? fuel d (body ++ rest) = some (vs, rest) ∧
      WrittenValue.nodes vs = .ok ns ∧ List.Forall₂ (fun n x => item n = .ok x) ns xs := by
  cases h with
  | @empty gap hgap =>
    rw [List.length_append, List.length_singleton] at hfuel
    obtain ⟨fuel, rfl⟩ : ∃ k, fuel = k + 1 := ⟨fuel - 1, by omega⟩
    refine ⟨[], [], ?_, rfl, .nil⟩
    rw [List.append_assoc, List.singleton_append, readItemsWith?, skipGaps?_gap hgap (by decide)]
    rfl
  | @items xs body hbody =>
    rw [List.length_append, List.length_singleton] at hfuel
    rw [List.append_assoc, List.singleton_append]
    exact readItemsWith?_separated hitem hbody (by omega) hd rest

theorem denotes_list {xs : List α} (h : ListWritten .toml Item xs w) :
    Denotes (depth + 1) (list item) xs w := by
  obtain ⟨body, rfl⟩ := exists_cons_of_enclosed h
  refine ⟨⟨'[', body, rfl, by decide⟩, fun fuel d rest hfuel hd _ => ?_⟩
  rw [List.length_cons] at hfuel
  obtain ⟨fuel, rfl⟩ : ∃ k, fuel = k + 1 := ⟨fuel - 1, by omega⟩
  obtain ⟨d, rfl⟩ : ∃ k, d = k + 1 := ⟨d - 1, by omega⟩
  have hbodyFuel : 2 * body.length ≤ fuel := by omega
  obtain ⟨vs, ns, hread, hnodes, hall⟩ :=
    readItemsWith?_enclosed hitem h hbodyFuel (Nat.le_of_succ_le_succ hd) rest
  let extent : Extent := ⟨'[' :: (body ++ rest), rest⟩
  refine ⟨.list extent vs, .list extent ns, ?_, ?_, Traversal.mapM_eq_ok_iff.mpr hall⟩
  · rw [List.cons_append, readValueWith?, hread]
    rfl
  · rw [WrittenValue.node, hnodes]
    rfl

end List

/-! Members of tables. -/

/-- A member with a single key and a value without faults holds an entry. -/
inductive WrittenMember.Holds : WrittenMember → Entry → Prop
  | mk {key : Key} {v : WrittenValue} {n : Node} :
      v.node = .ok n → Holds (.mk ⟨[], ⟨some key.name, key.extent⟩⟩ v) (.mk key n)

def Entry.name (e : Entry) : String := e.key.name

theorem find?_eq_none_of_notMem {name : String} {entries : Entries}
    (h : name ∉ entries.map Entry.name) : find? name entries = none := by
  rw [find?, Option.map_eq_none_iff, List.find?_eq_none]
  exact fun e he heq => h (List.mem_map.mpr ⟨e, he, of_decide_eq_true heq⟩)

theorem enterMember_new {key : Key} {entries : Entries} (h : key.name ∉ entries.map Entry.name)
    (setting : Setting) (n : Node) :
    enterMember setting [] key n entries = .ok (entries ++ [.mk key n]) := by
  simp [enterMember, updateAt, enter, find?_eq_none_of_notMem h]

theorem keys_single (key : Key) :
    WrittenPath.keys ⟨[], ⟨some key.name, key.extent⟩⟩ = .ok ([], key) := rfl

theorem name_notMem_of_nodup {entries es : Entries} {e : Entry}
    (h : ((entries ++ e :: es).map Entry.name).Nodup) : e.name ∉ entries.map Entry.name := by
  rw [List.map_append, List.map_cons] at h
  exact fun hmem => (List.nodup_append'.mp h).2.2 hmem List.mem_cons_self

private theorem enterAll_of_holds {ms : List WrittenMember} {es : List Entry}
    (h : List.Forall₂ WrittenMember.Holds ms es) {entries : Entries}
    (hnames : ((entries ++ es).map Entry.name).Nodup) :
    WrittenMember.enterAll ms entries = .ok (entries ++ es) := by
  induction h generalizing entries with
  | nil => rw [WrittenMember.enterAll, List.append_nil]
  | @cons m e ms es hm _ ih =>
    obtain ⟨hnode⟩ := hm
    rename_i key v n
    have hnew : key.name ∉ entries.map Entry.name := name_notMem_of_nodup hnames
    rw [WrittenMember.enterAll, WrittenMember.enter, keys_single]
    dsimp only
    rw [hnode]
    dsimp only
    rw [enterMember_new hnew]
    dsimp only
    rw [ih (by rwa [List.append_assoc]), List.append_assoc]
    rfl

variable {Record : Type} {S : Shape Record} {field : (f : S.Field) → Decoder (S.Value f)}

def Entry.Gives (field : (f : S.Field) → Decoder (S.Value f)) (e : Entry) : S.Given → Prop
  | .known f v => S.field? e.name = some f ∧ field f e.value = .ok v
  | .unknown => S.field? e.name = none ∧ e.value.refusal? true = none

private theorem members_of_gives {es : List Entry} {gs : List S.Given}
    (h : List.Forall₂ (Entry.Gives field) es gs) (draft : S.Draft) :
    members S field draft es = .ok (draft.enterAll gs) := by
  induction h generalizing draft with
  | nil => rfl
  | @cons e g es gs he _ ih =>
    have hmember : member S field draft e = .ok (draft.enter g) := by
      obtain ⟨key, n⟩ := e
      cases g with
      | unknown =>
        have hkey : S.field? key.name = none := he.1
        have hpasses : n.refusal? true = none := he.2
        rw [member, hkey]
        dsimp only
        rw [hpasses]
        rfl
      | known f v =>
        have hkey : S.field? key.name = some f := he.1
        have hvalue : field f n = .ok v := he.2
        rw [member, hkey]
        dsimp only
        rw [hvalue]
        rfl
    rw [members, hmember]
    exact ih (draft.enter g)

private theorem insertEntry_perm (e : Entry) (es : Entries) :
    (insertEntry e es).Perm (e :: es) := by
  fun_induction insertEntry e es with
  | case1 => exact .refl _
  | case2 => exact .refl _
  | case3 f rest _ ih => exact (ih.cons f).trans (.swap e f rest)

private theorem sortedEntries_perm (es : Entries) : (sortedEntries es).Perm es := by
  induction es with
  | nil => exact .refl _
  | cons e es ih => exact (insertEntry_perm e _).trans (ih.cons e)

/-- A table whose entries give the fields of a record is decoded as the record, although its entries
are taken in the order of their names. -/
theorem record_of_gives {es : List Entry} {gs : List S.Given} {r : Record}
    (h : List.Forall₂ (Entry.Gives field) es gs) (hdistinct : (fieldsOf gs).Nodup)
    (hcomplete : (S.emptyDraft.enterAll gs).complete = .ok r) (extent : Extent) (origin : Origin) :
    record S field (.table extent origin es) = .ok r := by
  obtain ⟨others, hothers, hperm⟩ := List.perm_comp_forall₂ (sortedEntries_perm es) h
  have hsame : S.emptyDraft.enterAll others = S.emptyDraft.enterAll gs :=
    (Draft.enterAll_perm hperm.symm hdistinct _).symm
  rw [record, members_of_gives hothers, hsame]
  dsimp only
  rw [completed, hcomplete]

theorem record_of_gives_behind {front es : List Entry} {gs : List S.Given} {r : Record}
    (hfront : ∀ e ∈ front, Entry.Gives field e .unknown)
    (h : List.Forall₂ (Entry.Gives field) es gs) (hdistinct : (fieldsOf gs).Nodup)
    (hcomplete : (S.emptyDraft.enterAll gs).complete = .ok r) (extent : Extent) (origin : Origin) :
    record S field (.table extent origin (front ++ es)) = .ok r := by
  have hgiven : List.Forall₂ (Entry.Gives field) front (front.map fun _ => .unknown) :=
    List.forall₂_map_right_iff.mpr (List.forall₂_same.mpr hfront)
  have hunknowns := eq_unknown_of_mem_map (S := S) front
  refine record_of_gives (List.rel_append hgiven h) ?_ ?_ extent origin
  · rwa [fieldsOf_append, fieldsOf_unknown hunknowns]
  · rwa [Draft.enterAll_append, Draft.enterAll_unknown hunknowns]

/-! Reading of tables. -/

abbrev Passes (depth : Nat) : List Char → Prop := Writes depth fun n => n.refusal? true = none

theorem passes_text {s : String} (h : TextWritten .toml s w) : Passes depth w :=
  (writes_text h fun _ => rfl).mono (Nat.zero_le depth) fun _ hn => hn

/-- Written members hold entries with the names of the given members, which give what these do. -/
def Collected (field : (f : S.Field) → Decoder (S.Value f)) (order : List Member)
    (gs : List S.Given) (ms : List WrittenMember) : Prop :=
  ∃ es, List.Forall₂ WrittenMember.Holds ms es ∧ es.map Entry.name = order.map Member.key ∧
    List.Forall₂ (Entry.Gives field) es gs

theorem Collected.cons {m : Member} {order : List Member} {g : S.Given} {gs : List S.Given}
    {key : Key} {v : WrittenValue} {n : Node} {ms : List WrittenMember} (hname : key.name = m.key)
    (hnode : v.node = .ok n) (hgives : Entry.Gives field (.mk key n) g)
    (h : Collected field order gs ms) :
    Collected field (m :: order) (g :: gs)
      (.mk ⟨[], ⟨some key.name, key.extent⟩⟩ v :: ms) := by
  obtain ⟨es, hholds, hnames, hall⟩ := h
  exact ⟨.mk key n :: es, .cons ⟨hnode⟩ hholds, congrArg₂ List.cons hname hnames,
    .cons hgives hall⟩

theorem Collected.entries {order : List Member} {gs : List S.Given} {ms : List WrittenMember}
    {r : Record} (h : Collected field order gs ms) (hkeys : (order.map Member.key).Nodup)
    (hdistinct : (fieldsOf gs).Nodup) (hcomplete : (S.emptyDraft.enterAll gs).complete = .ok r) :
    ∃ es, List.Forall₂ WrittenMember.Holds ms es ∧ (es.map Entry.name).Nodup ∧
      ∀ extent origin, record S field (.table extent origin es) = .ok r := by
  obtain ⟨es, hholds, hnames, hgives⟩ := h
  exact ⟨es, hholds, hnames ▸ hkeys, record_of_gives hgives hdistinct hcomplete⟩

section Member

variable {m : Member} {g : S.Given}
  (hgives : m.Gives (fun f v w => Denotes depth (field f) v w) (Passes depth) g)
include hgives

theorem writes_of_gives {value : List Char} (hvalue : m.Value value) :
    Writes depth (fun n => ∀ extent, Entry.Gives field (.mk ⟨m.key, extent⟩ n) g) value := by
  cases g with
  | known f v => exact (hgives.2 value hvalue).mono (Nat.le_refl depth) fun n hn _ => ⟨hgives.1, hn⟩
  | unknown => exact (hgives.2 value hvalue).mono (Nat.le_refl depth) fun n hn _ => ⟨hgives.1, hn⟩

private theorem readMemberWith?_written (hw : MemberWritten .toml m w) (hfuel : 2 * w.length ≤ fuel)
    (hd : depth ≤ d) (hrest : Ends rest) :
    ∃ key v n, readMemberWith? fuel d (w ++ rest) =
        some (.mk ⟨[], ⟨some key.name, key.extent⟩⟩ v, rest) ∧
      key.name = m.key ∧ v.node = .ok n ∧ Entry.Gives field (.mk key n) g := by
  obtain ⟨key, before, behind, value, hkey, hbefore, hbehind, hvalue, rfl⟩ := hw
  simp only [List.length_append, List.length_cons] at hfuel
  obtain ⟨fuel, rfl⟩ : ∃ k, fuel = k + 1 := ⟨fuel - 1, by omega⟩
  have hwrites := writes_of_gives hgives hvalue
  have hvalueFuel : 2 * value.length ≤ fuel := by omega
  obtain ⟨v, n, hread, hnode, hn⟩ := hwrites.reads fuel d rest hvalueFuel hd hrest
  obtain ⟨c, more, rfl, hc⟩ := hwrites.opens
  have hpathFuel : 0 < fuel := by
    rw [List.length_cons] at hvalueFuel
    omega
  obtain ⟨extent, hpath⟩ := readPath_written hkey hbefore (c := '=') (by decide) hpathFuel
    (behind ++ (c :: more ++ rest))
  refine ⟨⟨m.key, extent⟩, v, n, ?_, rfl, hnode, hn extent⟩
  have hsign := skipGaps?_gap (c := '=') (List.nil_subset (listSpaces .toml)) (by decide)
    (behind ++ (c :: more ++ rest))
  simp only [keySign, List.append_assoc, List.cons_append, List.nil_append] at hpath hsign hread ⊢
  rw [readMemberWith?, hpath, hsign]
  simp only
  rw [skipGaps?_gap (List.Subset.trans hbehind spaces_subset) hc.stops]
  split
  · rename_i heq
    exact absurd ((List.cons.inj (Option.some.inj heq)).1 ▸ hc) (by decide)
  · rename_i heq
    obtain rfl := Option.some.inj heq
    rewrite [hread]
    rfl
  · rename_i heq
    cases heq

end Member

theorem memberWritten_opens {m : Member} (h : MemberWritten .toml m w) :
    ∃ c more, w = c :: more ∧ OpensKey c := by
  obtain ⟨_, _, _, _, hkey, _, _, _, rfl⟩ := h
  obtain ⟨c, more, rfl, hc⟩ := keyWritten_opens hkey
  exact ⟨c, _, rfl, hc⟩

private theorem readMembersWith?_step {m : Member} {g : S.Given}
    (hgives : m.Gives (fun f v w => Denotes depth (field f) v w) (Passes depth) g)
    (hw : MemberWritten .toml m w) {before after : List Char} (hbefore : before ⊆ spaces .toml)
    (hfuel : 2 * w.length ≤ fuel) (hd : depth ≤ d) (hafter : Ends after) :
    ∃ key v n, key.name = m.key ∧ v.node = .ok n ∧ Entry.Gives field (.mk key n) g ∧
      readMembersWith? (fuel + 1) d (before ++ (w ++ after)) =
        match skipGaps? false after with
        | some ('\x7d' :: more) => some ([.mk ⟨[], ⟨some key.name, key.extent⟩⟩ v], more)
        | some (',' :: more) => (readMembersWith? fuel d more).map fun p =>
          (.mk ⟨[], ⟨some key.name, key.extent⟩⟩ v :: p.1, p.2)
        | _ => none := by
  obtain ⟨key, v, n, hread, hname, hnode, hn⟩ :=
    readMemberWith?_written hgives hw hfuel hd hafter
  refine ⟨key, v, n, hname, hnode, hn, ?_⟩
  obtain ⟨c, more, rfl, hc⟩ := memberWritten_opens hw
  rw [List.cons_append] at hread ⊢
  rw [readMembersWith?, skipGaps?_gap (List.Subset.trans hbefore spaces_subset) hc.stops]
  split
  · rename_i heq
    exact absurd ((List.cons.inj (Option.some.inj heq)).1 ▸ hc) (by decide)
  · rename_i heq
    obtain rfl := Option.some.inj heq
    rewrite [hread]
    rfl
  · rename_i heq
    cases heq

private theorem readMembersWith?_separated {order : List Member} {gs : List S.Given}
    {body : List Char}
    (h : Separated (spaces .toml) (MemberWritten .toml) order body)
    (hgives : List.Forall₂
      (Member.Gives (fun f v w => Denotes depth (field f) v w) (Passes depth)) order gs)
    (hfuel : 2 * body.length < fuel) (hd : depth ≤ d) (rest : List Char) :
    ∃ ms, readMembersWith? fuel d (body ++ '\x7d' :: rest) = some (ms, rest) ∧
      Collected field order gs ms := by
  induction h generalizing fuel gs with
  | @last m before w behind hbefore hw hbehind =>
    obtain ⟨g, _, hg, hnil, rfl⟩ := List.forall₂_cons_left_iff.mp hgives
    cases hnil
    simp only [List.length_append] at hfuel
    obtain ⟨fuel, rfl⟩ : ∃ k, fuel = k + 1 := ⟨fuel - 1, by omega⟩
    have hmemberFuel : 2 * w.length ≤ fuel := by omega
    have hgap := List.Subset.trans hbehind spaces_subset
    obtain ⟨key, v, n, hname, hnode, hn, hread⟩ := readMembersWith?_step hg hw hbefore hmemberFuel
      hd (ends_of_listSpaces hgap (c := '\x7d') (by decide) rest)
    refine ⟨_, ?_, .cons hname hnode hn ⟨[], .nil, rfl, .nil⟩⟩
    simp only [List.append_assoc]
    rw [hread, skipGaps?_gap hgap (by decide)]
    rfl
  | @more m order before w behind body hbefore hw hbehind _ ih =>
    obtain ⟨g, gs, hg, hgs, rfl⟩ := List.forall₂_cons_left_iff.mp hgives
    simp only [List.length_append, List.length_cons] at hfuel
    obtain ⟨fuel, rfl⟩ : ∃ k, fuel = k + 1 := ⟨fuel - 1, by omega⟩
    have hmemberFuel : 2 * w.length ≤ fuel := by omega
    have hbodyFuel : 2 * body.length < fuel := by omega
    have hgap := List.Subset.trans hbehind spaces_subset
    obtain ⟨key, v, n, hname, hnode, hn, hread⟩ := readMembersWith?_step hg hw hbefore hmemberFuel
      hd (ends_of_listSpaces hgap (c := ',') (by decide) (body ++ '\x7d' :: rest))
    obtain ⟨ms, hrest, hcollected⟩ := ih hgs hbodyFuel
    refine ⟨_, ?_, .cons hname hnode hn hcollected⟩
    simp only [List.append_assoc, List.cons_append]
    rw [hread, skipGaps?_gap hgap (by decide)]
    simp [hrest]

private theorem readMembersWith?_enclosed {order : List Member} {gs : List S.Given}
    {body : List Char}
    (h : TableWritten .toml order ('\x7b' :: body))
    (hgives : List.Forall₂
      (Member.Gives (fun f v w => Denotes depth (field f) v w) (Passes depth)) order gs)
    (hfuel : 2 * body.length ≤ fuel) (hd : depth ≤ d) (rest : List Char) :
    ∃ ms, readMembersWith? fuel d (body ++ rest) = some (ms, rest) ∧
      Collected field order gs ms := by
  cases h with
  | @empty gap hgap =>
    cases hgives
    rw [List.length_append, List.length_singleton] at hfuel
    obtain ⟨fuel, rfl⟩ : ∃ k, fuel = k + 1 := ⟨fuel - 1, by omega⟩
    refine ⟨[], ?_, [], .nil, rfl, .nil⟩
    rw [List.append_assoc, List.singleton_append, readMembersWith?,
      skipGaps?_gap (List.Subset.trans hgap spaces_subset) (by decide)]
    rfl
  | @items order body hbody =>
    rw [List.length_append, List.length_singleton] at hfuel
    rw [List.append_assoc, List.singleton_append]
    exact readMembersWith?_separated hbody hgives (by omega) hd rest

private theorem denotes_record {order : List Member} {gs : List S.Given} {r : Record}
    (h : TableWritten .toml order w) (hkeys : (order.map Member.key).Nodup)
    (hgives : List.Forall₂
      (Member.Gives (fun f v w => Denotes depth (field f) v w) (Passes depth)) order gs)
    (hdistinct : (fieldsOf gs).Nodup) (hcomplete : (S.emptyDraft.enterAll gs).complete = .ok r) :
    Denotes (depth + 1) (record S field) r w := by
  obtain ⟨body, rfl⟩ := exists_cons_of_enclosed h
  refine ⟨⟨'\x7b', body, rfl, by decide⟩, fun fuel d rest hfuel hd _ => ?_⟩
  rw [List.length_cons] at hfuel
  obtain ⟨fuel, rfl⟩ : ∃ k, fuel = k + 1 := ⟨fuel - 1, by omega⟩
  obtain ⟨d, rfl⟩ : ∃ k, d = k + 1 := ⟨d - 1, by omega⟩
  have hbodyFuel : 2 * body.length ≤ fuel := by omega
  obtain ⟨ms, hread, hcollected⟩ :=
    readMembersWith?_enclosed h hgives hbodyFuel (Nat.le_of_succ_le_succ hd) rest
  obtain ⟨es, hholds, hnames, hrecord⟩ := hcollected.entries hkeys hdistinct hcomplete
  let extent : Extent := ⟨'\x7b' :: (body ++ rest), rest⟩
  refine ⟨.table extent ms, .table extent .braced es, ?_, ?_, hrecord extent .braced⟩
  · rw [List.cons_append, readValueWith?, hread]
    rfl
  · have henter : WrittenMember.enterAll ms [] = .ok es := enterAll_of_holds hholds hnames
    rw [WrittenValue.node, henter]
    rfl

/-- A table whose members are those of a record, in any order and among others, is decoded as it. -/
theorem denotes_of_give {Record : Type} {S : Shape Record}
    {field : (f : S.Field) → Decoder (S.Value f)} {known : List String} {own order : List Member}
    {r : Record} (hordered : Ordered .toml known own order) (hknown : known = S.fields.map S.key)
    (hgive : Give S (fun f v w => Denotes depth (field f) v w) (Passes depth) own r)
    (hw : TableWritten .toml order w) : Denotes (depth + 1) (record S field) r w := by
  obtain ⟨hkeys, gs, hgives, hdistinct, hcomplete⟩ :=
    hordered.exists_complete hknown hgive fun _ _ => passes_text
  exact denotes_record hw hkeys hgives hdistinct hcomplete

end NativeBindings.Toml
