import NativeBindings.Proofs.Json.Scalars
import NativeBindings.Proofs.Listing.Drafts

set_option autoImplicit false
set_option relaxedAutoImplicit false

/-!
Written lists and objects are read part by part. Main statements: a list of written items is read as
their list, and an object whose members give the fields of a record as the record.
-/

namespace NativeBindings.Json

open Writing Shape

/-- What stands in front of the white space before a part: nothing before the first part, white
space and a comma before a later one. -/
inductive Front : Bool → List Char → Prop
  | first : Front true []
  | later {gap : List Char} : gap ⊆ spaces .json → Front false (gap ++ [','])

variable {w rest gap front before : List Char} {first : Bool}

private theorem skipSpace_gap (hgap : gap ⊆ spaces .json) {c : Char} (hc : isSpace c = false)
    (rest : List Char) : skipSpace (gap ++ c :: rest) = c :: rest := by
  rw [skipSpace_append hgap, skipSpace_cons hc]

private theorem nextItem_close (use : Use) (first : Bool) (hgap : gap ⊆ spaces .json)
    (rest : List Char) :
    nextItem use first (gap ++ ']' :: rest) = .ok none := by
  rw [nextItem, skipSpace_gap hgap (by decide)]
  rfl

private theorem nextKey_close (use : Use) (first : Bool) (hgap : gap ⊆ spaces .json)
    (rest : List Char) :
    nextKey use first (gap ++ '\x7d' :: rest) = .ok none := by
  rw [nextKey, skipSpace_gap hgap (by decide)]
  rfl

private theorem closeList_gap (hgap : gap ⊆ spaces .json) (rest : List Char) :
    closeList (gap ++ ']' :: rest) = .ok rest := by
  rw [closeList, skipSpace_gap hgap (by decide)]
  rfl

private theorem closeObject_gap (hgap : gap ⊆ spaces .json) (rest : List Char) :
    closeObject (gap ++ '\x7d' :: rest) = .ok rest := by
  rw [closeObject, skipSpace_gap hgap (by decide)]
  rfl

private theorem takeColon_gap (hgap : gap ⊆ spaces .json) (rest : List Char) :
    takeColon (gap ++ ':' :: rest) = .ok rest := by
  rw [takeColon, skipSpace_gap hgap (by decide)]
  rfl

private theorem nextItem_front (hfront : Front first front) (hbefore : before ⊆ spaces .json)
    {c : Char}
    (hc : Opens c) (more : List Char) :
    nextItem .looked first (front ++ (before ++ c :: more)) = .ok (some (c :: more)) := by
  have hclose : c ≠ ']' := by
    rintro rfl
    exact hc.2 (by decide)
  cases hfront with
  | first =>
    rw [List.nil_append, nextItem, skipSpace_gap hbefore hc.1]
    simp [hclose]
  | later hgap =>
    rw [List.append_assoc, List.singleton_append, nextItem, skipSpace_gap hgap (by decide)]
    simp [skipSpace_gap hbefore hc.1, hclose]

private theorem nextKey_front (hfront : Front first front) (hbefore : before ⊆ spaces .json)
    (more : List Char) :
    nextKey .looked first (front ++ (before ++ '"' :: more)) = .ok (some more) := by
  have hquote : isSpace '"' = false := by decide
  cases hfront with
  | first =>
    rw [List.nil_append, nextKey, skipSpace_gap hbefore hquote]
    rfl
  | later hgap =>
    rw [List.append_assoc, List.singleton_append, nextKey, skipSpace_gap hgap (by decide)]
    simp [skipSpace_gap hbefore hquote]

private theorem length_le_of_separated {α : Type} {gaps : List Char} {Item : α → List Char → Prop}
    {xs : List α} {body : List Char} (h : Separated gaps Item xs body) :
    xs.length ≤ body.length + 1 := by
  induction h with
  | last => simp
  | more _ _ _ _ ih =>
    simp only [List.length_cons, List.length_append]
    omega

/-! Lists. -/

section List

variable {α : Type} {item : Reader α} {Item : α → List Char → Prop}
  (hitem : ∀ x w, Item x w → Reads item x w)
include hitem

private theorem itemsWith_step {x : α} (hw : Item x w) (hfront : Front first front)
    (hbefore : before ⊆ spaces .json) {after : List Char} (hafter : Ends after) (fuel : Nat) :
    itemsWith item (fuel + 1) first (front ++ (before ++ (w ++ after))) =
      (itemsWith item fuel false after).map fun p => (x :: p.1, p.2) := by
  have hread := hitem x w hw
  have hvalue := hread.reads _ after (hread.skipSpace_append after) hafter
  obtain ⟨c, more, rfl, hc⟩ := hread.opens
  rw [List.cons_append] at hvalue
  rw [itemsWith, List.cons_append, nextItem_front hfront hbefore hc]
  dsimp only
  rw [hvalue]

private theorem itemsWith_separated {xs : List α} {body : List Char}
    (h : Separated (spaces .json) Item xs body) {fuel : Nat} (hfuel : xs.length < fuel)
    (hfront : Front first front) (rest : List Char) :
    ∃ gap, gap ⊆ spaces .json ∧
      itemsWith item fuel first (front ++ (body ++ ']' :: rest)) =
        .ok (xs, gap ++ ']' :: rest) := by
  induction h generalizing fuel first front with
  | @last x before w behind hbefore hw hbehind =>
    obtain ⟨fuel, rfl⟩ := Nat.exists_eq_add_of_lt hfuel
    refine ⟨behind, hbehind, ?_⟩
    have hafter : Ends (behind ++ ']' :: rest) := ends_append hbehind (by decide) rest
    simp only [List.append_assoc]
    rw [itemsWith_step hitem hw hfront hbefore hafter, List.length_singleton, Nat.add_comm 1,
      itemsWith, nextItem_close .looked false hbehind]
    rfl
  | @more x xs before w behind body hbefore hw hbehind _ ih =>
    obtain ⟨fuel, rfl⟩ := Nat.exists_eq_add_of_lt hfuel
    have hafter : Ends (behind ++ ',' :: (body ++ ']' :: rest)) :=
      ends_append hbehind (by decide) _
    have hshorter : xs.length < (x :: xs).length + fuel := by
      rw [List.length_cons]
      omega
    obtain ⟨gap, hgap, hrest⟩ := ih hshorter (.later hbehind)
    refine ⟨gap, hgap, ?_⟩
    simp only [List.append_assoc, List.nil_append, List.cons_append] at hrest ⊢
    rw [itemsWith_step hitem hw hfront hbefore hafter, hrest]
    rfl

theorem reads_list {xs : List α} (h : ListWritten .json Item xs w) : Reads (list item) xs w := by
  cases h with
  | @empty gap hgap =>
    refine ⟨⟨'[', _, rfl, by decide⟩, fun cs rest hcs _ => ?_⟩
    rw [list, hcs]
    simp [inList, itemsWith, nextItem_close .looked true hgap, closeList_gap hgap, Except.map]
  | @items xs body hbody =>
    refine ⟨⟨'[', _, rfl, by decide⟩, fun cs rest hcs _ => ?_⟩
    have hlength := length_le_of_separated hbody
    have hfuel : xs.length < (body ++ ']' :: rest).length + 1 := by
      rw [List.length_append, List.length_cons]
      omega
    obtain ⟨gap, hgap, hread⟩ := itemsWith_separated hitem hbody hfuel .first rest
    rw [list, hcs]
    simp_all [inList, closeList_gap hgap, Except.map]

end List

/-! Objects. -/

/-- A value that can be passed over where it is not looked at. -/
def Passes (w : List Char) : Prop :=
  ∀ cs rest, skipSpace cs = skipSpace (w ++ rest) → skipValue .ignored 0 cs = .ok rest

theorem passes_text {s : String} (h : TextWritten .json s w) : Passes w := by
  intro cs rest hcs
  rw [(reads_text h).skipSpace_append] at hcs
  obtain ⟨pieces, hpieces, rfl⟩ := h
  rw [skipValue, skipValueWith, hcs]
  simpa [skipStringFor] using skipString_pieces hpieces rest

variable {Record : Type} {S : Shape Record} {field : (f : S.Field) → Reader (S.Value f)}

section Member

variable {m : Member} {g : S.Given}
  (hgives : m.Gives (fun f v w => Reads (field f) v w) Passes g)
  {draft : S.Draft} (hnew : ∀ f ∈ g.field?, draft f = none)
include hgives hnew

private theorem member_of_gives {behind value after : List Char} (hvalue : m.Value value)
    (hbefore : before ⊆ spaces .json) (hbehind : behind ⊆ spaces .json) (hafter : Ends after) :
    member S field draft m.key (before ++ ':' :: (behind ++ (value ++ after))) =
      .ok (draft.enter g, after) := by
  have hspace := skipSpace_append hbehind (value ++ after)
  cases g with
  | unknown =>
    obtain ⟨hkey, hpasses⟩ := hgives
    rw [member, hkey]
    simp [takeColon_gap hbefore, hpasses value hvalue _ after hspace, Except.map, Draft.enter]
  | known f v =>
    obtain ⟨hkey, hreads⟩ := hgives
    have hread := hreads value hvalue
    have hfresh : draft f = none := hnew f rfl
    rw [hread.skipSpace_append] at hspace
    rw [member, hkey]
    simp [hfresh, takeColon_gap hbefore, hread.reads _ after hspace hafter, Except.map, Draft.enter]

private theorem membersWith_step (hw : MemberWritten .json m w) (hfront : Front first front)
    (hbefore : before ⊆ spaces .json) {after : List Char} (hafter : Ends after) (fuel : Nat) :
    membersWith S field (fuel + 1) first draft (front ++ (before ++ (w ++ after))) =
      membersWith S field fuel false (draft.enter g) after := by
  obtain ⟨key, gap, behind, value, hkey, hgap, hbehind, hvalue, rfl⟩ := hw
  rcases hkey with ⟨pieces, hpieces, rfl⟩ | ⟨hformat, -⟩
  · have hread := readString_pieces hpieces (gap ++ ':' :: (behind ++ (value ++ after)))
    have hmember := member_of_gives hgives hnew hvalue hgap hbehind hafter
    simp only [keySign, List.append_assoc, List.cons_append, List.nil_append]
    rw [membersWith, nextKey_front hfront hbefore]
    dsimp only
    rw [hread]
    dsimp only
    rw [String.ofList_toList, hmember]
  · cases hformat

end Member

private theorem membersWith_separated {order : List Member} {gs : List S.Given} {body : List Char}
    (h : Separated (spaces .json) (MemberWritten .json) order body)
    (hgives : List.Forall₂ (Member.Gives (fun f v w => Reads (field f) v w) Passes) order gs)
    {draft : S.Draft} (hfresh : Fresh draft gs) {fuel : Nat} (hfuel : order.length < fuel)
    (hfront : Front first front) (rest : List Char) :
    ∃ gap, gap ⊆ spaces .json ∧
      membersWith S field fuel first draft (front ++ (body ++ '}' :: rest)) =
        .ok (draft.enterAll gs, gap ++ '}' :: rest) := by
  induction h generalizing fuel first front draft gs with
  | @last m before w behind hbefore hw hbehind =>
    obtain ⟨fuel, rfl⟩ := Nat.exists_eq_add_of_lt hfuel
    obtain ⟨g, _, hg, hnil, rfl⟩ := List.forall₂_cons_left_iff.mp hgives
    cases hnil
    have hafter : Ends (behind ++ '}' :: rest) := ends_append hbehind (by decide) rest
    refine ⟨behind, hbehind, ?_⟩
    simp only [List.append_assoc]
    rw [membersWith_step hg hfresh.head hw hfront hbefore hafter, List.length_singleton,
      Nat.add_comm 1, membersWith, nextKey_close .looked false hbehind]
    rfl
  | @more m ms before w behind body hbefore hw hbehind _ ih =>
    obtain ⟨fuel, rfl⟩ := Nat.exists_eq_add_of_lt hfuel
    obtain ⟨g, gs, hg, hgs, rfl⟩ := List.forall₂_cons_left_iff.mp hgives
    have hafter : Ends (behind ++ ',' :: (body ++ '}' :: rest)) :=
      ends_append hbehind (by decide) _
    have hshorter : ms.length < (m :: ms).length + fuel := by
      rw [List.length_cons]
      omega
    obtain ⟨gap, hgap, hread⟩ := ih hgs hfresh.tail hshorter (.later hbehind)
    refine ⟨gap, hgap, ?_⟩
    simp only [List.append_assoc, List.nil_append, List.cons_append] at hread ⊢
    rw [membersWith_step hg hfresh.head hw hfront hbefore hafter, hread]
    rfl

theorem reads_record {order : List Member} {gs : List S.Given} {r : Record}
    (h : TableWritten .json order w)
    (hgives : List.Forall₂ (Member.Gives (fun f v w => Reads (field f) v w) Passes) order gs)
    (hdistinct : (fieldsOf gs).Nodup) (hcomplete : (S.emptyDraft.enterAll gs).complete = .ok r) :
    Reads (record S field) r w := by
  cases h with
  | @empty gap hgap =>
    cases hgives
    refine ⟨⟨'{', _, rfl, by decide⟩, fun cs rest hcs _ => ?_⟩
    have hempty : S.emptyDraft.complete = .ok r := hcomplete
    rw [record, hcs]
    simp [inObject, completed, membersWith, nextKey_close .looked true hgap, hempty,
      closeObject_gap hgap, Except.map]
  | @items order body hbody =>
    refine ⟨⟨'{', _, rfl, by decide⟩, fun cs rest hcs _ => ?_⟩
    have hlength := length_le_of_separated hbody
    have hfuel : order.length < (body ++ '\x7d' :: rest).length + 1 := by
      rw [List.length_append, List.length_cons]
      omega
    obtain ⟨gap, hgap, hread⟩ :=
      membersWith_separated hbody hgives (.empty hdistinct) hfuel .first rest
    rw [record, hcs]
    simp_all [inObject, completed, closeObject_gap hgap, Except.map]

end NativeBindings.Json
