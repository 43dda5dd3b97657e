import Mathlib.Data.List.Nodup
import Mathlib.Data.List.Perm.Basic
import NativeBindings.Proofs.Listing.Writing

set_option autoImplicit false
set_option relaxedAutoImplicit false

/-!
Drafts of records by what the members of a table give. Main statement: the order of the members does
not matter, and members with unknown names give nothing.
-/

namespace NativeBindings

namespace Shape

variable {Record : Type} {S : Shape Record}

inductive Given (S : Shape Record) where
  | known (f : S.Field) (v : S.Value f)
  | unknown

def Given.field? : S.Given → Option S.Field
  | .known f _ => some f
  | .unknown => none

def Draft.enter (d : S.Draft) : S.Given → S.Draft
  | .known f v => d.set f v
  | .unknown => d

def Draft.enterAll (d : S.Draft) (gs : List S.Given) : S.Draft := gs.foldl Draft.enter d

def fieldsOf (gs : List S.Given) : List S.Field := gs.filterMap Given.field?

private theorem Draft.enterAll_of_notMem {f : S.Field} {gs : List S.Given} (h : f ∉ fieldsOf gs)
    (d : S.Draft) : d.enterAll gs f = d f := by
  induction gs generalizing d with
  | nil => rfl
  | cons g rest ih =>
    cases g with
    | unknown => exact ih h d
    | known e v =>
      have hne : f ≠ e ∧ f ∉ fieldsOf rest := by simpa [fieldsOf, Given.field?] using h
      exact (ih hne.2 _).trans (d.set_of_ne v hne.1.symm)

private theorem Draft.enterAll_of_mem {f : S.Field} {v : S.Value f} {gs : List S.Given}
    (hdistinct : (fieldsOf gs).Nodup) (h : .known f v ∈ gs) (d : S.Draft) :
    d.enterAll gs f = some v := by
  induction gs generalizing d with
  | nil => simp at h
  | cons g rest ih =>
    rcases List.mem_cons.mp h with rfl | hlater
    · have hrest : f ∉ fieldsOf rest := (List.nodup_cons.mp hdistinct).1
      exact (enterAll_of_notMem hrest _).trans (d.set_same f v)
    · cases g with
      | unknown => exact ih hdistinct hlater d
      | known e w => exact ih (List.nodup_cons.mp hdistinct).2 hlater _

theorem Draft.enterAll_perm {gs others : List S.Given} (h : gs.Perm others)
    (hdistinct : (fieldsOf gs).Nodup) (d : S.Draft) : d.enterAll gs = d.enterAll others := by
  have hfields : (fieldsOf gs).Perm (fieldsOf others) := h.filterMap _
  have hothers : (fieldsOf others).Nodup := hfields.nodup_iff.mp hdistinct
  funext f
  by_cases hf : f ∈ fieldsOf gs
  · obtain ⟨g, hg, hfield⟩ := List.mem_filterMap.mp hf
    cases g with
    | unknown => cases hfield
    | known e v =>
      obtain rfl := Option.some.inj hfield
      rw [enterAll_of_mem hdistinct hg, enterAll_of_mem hothers (h.mem_iff.mp hg)]
  · rw [enterAll_of_notMem hf, enterAll_of_notMem fun hother => hf (hfields.mem_iff.mpr hother)]

theorem Draft.enterAll_unknown {gs : List S.Given} (h : ∀ g ∈ gs, g = .unknown) (d : S.Draft) :
    d.enterAll gs = d := by
  induction gs with
  | nil => rfl
  | cons g rest ih =>
    obtain ⟨rfl, hrest⟩ := List.forall_mem_cons.mp h
    exact ih hrest

theorem Draft.enterAll_append (gs others : List S.Given) (d : S.Draft) :
    d.enterAll (gs ++ others) = (d.enterAll gs).enterAll others :=
  List.foldl_append

theorem fieldsOf_unknown {gs : List S.Given} (h : ∀ g ∈ gs, g = .unknown) : fieldsOf gs = [] := by
  refine List.filterMap_eq_nil_iff.mpr fun g hg => ?_
  rw [h g hg]
  rfl

theorem eq_unknown_of_mem_map {α : Type} (xs : List α) :
    ∀ g ∈ xs.map fun _ => (.unknown : S.Given), g = .unknown := by
  intro g hg
  obtain ⟨-, -, rfl⟩ := List.mem_map.mp hg
  rfl

theorem fieldsOf_append (gs others : List S.Given) :
    fieldsOf (gs ++ others) = fieldsOf gs ++ fieldsOf others :=
  List.filterMap_append

/-- Members give different fields, none of which has been read. -/
structure Fresh (d : S.Draft) (gs : List S.Given) : Prop where
  nodup : (fieldsOf gs).Nodup
  unread : ∀ f ∈ fieldsOf gs, d f = none

theorem Fresh.empty {gs : List S.Given} (h : (fieldsOf gs).Nodup) : Fresh S.emptyDraft gs :=
  ⟨h, fun _ _ => rfl⟩

variable {d : S.Draft} {g : S.Given} {gs : List S.Given}

private theorem fieldsOf_cons (g : S.Given) (gs : List S.Given) :
    fieldsOf (g :: gs) = g.field?.toList ++ fieldsOf gs := by
  cases g <;> rfl

theorem Fresh.head (h : Fresh d (g :: gs)) : ∀ f ∈ g.field?, d f = none := by
  intro f hf
  apply h.unread
  rw [fieldsOf_cons]
  exact List.mem_append_left _ (Option.mem_toList.mpr hf)

theorem Fresh.tail (h : Fresh d (g :: gs)) : Fresh (d.enter g) gs := by
  obtain ⟨hnodup, hunread⟩ := h
  cases g with
  | unknown => exact ⟨hnodup, hunread⟩
  | known e v =>
    obtain ⟨hnot, hrest⟩ := List.nodup_cons.mp hnodup
    refine ⟨hrest, fun f hf => ?_⟩
    have hne : e ≠ f := by
      rintro rfl
      exact hnot hf
    rw [Draft.enter, d.set_of_ne v hne]
    exact hunread f (List.mem_cons_of_mem e hf)

end Shape

namespace Writing

variable {Record : Type} {S : Shape Record} {f : Format}
  {Reads : (f : S.Field) → S.Value f → List Char → Prop} {Passes : List Char → Prop}

/-- A member gives a field or nothing: its name is that of the field, or unknown, and each way to
write its value is one to write the value of the field, or one that can be passed over. -/
def Member.Gives (Reads : (f : S.Field) → S.Value f → List Char → Prop)
    (Passes : List Char → Prop) (m : Member) : S.Given → Prop
  | .known f v => S.field? m.key = some f ∧ ∀ w, m.Value w → Reads f v w
  | .unknown => S.field? m.key = none ∧ ∀ w, m.Value w → Passes w

abbrev Fields (S : Shape Record) : Type := List ((f : S.Field) × S.Value f)

def Fields.given (values : Fields S) : List S.Given := values.map fun p => .known p.1 p.2

private theorem fieldsOf_given (values : Fields S) :
    Shape.fieldsOf (Fields.given values) = values.map Sigma.fst := by
  induction values with
  | nil => rfl
  | cons p rest ih => exact congrArg (p.1 :: ·) ih

theorem field?_eq_none_iff {key : String} :
    S.field? key = none ↔ key ∉ S.fields.map S.key := by
  simp [Shape.field?, List.find?_eq_none]

def Give (S : Shape Record) (Reads : (f : S.Field) → S.Value f → List Char → Prop)
    (Passes : List Char → Prop) (own : List Member) (r : Record) : Prop :=
  ∃ values : Fields S, List.Forall₂ (Member.Gives Reads Passes) own values.given ∧
    (values.map Sigma.fst).Nodup ∧ (S.emptyDraft.enterAll values.given).complete = .ok r

section Ordered

variable {known : List String} {own order : List Member} {values : Fields S}
  (hordered : Ordered f known own order) (hknown : known = S.fields.map S.key)
  (hown : List.Forall₂ (Member.Gives Reads Passes) own values.given)
  (hdistinct : (values.map Sigma.fst).Nodup)
include hordered hknown hown hdistinct

private theorem Ordered.exists_given (hpasses : ∀ s w, TextWritten f s w → Passes w) :
    ∃ gs, List.Forall₂ (Member.Gives Reads Passes) order gs ∧ (Shape.fieldsOf gs).Nodup ∧
      S.emptyDraft.enterAll gs = S.emptyDraft.enterAll values.given := by
  obtain ⟨extras, -, hunknown, hperm⟩ := hordered
  have hextras : List.Forall₂ (Member.Gives Reads Passes)
      (extras.map fun e => ⟨e.1, TextWritten f e.2⟩) (extras.map fun _ => .unknown) := by
    rw [List.forall₂_map_left_iff, List.forall₂_map_right_iff, List.forall₂_same]
    exact fun e he =>
      ⟨field?_eq_none_iff.mpr (hknown ▸ hunknown e he), fun w => hpasses e.2 w⟩
  obtain ⟨gs, hgives, hgs⟩ := List.perm_comp_forall₂ hperm (List.rel_append hown hextras)
  have hunknowns := Shape.eq_unknown_of_mem_map (S := S) extras
  have hnodup : (Shape.fieldsOf gs).Nodup := by
    refine (hgs.filterMap Shape.Given.field?).nodup_iff.mpr ?_
    rw [← Shape.fieldsOf, Shape.fieldsOf_append, Shape.fieldsOf_unknown hunknowns, fieldsOf_given,
      List.append_nil]
    exact hdistinct
  refine ⟨gs, hgives, hnodup, ?_⟩
  rw [Shape.Draft.enterAll_perm hgs hnodup, Shape.Draft.enterAll_append,
    Shape.Draft.enterAll_unknown hunknowns]

private theorem Ordered.nodup_keys : (order.map Member.key).Nodup := by
  obtain ⟨extras, hextras, hunknown, hperm⟩ := hordered
  have hfields : own.map (fun m => S.field? m.key) = values.map fun p => some p.1 := by
    rw [Fields.given, List.forall₂_map_right_iff] at hown
    rw [← List.forall₂_eq_eq_eq, List.forall₂_map_left_iff, List.forall₂_map_right_iff]
    exact hown.imp fun _ _ hgives => hgives.1
  have hnodup : (own.map fun m => S.field? m.key).Nodup := by
    rw [hfields]
    have hinjective : Function.Injective (some : S.Field → Option S.Field) :=
      fun _ _ => Option.some.inj
    have hsome := hdistinct.map hinjective
    rwa [List.map_map] at hsome
  have hfound : ∀ m ∈ own, m.key ∈ known := by
    intro m hm
    have hfield : S.field? m.key ∈ values.map fun p => some p.1 := by
      rw [← hfields]
      exact List.mem_map_of_mem hm
    obtain ⟨p, -, hp⟩ := List.mem_map.mp hfield
    by_contra hnot
    rw [field?_eq_none_iff.mpr (hknown ▸ hnot)] at hp
    cases hp
  have hkeys : (order.map Member.key).Perm (own.map Member.key ++ extras.map Prod.fst) := by
    have hmap := hperm.map Member.key
    rwa [List.map_append, List.map_map] at hmap
  rw [hkeys.nodup_iff, List.nodup_append']
  refine ⟨List.Nodup.of_map S.field? (by rwa [List.map_map]), hextras, ?_⟩
  intro key hkey hextra
  obtain ⟨m, hm, rfl⟩ := List.mem_map.mp hkey
  obtain ⟨e, he, hname⟩ := List.mem_map.mp hextra
  exact hunknown e he (hname ▸ hfound m hm)

end Ordered

/-- The members of a record have different names, and give its fields in whatever order they stand.
-/
theorem Ordered.exists_complete {known : List String} {own order : List Member} {r : Record}
    (hordered : Ordered f known own order) (hknown : known = S.fields.map S.key)
    (hgive : Give S Reads Passes own r) (hpasses : ∀ s w, TextWritten f s w → Passes w) :
    (order.map Member.key).Nodup ∧
      ∃ gs, List.Forall₂ (Member.Gives Reads Passes) order gs ∧ (Shape.fieldsOf gs).Nodup ∧
        (S.emptyDraft.enterAll gs).complete = .ok r := by
  obtain ⟨values, hown, hdistinct, hcomplete⟩ := hgive
  obtain ⟨gs, hgives, hnodup, hsame⟩ := hordered.exists_given hknown hown hdistinct hpasses
  exact ⟨hordered.nodup_keys hknown hown hdistinct, gs, hgives, hnodup, hsame ▸ hcomplete⟩

/-! The three records of a specification. -/

theorem give_argument {Reads : (f : ListedArgument.Field) → ListedArgument.shape.Value f →
      List Char → Prop} (a : ListedArgument)
    (hname : ∀ w, TextWritten f a.name w → Reads .name a.name w)
    (htype : ∀ w, TextWritten f a.type w → Reads .type a.type w)
    (hdefault : ∀ v w, DefaultWritten f v w → Reads .defaultValue (some v) w) :
    Give ListedArgument.shape Reads Passes (argumentMembers f a) a := by
  obtain ⟨name, type, defaultValue⟩ := a
  have hnames : [ListedArgument.Field.name, .type, .defaultValue].Nodup := by decide
  cases defaultValue with
  | none =>
    exact ⟨[⟨.name, name⟩, ⟨.type, type⟩], .cons ⟨rfl, hname⟩ (.cons ⟨rfl, htype⟩ .nil),
      hnames.sublist (List.sublist_append_left _ _), rfl⟩
  | some v =>
    exact ⟨[⟨.name, name⟩, ⟨.type, type⟩, ⟨.defaultValue, some v⟩],
      .cons ⟨rfl, hname⟩ (.cons ⟨rfl, htype⟩ (.cons ⟨rfl, hdefault v⟩ .nil)), hnames, rfl⟩

theorem give_returned {Reads : (f : ListedReturn.Field) → ListedReturn.shape.Value f →
      List Char → Prop} (r : ListedReturn)
    (hname : ∀ s w, TextWritten f s w → Reads .name (some s) w)
    (htype : ∀ w, TextWritten f r.type w → Reads .type r.type w) :
    Give ListedReturn.shape Reads Passes (returnMembers f r) r := by
  obtain ⟨name, type⟩ := r
  have hnames : [ListedReturn.Field.name, .type].Nodup := by decide
  cases name with
  | none => exact ⟨[⟨.type, type⟩], .cons ⟨rfl, htype⟩ .nil, hnames.of_cons, rfl⟩
  | some s =>
    exact ⟨[⟨.name, some s⟩, ⟨.type, type⟩], .cons ⟨rfl, hname s⟩ (.cons ⟨rfl, htype⟩ .nil),
      hnames, rfl⟩

private theorem Fields.given_append (values others : Fields S) :
    Fields.given (values ++ others) = values.given ++ others.given :=
  List.map_append

private theorem gives_option {α : Type} {member : α → Member}
    {value : α → (f : S.Field) × S.Value f}
    (h : ∀ x, (member x).Gives Reads Passes (.known (value x).1 (value x).2)) (o : Option α) :
    List.Forall₂ (Member.Gives Reads Passes) (o.toList.map member)
      (Fields.given (o.toList.map value)) := by
  cases o with
  | none => exact .nil
  | some x => exact .cons (h x) .nil

private theorem exists_listValue (Passes : List Char → Prop) {α : Type} {key : String}
    {Item : α → List Char → Prop} {xs : List α} {ms : List Member}
    (h : ListMember f key Item xs ms) {e : S.Field} {v : S.Value e}
    (hfield : S.field? key = some e) (hreads : ∀ w, ListWritten f Item xs w → Reads e v w) :
    ∃ values : Fields S, List.Forall₂ (Member.Gives Reads Passes) ms values.given ∧
      (values = [⟨e, v⟩] ∨ xs = [] ∧ values = []) := by
  rcases h with rfl | ⟨hempty, rfl⟩
  · exact ⟨[⟨e, v⟩], .cons ⟨hfield, hreads⟩ .nil, .inl rfl⟩
  · exact ⟨[], .nil, .inr ⟨hempty, rfl⟩⟩

section Listing

variable {Reads : (f : Listing.Field) → Listing.shape.Value f → List Char → Prop} {l : Listing}

def scalarValues (l : Listing) : Fields Listing.shape :=
  [⟨.name, l.name⟩, ⟨.mode, l.mode⟩] ++
    (l.overloadName.toList.map (fun name => ⟨.overloadName, some name⟩) ++
      l.isFactoryMethod.toList.map fun b => ⟨.isFactoryMethod, some b⟩)

theorem gives_scalars (hname : ∀ w, TextWritten f l.name w → Reads .name l.name w)
    (hmode : ∀ w, TextWritten f l.mode.word w → Reads .mode l.mode w)
    (hoverload : ∀ s w, TextWritten f s w → Reads .overloadName (some s) w)
    (hfactory : ∀ b w, BoolWritten b w → Reads .isFactoryMethod (some b) w) :
    List.Forall₂ (Member.Gives (S := Listing.shape) Reads Passes) (scalarMembers f l)
      (scalarValues l).given := by
  rw [scalarValues, Fields.given_append, Fields.given_append]
  exact List.rel_append (.cons ⟨rfl, hname⟩ (.cons ⟨rfl, hmode⟩ .nil))
    (List.rel_append (gives_option (fun name => ⟨rfl, hoverload name⟩) l.overloadName)
      (gives_option (fun b => ⟨rfl, hfactory b⟩) l.isFactoryMethod))

/-- A declaration and values of its lists, which may be left out where they are empty. -/
structure ListValues (l : Listing) (arguments returns methods : Fields Listing.shape) : Prop where
  arguments : arguments = [⟨.arguments, l.arguments⟩] ∨ l.arguments = [] ∧ arguments = []
  returns : returns = [⟨.returns, l.returns⟩] ∨ l.returns = [] ∧ returns = []
  methods : methods = [⟨.methodOf, l.methodOf⟩] ∨ l.methodOf = [] ∧ methods = []

variable {arguments returns methods : Fields Listing.shape}

theorem ListValues.nodup (h : ListValues l arguments returns methods) :
    ((scalarValues l ++ (arguments ++ (returns ++ methods))).map Sigma.fst).Nodup := by
  have hnames : [Listing.Field.name, .mode, .overloadName, .isFactoryMethod, .arguments, .returns,
      .methodOf].Nodup := by decide
  have hoverload : List.Sublist (l.overloadName.toList.map fun _ => Listing.Field.overloadName)
      [.overloadName] := by
    cases l.overloadName <;> simp
  have hfactory : List.Sublist
      (l.isFactoryMethod.toList.map fun _ => Listing.Field.isFactoryMethod)
      [.isFactoryMethod] := by
    cases l.isFactoryMethod <;> simp
  have hlist : ∀ {α : Type} {f : Listing.Field} {v : Listing.shape.Value f} {xs : List α}
      {values : Fields Listing.shape}, values = [⟨f, v⟩] ∨ xs = [] ∧ values = [] →
      (values.map Sigma.fst).Sublist [f] := by
    rintro α f v xs values (rfl | ⟨-, rfl⟩)
    · exact .refl _
    · exact List.nil_sublist _
  simp only [List.map_append, scalarValues, List.map_map]
  exact hnames.sublist (((List.Sublist.refl _).append (hoverload.append hfactory)).append
    ((hlist h.arguments).append ((hlist h.returns).append (hlist h.methods))))

theorem ListValues.complete (h : ListValues l arguments returns methods) :
    (Listing.shape.emptyDraft.enterAll
      (Fields.given (scalarValues l ++ (arguments ++ (returns ++ methods))))).complete = .ok l := by
  obtain ⟨name, overloadName, listed, returned, mode, methodOf, isFactoryMethod⟩ := l
  obtain ⟨rfl | ⟨rfl, rfl⟩, rfl | ⟨rfl, rfl⟩, rfl | ⟨rfl, rfl⟩⟩ := h <;>
    cases overloadName <;> cases isFactoryMethod <;> rfl

theorem give_listing {listed returned named : List Member}
    (hlisted : ListMember f "arguments" (ArgumentWritten f) l.arguments listed)
    (hreturned : ListMember f "returns" (ReturnWritten f) l.returns returned)
    (hnamed : ListMember f "method_of" (TextWritten f) l.methodOf named)
    (hscalars : List.Forall₂ (Member.Gives (S := Listing.shape) Reads Passes) (scalarMembers f l)
      (scalarValues l).given)
    (harguments : ∀ w, ListWritten f (ArgumentWritten f) l.arguments w →
      Reads .arguments l.arguments w)
    (hreturns : ∀ w, ListWritten f (ReturnWritten f) l.returns w → Reads .returns l.returns w)
    (hmethods : ∀ w, ListWritten f (TextWritten f) l.methodOf w → Reads .methodOf l.methodOf w) :
    Give Listing.shape Reads Passes (scalarMembers f l ++ (listed ++ (returned ++ named))) l := by
  obtain ⟨arguments, hgiveArguments, hargumentValues⟩ :=
    exists_listValue (S := Listing.shape) Passes hlisted rfl harguments
  obtain ⟨returns, hgiveReturns, hreturnValues⟩ :=
    exists_listValue (S := Listing.shape) Passes hreturned rfl hreturns
  obtain ⟨methods, hgiveMethods, hmethodValues⟩ :=
    exists_listValue (S := Listing.shape) Passes hnamed rfl hmethods
  have hvalues : ListValues l arguments returns methods :=
    ⟨hargumentValues, hreturnValues, hmethodValues⟩
  refine ⟨scalarValues l ++ (arguments ++ (returns ++ methods)), ?_, hvalues.nodup,
    hvalues.complete⟩
  rw [Fields.given_append, Fields.given_append, Fields.given_append]
  exact List.rel_append hscalars
    (List.rel_append hgiveArguments (List.rel_append hgiveReturns hgiveMethods))

end Listing

end Writing

end NativeBindings
