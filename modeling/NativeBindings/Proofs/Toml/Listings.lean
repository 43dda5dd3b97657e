import NativeBindings.Proofs.Toml.Lines

set_option autoImplicit false
set_option relaxedAutoImplicit false

/-!
TOML specifications. Main statement: a text in which listings are written is read as these listings.
-/

namespace NativeBindings.Toml

open Writing Shape

variable {w : List Char} {fuel depth : Nat}

/-! The records of a specification. -/

private theorem Denotes.deepen {α : Type} {decode : Decoder α} {x : α}
    (h : Denotes depth decode x w)
    {deeper : Nat} (hdepth : depth ≤ deeper) : Denotes deeper decode x w :=
  Writes.mono h hdepth fun _ hn => hn

private theorem denotes_argument {a : ListedArgument} (h : ArgumentWritten .toml a w) :
    Denotes 1 argument a w := by
  obtain ⟨order, hordered, hw⟩ := h
  refine denotes_of_give hordered rfl (give_argument a ?_ ?_ ?_) hw
  · exact fun _ => denotes_text
  · exact fun _ => denotes_text
  · exact fun _ _ hdefault => (denotes_defaultValue hdefault).optional

private theorem denotes_returned {r : ListedReturn} (h : ReturnWritten .toml r w) :
    Denotes 1 returned r w := by
  obtain ⟨order, hordered, hw⟩ := h
  refine denotes_of_give hordered rfl (give_returned r ?_ ?_) hw
  · exact fun _ _ hname => (denotes_text hname).optional
  · exact fun _ => denotes_text

def listingField : (f : Listing.Field) → Decoder (Listing.shape.Value f)
  | .name => text
  | .overloadName => optional text
  | .arguments => list argument
  | .returns => list returned
  | .mode => mode
  | .methodOf => list text
  | .isFactoryMethod => optional bool

private theorem exists_gives_listing {l : Listing} {order : List Member}
    (h : ListingOrdered .toml l order) :
    (order.map Member.key).Nodup ∧ ∃ gs, List.Forall₂
        (Member.Gives (fun f v w => Denotes 2 (listingField f) v w) (Passes 2)) order gs ∧
      (fieldsOf gs).Nodup ∧ (Listing.shape.emptyDraft.enterAll gs).complete = .ok l := by
  obtain ⟨arguments, returns, methods, harguments, hreturns, hmethods, hordered⟩ := h
  refine hordered.exists_complete rfl
    (give_listing harguments hreturns hmethods (gives_scalars ?_ ?_ ?_ ?_) ?_ ?_ ?_)
    fun _ _ => passes_text
  · exact fun _ hname => (denotes_text hname).deepen (by decide)
  · exact fun _ hmode => (denotes_mode hmode).deepen (by decide)
  · exact fun _ _ hname => (denotes_text hname).optional.deepen (by decide)
  · exact fun _ _ hfactory => (denotes_bool hfactory).optional.deepen (by decide)
  · exact fun _ => denotes_list fun _ _ => denotes_argument
  · exact fun _ => denotes_list fun _ _ => denotes_returned
  · exact fun _ hnames => (denotes_list (fun _ _ => denotes_text) hnames).deepen (by decide)

/-! Documents. -/

def specificationField : (f : SpecificationField) → Decoder (specificationShape.Value f)
  | .declarations => list listing

/-- Entries of a document that give nothing to it. -/
def PassedOver (front : Entries) : Prop :=
  ∀ e ∈ front, e.Gives (S := specificationShape) specificationField .unknown

private theorem PassedOver.name_ne {front : Entries} (h : PassedOver front) {e : Entry}
    (he : e ∈ front) :
    e.name ≠ "declarations" := by
  have hkey := field?_eq_none_iff.mp (h e he).1
  exact fun hname => hkey (hname ▸ List.mem_singleton_self _)

/-- The root of a document holds the tables of the declarations so far, behind other entries. -/
inductive Holding (front : Entries) : Entries → List Listing → Prop
  | bare : Holding front front []
  | listed {key : Key} {extent : Extent} {tables : List Node} {ls : List Listing} :
      key.name = "declarations" → List.Forall₂ (fun n l => listing n = .ok l) tables ls →
      Holding front (front ++ [.mk key (.tables extent tables)]) ls

private theorem find?_append_of_passedOver {front : Entries} (h : PassedOver front)
    (entries : Entries) :
    find? "declarations" (front ++ entries) = find? "declarations" entries := by
  have hnone : front.find? (fun e => decide (e.key.name = "declarations")) = none :=
    List.find?_eq_none.mpr fun e he heq => h.name_ne he (of_decide_eq_true heq)
  rw [find?, List.find?_append, hnone]
  rfl

private theorem replace_append_of_passedOver {front : Entries} (h : PassedOver front) (n : Node)
    (entries : Entries) :
    replace "declarations" n (front ++ entries) = front ++ replace "declarations" n entries := by
  have hsame : replace "declarations" n front = front := by
    refine (List.map_congr_left fun e he => ?_).trans (List.map_id front)
    exact if_neg (h.name_ne he)
  rw [replace, List.map_append]
  exact congrArg (· ++ _) hsame

theorem Holding.close {front root : Entries} (hfront : PassedOver front) {found : List Listing}
    (h : Holding front root found) {es : List Entry} {l : Listing}
    (hl : ∀ extent origin, listing (.table extent origin es) = .ok l) (extent e : Extent) :
    ∃ root', Header.close ⟨extent, [], ⟨"declarations", e⟩, true⟩ es root = .ok root' ∧
      Holding front root' (found ++ [l]) := by
  cases h with
  | bare =>
    have hfind : find? "declarations" front = none := by
      have hfind := find?_append_of_passedOver hfront []
      rwa [List.append_nil] at hfind
    refine ⟨front ++ [.mk ⟨"declarations", e⟩ (.tables extent [.table extent .opened es])], ?_,
      .listed rfl (.cons (hl extent .opened) .nil)⟩
    rw [Header.close, if_pos rfl]
    simp only
    rw [hfind]
  | @listed key others tables found hkey htables =>
    have hfind : find? "declarations" (front ++ [.mk key (.tables others tables)]) =
        some (.tables others tables) := by
      rw [find?_append_of_passedOver hfront]
      simp [find?, Entry.key, Entry.value, hkey]
    refine ⟨front ++ [.mk key (.tables others (tables ++ [.table extent .opened es]))], ?_,
      .listed hkey (List.rel_append htables (.cons (hl extent .opened) .nil))⟩
    rw [Header.close, if_pos rfl]
    simp only
    rw [hfind]
    simp only
    rw [replace_append_of_passedOver hfront]
    simp [replace, Entry.key, hkey]

private theorem keyWritten_declarations : KeyWritten .toml "declarations" "declarations".toList :=
  .inr ⟨rfl, by decide, by decide, rfl⟩

/-- Lines in which declarations are written are entered into a document as tables that hold them. -/
theorem exists_tableLines {ls : List Listing} {source : List Char} (h : TablesWritten ls source)
    (hfuel : 2 * source.length < fuel) :
    ∃ lines, LinesRead fuel source lines ∧
      ∀ front, PassedOver front → ∀ (d : Draft) root found,
        d.close = .ok root → Holding front root found →
          ∃ d' root', d.enterLines lines = .ok d' ∧ d'.close = .ok root' ∧
            Holding front root' (found ++ ls) := by
  induction h with
  | nil hgap =>
    refine ⟨[], linesRead_nil hgap, fun _ _ d root found hclose hholding => ?_⟩
    exact ⟨d, root, rfl, hclose, by rwa [List.append_nil]⟩
  | @cons l ls order before behind lines rest hbefore hbehind hordered hlines _ ih =>
    simp only [List.length_append, List.length_cons] at hfuel
    obtain ⟨later, hlater, henters⟩ := ih (by omega)
    obtain ⟨hkeys, gs, hgives, hdistinct, hcomplete⟩ := exists_gives_listing hordered
    have hlinesFuel : 2 * lines.length ≤ fuel := by omega
    have hheaderFuel : 0 < fuel := by omega
    obtain ⟨ms, hcollected, hread⟩ :=
      linesRead_members hlines hgives hlinesFuel (by decide) hlater
    obtain ⟨es, hholds, hnames, hrecord⟩ := hcollected.entries hkeys hdistinct hcomplete
    obtain ⟨extent, e, hheader⟩ :=
      LinesRead.header hbefore true keyWritten_declarations hheaderFuel hbehind hread
    refine ⟨_, hheader, ?_⟩
    · intro front hfront d root found hclose hholding
      obtain ⟨root', hclosed, hheld⟩ := hholding.close hfront hrecord extent e
      let opened : Draft := ⟨root, some ⟨extent, [], ⟨"declarations", e⟩, true⟩, []⟩
      obtain ⟨d', root'', henter, hclose', hholding'⟩ :=
        henters front hfront (opened.extend es) root' (found ++ [l]) hclosed hheld
      refine ⟨d', root'', ?_, hclose', by rwa [List.append_assoc] at hholding'⟩
      have hentered : ((opened.current ++ es).map Entry.name).Nodup := hnames
      have hheaderEntered := enterLine_header hclose true ⟨"declarations", e⟩
        (fun h => absurd h (by decide)) extent
      rw [Draft.enterLines, hheaderEntered]
      exact (enterLines_members hholds hentered later).trans henter

private theorem specification_of_holding {front root : Entries} (hfront : PassedOver front)
    {ls : List Listing} (h : Holding front root ls) (extent : Extent) (origin : Origin) :
    specification (.table extent origin root) = .ok ls := by
  cases h with
  | bare =>
    have hspecification := record_of_gives_behind hfront .nil List.nodup_nil rfl extent origin
    rwa [List.append_nil] at hspecification
  | @listed key others tables ls hname htables =>
    have hfield : specificationShape.field? key.name = some .declarations := by
      rw [hname]
      rfl
    have hlist : list listing (.tables others tables) = .ok ls :=
      Traversal.mapM_eq_ok_iff.mpr htables
    have hgives : Entry.Gives (S := specificationShape) specificationField
        (.mk key (.tables others tables)) (.known SpecificationField.declarations ls) :=
      ⟨hfield, hlist⟩
    exact record_of_gives_behind hfront (.cons hgives .nil) (List.nodup_singleton _) rfl extent
      origin

private theorem head?_written_ne {ls : List Listing} {source : List Char}
    (h : TomlWritten ls source) :
    source.head? ≠ some byteOrderMark := by
  obtain ⟨order, lines, tables, -, hlines, htables, rfl⟩ := h
  refine head?_lines_ne hlines ?_
  cases htables with
  | nil hgap =>
    rw [← List.append_nil tables]
    exact head?_gap_ne hgap nofun
  | cons hbefore _ _ _ _ =>
    exact head?_gap_ne hbefore fun heq => absurd (Option.some.inj heq) (by decide)

theorem listings_of_written {ls : List Listing} {source : String}
    (h : TomlWritten ls source.toList) : listings source = .ok ls := by
  have hmark := head?_written_ne h
  obtain ⟨order, lines, tables, hordered, hlines, htables, hsource⟩ := h
  have hlength : source.toList.length = lines.length + tables.length := by
    rw [hsource, List.length_append]
  have htablesFuel : 2 * tables.length < 3 * source.toList.length + 3 := by omega
  have hlinesFuel : 2 * lines.length ≤ 3 * source.toList.length + 3 := by omega
  obtain ⟨later, hlater, henters⟩ := exists_tableLines htables htablesFuel
  obtain ⟨ms, front, hread, hholds, hnames, hfront⟩ :=
    exists_frontLines (S := specificationShape) specificationField hordered rfl hlines hlinesFuel
      hlater
  let start : Draft := ⟨[], none, []⟩
  obtain ⟨d, root, henter, hclose, hholding⟩ :=
    henters front hfront (start.extend front) front [] rfl .bare
  have hentered : ((start.current ++ front).map Entry.name).Nodup := hnames
  have hdraft : start.enterLines (ms.map memberLine ++ later) = .ok d :=
    (enterLines_members hholds hentered later).trans henter
  rw [← hsource] at hread
  rw [listings, document_of_linesRead hmark hread hdraft hclose]
  exact specification_of_holding hfront hholding _ _

end NativeBindings.Toml
