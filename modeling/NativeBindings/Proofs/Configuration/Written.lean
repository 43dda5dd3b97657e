import NativeBindings.Configuration.Load
import NativeBindings.Proofs.Listing.Writable
import NativeBindings.Proofs.Toml.Lines

set_option autoImplicit false
set_option relaxedAutoImplicit false

/-!
How a configuration file states its names: in a table `module`, opened by its header or braced, with
the members in any order and among others. Main statement: a text in which names are stated in this
way is decoded as a statement of them.
-/

namespace NativeBindings.Configuration

open Writing Toml

variable {root typeModule : String}

/-- A text is a TOML document that states a root and a type module. -/
def States (source root typeModule : String) : Prop :=
  ∃ node, document source.toList = .ok node ∧ stated node = .ok ⟨some root, some typeModule⟩

/-! The written forms. -/

def statedMembers (root typeModule : String) : List Member :=
  [⟨"root", TextWritten .toml root⟩, ⟨"type_module", TextWritten .toml typeModule⟩]

def StatedOrdered (root typeModule : String) (order : List Member) : Prop :=
  Ordered .toml ["root", "type_module"] (statedMembers root typeModule) order

def statedTable (root typeModule : String) : Member :=
  ⟨"module", fun w => ∃ order, StatedOrdered root typeModule order ∧ TableWritten .toml order w⟩

/-- A TOML text with a table for a root and a type module, and members of the document with unknown
names. -/
inductive StatementWritten (root typeModule : String) : List Char → Prop
  | opened {front order : List Member} {before behind lines members gap : List Char} :
      Ordered .toml ["module"] [] front → LinesWritten front lines → before ⊆ listSpaces .toml →
      behind ⊆ spaces .toml → StatedOrdered root typeModule order → LinesWritten order members →
      gap ⊆ listSpaces .toml →
      StatementWritten root typeModule
        (lines ++ (before ++ ("[module]".toList ++ (behind ++ '\n' :: (members ++ gap)))))
  | braced {order : List Member} {lines gap : List Char} :
      Ordered .toml ["module"] [statedTable root typeModule] order → LinesWritten order lines →
      gap ⊆ listSpaces .toml → StatementWritten root typeModule (lines ++ gap)

theorem exists_statementWritten (root typeModule : String) :
    ∃ source : String, StatementWritten root typeModule source.toList := by
  have hmembers : ∀ m ∈ statedMembers root typeModule, ∃ w, m.Value w := by
    intro m hm
    simp only [statedMembers, List.mem_cons, List.not_mem_nil, or_false] at hm
    rcases hm with rfl | rfl
    · exact exists_textWritten .toml root
    · exact exists_textWritten .toml typeModule
  obtain ⟨members, hlines⟩ := exists_linesWritten hmembers
  have hwritten : StatementWritten root typeModule _ :=
    .opened (ordered_self .toml _ []) .nil (List.nil_subset _) (List.nil_subset _)
      (ordered_self .toml _ _) hlines (List.nil_subset _)
  exact ⟨String.ofList _, by rwa [String.toList_ofList]⟩

/-! What the members give. -/

def statedField : (f : StatedField) → Decoder (statedShape.Value f) := fun _ => optional text

def fileField : (f : FileField) → Decoder (fileShape.Value f) :=
  fun _ => record statedShape statedField

private theorem give_stated (root typeModule : String) :
    Give statedShape (fun f v w => Denotes 0 (statedField f) v w) (Passes 0)
      (statedMembers root typeModule) ⟨some root, some typeModule⟩ := by
  have htext : ∀ s w, TextWritten .toml s w → Denotes 0 (optional text) (some s) w :=
    fun _ _ hw => (denotes_text hw).optional
  have hdistinct : [StatedField.root, .typeModule].Nodup := by decide
  exact ⟨[⟨.root, some root⟩, ⟨.typeModule, some typeModule⟩],
    .cons ⟨rfl, htext root⟩ (.cons ⟨rfl, htext typeModule⟩ .nil), hdistinct, rfl⟩

private theorem denotes_statedTable {w : List Char} (h : (statedTable root typeModule).Value w) :
    Denotes 1 (record statedShape statedField) ⟨some root, some typeModule⟩ w := by
  obtain ⟨order, hordered, hw⟩ := h
  exact denotes_of_give hordered rfl (give_stated root typeModule) hw

private theorem give_file (root typeModule : String) :
    Give fileShape (fun f v w => Denotes 1 (fileField f) v w) (Passes 1)
      [statedTable root typeModule] ⟨some root, some typeModule⟩ :=
  ⟨[⟨.module, ⟨some root, some typeModule⟩⟩],
    .cons ⟨rfl, fun _ => denotes_statedTable⟩ .nil, List.nodup_singleton _, rfl⟩

/-! Texts as a whole. -/

private theorem keyWritten_module : KeyWritten .toml "module" "module".toList :=
  .inr ⟨rfl, by decide, by decide, rfl⟩

private theorem head?_statementWritten_ne {source : List Char}
    (h : StatementWritten root typeModule source) : source.head? ≠ some byteOrderMark := by
  cases h with
  | opened _ hlines hbefore _ _ _ _ =>
    refine head?_lines_ne hlines (head?_gap_ne hbefore ?_)
    exact fun heq => absurd (Option.some.inj heq) (by decide)
  | @braced _ lines gap _ hlines hgap =>
    refine head?_lines_ne hlines ?_
    rw [← List.append_nil gap]
    exact head?_gap_ne hgap nofun

private theorem exists_stated_of_written {source : List Char}
    (h : StatementWritten root typeModule source)
    {fuel : Nat} (hfuel : 2 * source.length < fuel) :
    ∃ lines d entries, LinesRead fuel source lines ∧
      Toml.Draft.enterLines ⟨[], none, []⟩ lines = .ok d ∧ d.close = .ok entries ∧
      ∀ extent origin,
        stated (.table extent origin entries) = .ok ⟨some root, some typeModule⟩ := by
  let start : Toml.Draft := ⟨[], none, []⟩
  cases h with
  | @opened front order before behind lines members gap hfront hlines hbefore hbehind hordered
      hmembers hgap =>
    simp only [List.length_append, List.length_cons] at hfuel
    have hlinesFuel : 2 * lines.length ≤ fuel := by omega
    have hmembersFuel : 2 * members.length ≤ fuel := by omega
    have hheaderFuel : 0 < fuel := by omega
    obtain ⟨hkeys, gs, hgives, hdistinct, hcomplete⟩ :=
      hordered.exists_complete rfl (give_stated root typeModule) fun _ _ => passes_text
    obtain ⟨ms, hcollected, hread⟩ :=
      linesRead_members hmembers hgives hmembersFuel (Nat.zero_le _) (linesRead_nil hgap)
    obtain ⟨es, hholds, hnames, hrecord⟩ := hcollected.entries hkeys hdistinct hcomplete
    obtain ⟨extent, e, hheader⟩ :=
      LinesRead.header hbefore false keyWritten_module hheaderFuel hbehind hread
    obtain ⟨others, passed, hreadAll, hholdsPassed, hpassedNames, hpassed⟩ :=
      exists_frontLines (S := fileShape) fileField hfront rfl hlines hlinesFuel hheader
    have hnew : "module" ∉ passed.map Entry.name := by
      intro hmem
      obtain ⟨entry, hentry, hname⟩ := List.mem_map.mp hmem
      exact field?_eq_none_iff.mp (hpassed entry hentry).1 (hname ▸ List.mem_singleton_self _)
    let opened : Toml.Draft := ⟨passed, some ⟨extent, [], ⟨"module", e⟩, false⟩, []⟩
    refine ⟨_, opened.extend es, passed ++ [.mk ⟨"module", e⟩ (.table extent .opened es)],
      hreadAll, ?_, rfl, ?_⟩
    · have hentered : ((start.current ++ passed).map Entry.name).Nodup := hpassedNames
      have hopened : ((opened.current ++ es).map Entry.name).Nodup := hnames
      have hheaderEntered := enterLine_header (d := start.extend passed) rfl false ⟨"module", e⟩
        (fun _ => hnew) extent
      rw [enterLines_members hholdsPassed hentered, Toml.Draft.enterLines, hheaderEntered]
      exact enterLines_members hholds hopened []
    · have hmodule : Entry.Gives (S := fileShape) fileField
          (.mk ⟨"module", e⟩ (.table extent .opened es))
          (.known FileField.module ⟨some root, some typeModule⟩) :=
        ⟨rfl, hrecord extent .opened⟩
      exact record_of_gives_behind hpassed (.cons hmodule .nil) (List.nodup_singleton _) rfl
  | @braced order lines gap hordered hlines hgap =>
    rw [List.length_append] at hfuel
    have hlinesFuel : 2 * lines.length ≤ fuel := by omega
    obtain ⟨hkeys, gs, hgives, hdistinct, hcomplete⟩ :=
      hordered.exists_complete rfl (give_file root typeModule) fun _ _ => passes_text
    obtain ⟨ms, hcollected, hread⟩ :=
      linesRead_members hlines hgives hlinesFuel (by decide) (linesRead_nil hgap)
    obtain ⟨es, hholds, hnames, hrecord⟩ := hcollected.entries hkeys hdistinct hcomplete
    have hentered : ((start.current ++ es).map Entry.name).Nodup := hnames
    exact ⟨_, start.extend es, es, hread, enterLines_members hholds hentered [], rfl, hrecord⟩

theorem states_of_written {source : String}
    (h : StatementWritten root typeModule source.toList) : States source root typeModule := by
  have hfuel : 2 * source.toList.length < 3 * source.toList.length + 3 := by omega
  obtain ⟨lines, d, entries, hread, henter, hclose, hstated⟩ := exists_stated_of_written h hfuel
  exact ⟨_, document_of_linesRead (head?_statementWritten_ne h) hread henter hclose,
    hstated _ _⟩

end NativeBindings.Configuration
