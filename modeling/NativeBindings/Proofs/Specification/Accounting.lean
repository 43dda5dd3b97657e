import NativeBindings.Proofs.Declaration.Variants
import NativeBindings.Proofs.Traversal
import NativeBindings.Proofs.TypeExpr.Names
import NativeBindings.Specification

set_option autoImplicit false
set_option relaxedAutoImplicit false

/-!
What decoding a text adds to the sink, and what it gives back. Main statement: a text without the
form of a specification adds one error; otherwise every type text that is refused adds one, in the
order in which they are listed; and only where the sink then holds no error at all do declarations
come out, one for each listing, with a warning for each misplaced default.
-/

namespace NativeBindings

/-- A type text of a listing, with the function it belongs to and the words for its place. -/
structure TypeText where
  owner : String
  place : String
  type : String
  deriving DecidableEq

def ListedArgument.typeText (owner : String) (a : ListedArgument) : TypeText :=
  ⟨owner, "argument `" ++ a.name ++ "`", a.type⟩

def ListedReturn.typeText (owner : String) (r : ListedReturn) : TypeText :=
  ⟨owner, "return value", r.type⟩

/-- The type texts of a listing, those of the arguments first. -/
def Listing.typeTexts (l : Listing) : List TypeText :=
  l.arguments.map (ListedArgument.typeText l.name) ++ l.returns.map (ListedReturn.typeText l.name)

def TypeText.refused (t : TypeText) : Bool :=
  match TypeExpr.parse t.type with
  | .ok _ => false
  | .error _ => true

/-- The error that reports a refused type text. -/
structure TypeText.ReportedBy (file : String) (t : TypeText) (d : Diagnostic) : Prop where
  severity : d.severity = .error
  code : d.code = "DE0003"
  file : d.file = file
  message : ∃ reason, TypeExpr.parse t.type = .error reason ∧
    d.message = "`" ++ t.owner ++ "`: cannot parse type `" ++ t.type ++ "` of " ++ t.place ++ ": " ++
      reason.message t.type

structure ListedArgument.ReadAs (l : ListedArgument) (a : Argument) : Prop where
  name : a.name = l.name
  defaultValue : a.defaultValue = l.defaultValue
  type : TypeExpr.parse l.type = .ok a.type

def ListedReturn.ReadAs (l : ListedReturn) (t : TypeExpr) : Prop := TypeExpr.parse l.type = .ok t

/-- The declaration is the listed one with all types read and everything else kept. -/
structure Listing.ReadAs (l : Listing) (d : Declaration) : Prop where
  name : d.name = l.name
  overloadName : d.overloadName = l.overloadName
  mode : d.mode = l.mode
  methodOf : d.methodOf = l.methodOf
  isFactoryMethod : d.isFactoryMethod = l.isFactoryMethod
  arguments : List.Forall₂ ListedArgument.ReadAs l.arguments d.arguments
  returns : List.Forall₂ ListedReturn.ReadAs l.returns d.returns

theorem ListedArgument.readAs_unique : Relator.RightUnique ListedArgument.ReadAs := by
  intro l a b ha hb
  obtain ⟨name, type, defaultValue⟩ := a
  obtain ⟨rfl, rfl, hparse⟩ := ha
  obtain ⟨hname, hdefault, hparse'⟩ := hb
  have htype := Except.ok.inj (hparse.symm.trans hparse')
  cases b
  simp_all

theorem ListedReturn.readAs_unique : Relator.RightUnique ListedReturn.ReadAs :=
  fun _ _ _ ht hu => Except.ok.inj (ht.symm.trans hu)

theorem Listing.readAs_unique : Relator.RightUnique Listing.ReadAs := by
  intro l d e hd he
  have harguments : d.arguments = e.arguments :=
    ListedArgument.readAs_unique.forall₂ hd.arguments he.arguments
  have hreturns : d.returns = e.returns :=
    ListedReturn.readAs_unique.forall₂ hd.returns he.returns
  obtain ⟨name, overloadName, arguments, returns, mode, methodOf, isFactoryMethod⟩ := d
  obtain ⟨rfl, rfl, rfl, rfl, rfl, -, -⟩ := hd
  obtain ⟨hname, hoverload, hmode, hmethodOf, hfactory, -, -⟩ := he
  cases e
  simp_all

/-- The warning that a default of the declaration is misplaced. -/
structure Declaration.WarnedBy (file : String) (d : Declaration) (w : Diagnostic) : Prop where
  severity : w.severity = .warning
  code : w.code = "DW0001"
  file : w.file = file
  message : w.message =
    "`" ++ d.qualifiedName ++ "`: default value before a required argument is ignored"

namespace Specification

/-- The text has the form of a specification and lists these declarations. -/
def Lists (format : Format) (source : String) (found : List Listing) : Prop :=
  match format with
  | .toml => Toml.listings source = .ok found
  | .json => Json.listings source = .ok found

/-- The error that reports a text without the form of a specification. -/
structure FormReportedBy (format : Format) (file : String) (d : Diagnostic) : Prop where
  severity : d.severity = .error
  code : d.code = match format with
    | .toml => "DE0001"
    | .json => "DE0002"
  file : d.file = file

variable {format : Format} {source : String}

theorem listings_of_lists (file : String) (id : Nat) {found : List Listing}
    (h : Lists format source found) :
    listings format source file id = .ok found := by
  cases format with
  | toml =>
    have hfound : Toml.listings source = .ok found := h
    rw [listings, hfound]
    rfl
  | json =>
    have hfound : Json.listings source = .ok found := h
    rw [listings, hfound]
    rfl

private theorem exists_listings_error (file : String) (id : Nat)
    (h : ∀ found, ¬ Lists format source found) :
    ∃ d, FormReportedBy format file d ∧ listings format source file id = .error d := by
  cases format with
  | toml =>
    cases hfound : Toml.listings source with
    | ok found => exact absurd hfound (h found)
    | error f =>
      refine ⟨tomlFault source file id f, ⟨rfl, rfl, rfl⟩, ?_⟩
      rw [listings, hfound]
      rfl
  | json =>
    cases hfound : Json.listings source with
    | ok found => exact absurd hfound (h found)
    | error f =>
      refine ⟨jsonFault source file id f, ⟨rfl, rfl, rfl⟩, ?_⟩
      rw [listings, hfound]
      rfl

/-! The type texts of one listing. -/

theorem refused_eq_false_iff {t : TypeText} :
    t.refused = false ↔ ∃ e, TypeExpr.parse t.type = .ok e := by
  unfold TypeText.refused
  split
  · rename_i e he
    simp [he]
  · rename_i reason hreason
    simp [hreason]

private theorem refused_eq_true_iff {t : TypeText} :
    t.refused = true ↔ ∃ reason, TypeExpr.parse t.type = .error reason := by
  unfold TypeText.refused
  split
  · rename_i e he
    simp [he]
  · rename_i reason hreason
    simp [hreason]

/-- The operation reads the type text of each item, or reports it. -/
structure Resolves {α β : Type} (file : String) (text : α → TypeText) (Made : α → β → Prop)
    (f : α → Except Diagnostic β) : Prop where
  made : ∀ x, (text x).refused = false → ∃ y, f x = .ok y ∧ Made x y
  reported : ∀ x, (text x).refused = true → ∃ d, f x = .error d ∧ (text x).ReportedBy file d

private theorem resolves_argument (file owner : String) :
    Resolves file (ListedArgument.typeText owner) ListedArgument.ReadAs
      (resolveArgument file owner) where
  made a h := by
    obtain ⟨e, he⟩ := refused_eq_false_iff.mp h
    have hparse : TypeExpr.parse a.type = .ok e := he
    refine ⟨⟨a.name, e, a.defaultValue⟩, ?_, rfl, rfl, hparse⟩
    rw [resolveArgument, hparse]
  reported a h := by
    obtain ⟨reason, hreason⟩ := refused_eq_true_iff.mp h
    have hparse : TypeExpr.parse a.type = .error reason := hreason
    refine ⟨typeFault file owner a.type ("argument `" ++ a.name ++ "`") reason, ?_, rfl, rfl, rfl,
      reason, hreason, rfl⟩
    rw [resolveArgument, hparse]

private theorem resolves_return (file owner : String) :
    Resolves file (ListedReturn.typeText owner) ListedReturn.ReadAs
      (resolveReturn file owner) where
  made r h := by
    obtain ⟨e, he⟩ := refused_eq_false_iff.mp h
    have hparse : TypeExpr.parse r.type = .ok e := he
    refine ⟨e, ?_, hparse⟩
    rw [resolveReturn, hparse]
    rfl
  reported r h := by
    obtain ⟨reason, hreason⟩ := refused_eq_true_iff.mp h
    have hparse : TypeExpr.parse r.type = .error reason := hreason
    refine ⟨typeFault file owner r.type "return value" reason, ?_, rfl, rfl, rfl, reason, hreason,
      rfl⟩
    rw [resolveReturn, hparse]
    rfl

namespace Resolves

variable {α β : Type} {file : String} {text : α → TypeText} {Made : α → β → Prop}
  {f : α → Except Diagnostic β}

theorem errors (h : Resolves file text Made f) (xs : List α) :
    List.Forall₂ (TypeText.ReportedBy file) ((xs.map text).filter TypeText.refused)
      (partitionResults (xs.map f)).2 := by
  induction xs with
  | nil => exact .nil
  | cons x xs ih =>
    rw [List.map_cons, List.map_cons]
    cases hx : (text x).refused with
    | false =>
      have hkept : ¬ (text x).refused = true := by simp [hx]
      obtain ⟨y, hy, -⟩ := h.made x hx
      rw [hy, List.filter_cons_of_neg hkept]
      exact ih
    | true =>
      obtain ⟨d, hd, hreported⟩ := h.reported x hx
      rw [hd, List.filter_cons_of_pos hx]
      exact .cons hreported ih

theorem values (h : Resolves file text Made f) (xs : List α)
    (hread : ∀ x ∈ xs, (text x).refused = false) :
    List.Forall₂ Made xs (partitionResults (xs.map f)).1 := by
  induction xs with
  | nil => exact .nil
  | cons x xs ih =>
    obtain ⟨y, hy, hmade⟩ := h.made x (hread x List.mem_cons_self)
    have hrest := ih fun z hz => hread z (List.mem_cons_of_mem _ hz)
    rw [List.map_cons, hy]
    exact .cons hmade hrest

end Resolves

theorem resolve_reported (file : String) (l : Listing) :
    List.Forall₂ (TypeText.ReportedBy file) (l.typeTexts.filter TypeText.refused)
      (resolve file l).2 := by
  have harguments := (resolves_argument file l.name).errors l.arguments
  have hreturns := (resolves_return file l.name).errors l.returns
  rw [Listing.typeTexts, List.filter_append]
  exact List.rel_append harguments hreturns

theorem resolve_readAs (file : String) {l : Listing} (h : ∀ t ∈ l.typeTexts, t.refused = false) :
    l.ReadAs (resolve file l).1 where
  name := rfl
  overloadName := rfl
  mode := rfl
  methodOf := rfl
  isFactoryMethod := rfl
  arguments := by
    apply (resolves_argument file l.name).values
    intro a ha
    exact h _ (List.mem_append_left _ (List.mem_map_of_mem ha))
  returns := by
    apply (resolves_return file l.name).values
    intro r hr
    exact h _ (List.mem_append_right _ (List.mem_map_of_mem hr))

/-! All listings of a text. -/

def typeFaults (file : String) (found : List Listing) : List Diagnostic :=
  (found.map fun l => (resolve file l).2).flatten

private theorem typeFaults_reported (file : String) (found : List Listing) :
    List.Forall₂ (TypeText.ReportedBy file)
      ((found.flatMap Listing.typeTexts).filter TypeText.refused) (typeFaults file found) := by
  induction found with
  | nil => exact .nil
  | cons l found ih =>
    rw [List.flatMap_cons, List.filter_append, typeFaults, List.map_cons, List.flatten_cons]
    exact List.rel_append (resolve_reported file l) ih

private theorem errorCount_append_typeFaults (sink : Sink) (file : String) (found : List Listing) :
    Sink.errorCount (sink ++ typeFaults file found) =
      Sink.errorCount sink + (typeFaults file found).length := by
  have herrors : ∀ d ∈ typeFaults file found, d.isError = true := by
    intro d hd
    obtain ⟨t, -, ht⟩ := Traversal.exists_of_forall₂_of_mem (typeFaults_reported file found).flip hd
    rw [Diagnostic.isError, ht.severity]
    rfl
  have hcount : (typeFaults file found).countP Diagnostic.isError =
      (typeFaults file found).length := List.countP_eq_length.mpr herrors
  rw [Sink.errorCount, List.countP_append, hcount]
  rfl

private theorem refused_eq_false_of_typeFaults_eq_nil {file : String} {found : List Listing}
    (h : typeFaults file found = []) {l : Listing} (hl : l ∈ found) :
    ∀ t ∈ l.typeTexts, t.refused = false := by
  have hreported := typeFaults_reported file found
  rw [h, List.forall₂_nil_right_iff, List.filter_eq_nil_iff] at hreported
  intro t ht
  have hnot := hreported t (List.mem_flatMap.mpr ⟨l, hl, ht⟩)
  simpa using hnot

theorem forall₂_readAs (file : String) {found : List Listing}
    (h : ∀ l ∈ found, ∀ t ∈ l.typeTexts, t.refused = false) :
    List.Forall₂ Listing.ReadAs found (found.map fun l => (resolve file l).1) := by
  rw [List.forall₂_map_right_iff, List.forall₂_same]
  intro l hl
  exact resolve_readAs file (h l hl)

private theorem forall₂_warnedBy (file : String) (declarations : List Declaration) :
    List.Forall₂ (Declaration.WarnedBy file)
      (declarations.filter fun d => decide d.DefaultMisplaced)
      ((declarations.filter Declaration.hasMisplacedDefault).map (misplacedDefault file)) := by
  have hsame : (declarations.filter fun d => decide d.DefaultMisplaced) =
      declarations.filter Declaration.hasMisplacedDefault := by
    apply List.filter_congr
    intro d _
    rw [Bool.eq_iff_iff, decide_eq_true_iff, Declaration.hasMisplacedDefault_iff]
  rw [hsame, List.forall₂_map_right_iff, List.forall₂_same]
  intro d _
  exact ⟨rfl, rfl, rfl, rfl⟩

theorem resolveAll_eq (file : String) (found : List Listing) (sink : Sink) :
    resolveAll file found sink =
      if 0 < Sink.errorCount sink + (typeFaults file found).length then
        (.error ⟨file, Sink.errorCount sink + (typeFaults file found).length⟩,
          sink ++ typeFaults file found)
      else
        (.ok (found.map fun l => (resolve file l).1), sink ++ typeFaults file found ++
          ((found.map fun l => (resolve file l).1).filter Declaration.hasMisplacedDefault).map
            (misplacedDefault file)) := by
  have hfaults : ((found.map (resolve file)).map Prod.snd).flatten = typeFaults file found := by
    rw [List.map_map]
    rfl
  have hdeclarations : (found.map (resolve file)).map Prod.fst =
      found.map fun l => (resolve file l).1 := by
    rw [List.map_map]
    rfl
  simp only [resolveAll, hfaults, hdeclarations, Sink.hasErrors, errorCount_append_typeFaults,
    decide_eq_true_eq, failWith]

theorem refused_eq_false_of_readAs {l : Listing} {d : Declaration} (h : l.ReadAs d) :
    ∀ t ∈ l.typeTexts, t.refused = false := by
  intro t ht
  rw [refused_eq_false_iff]
  rcases List.mem_append.mp ht with ht | ht
  · obtain ⟨a, ha, rfl⟩ := List.mem_map.mp ht
    obtain ⟨b, -, hb⟩ := Traversal.exists_of_forall₂_of_mem h.arguments ha
    exact ⟨b.type, hb.type⟩
  · obtain ⟨r, hr, rfl⟩ := List.mem_map.mp ht
    obtain ⟨u, -, hu⟩ := Traversal.exists_of_forall₂_of_mem h.returns hr
    exact ⟨u, hu⟩

private theorem typeFaults_eq_nil (file : String) {found : List Listing}
    (h : ∀ l ∈ found, ∀ t ∈ l.typeTexts, t.refused = false) : typeFaults file found = [] := by
  have hreported := typeFaults_reported file found
  have hnone : (found.flatMap Listing.typeTexts).filter TypeText.refused = [] := by
    rw [List.filter_eq_nil_iff]
    intro t ht
    obtain ⟨l, hl, ht⟩ := List.mem_flatMap.mp ht
    simp [h l hl t ht]
  rwa [hnone, List.forall₂_nil_left_iff] at hreported

theorem decode_nil_eq_ok_iff {file : String} {id : Nat} {declarations : List Declaration} :
    (decode format source file id []).1 = .ok declarations ↔
      ∃ found, Lists format source found ∧ List.Forall₂ Listing.ReadAs found declarations := by
  constructor
  · intro h
    by_cases hform : ∃ found, Lists format source found
    · obtain ⟨found, hfound⟩ := hform
      refine ⟨found, hfound, ?_⟩
      simp only [decode, listings_of_lists file id hfound, resolveAll_eq] at h
      split at h
      · cases h
      · rename_i hnone
        have hfaults : typeFaults file found = [] := List.length_eq_zero_iff.mp (by omega)
        rw [← Except.ok.inj h]
        exact forall₂_readAs file fun l => refused_eq_false_of_typeFaults_eq_nil hfaults
    · obtain ⟨d, -, hd⟩ := exists_listings_error file id (not_exists.mp hform)
      simp only [decode, hd, failWith] at h
      cases h
  · rintro ⟨found, hfound, hread⟩
    have haccepted : ∀ l ∈ found, ∀ t ∈ l.typeTexts, t.refused = false := by
      intro l hl
      obtain ⟨d, -, hd⟩ := Traversal.exists_of_forall₂_of_mem hread hl
      exact refused_eq_false_of_readAs hd
    have hsame := Listing.readAs_unique.forall₂ (forall₂_readAs file haccepted) hread
    have hnone : ¬ 0 < Sink.errorCount [] + (typeFaults file found).length := by
      rw [typeFaults_eq_nil file haccepted]
      decide
    simp only [decode, listings_of_lists file id hfound, resolveAll_eq, if_neg hnone, hsame]

/-- Decoding adds to the sink and takes nothing away. A text without the form of a specification
adds one error and fails. Otherwise every refused type text adds one, in the order of the listings;
the decoding fails just if errors are in the sink then, and counts all of them. Without any it gives
one declaration for each listing, and adds a warning for each of those with a misplaced default. -/
theorem decode_accounted (format : Format) (source file : String) (id : Nat) (sink : Sink) :
    ((∀ found, ¬ Lists format source found) →
      ∃ d, FormReportedBy format file d ∧
        decode format source file id sink =
          (.error ⟨file, Sink.errorCount sink + 1⟩, sink ++ [d])) ∧
    ∀ found, Lists format source found →
      ∃ faults, List.Forall₂ (TypeText.ReportedBy file)
          ((found.flatMap Listing.typeTexts).filter TypeText.refused) faults ∧
        (0 < Sink.errorCount sink + faults.length →
          decode format source file id sink =
            (.error ⟨file, Sink.errorCount sink + faults.length⟩, sink ++ faults)) ∧
        (Sink.errorCount sink + faults.length = 0 →
          ∃ declarations warnings,
            decode format source file id sink = (.ok declarations, sink ++ warnings) ∧
            List.Forall₂ Listing.ReadAs found declarations ∧
            List.Forall₂ (Declaration.WarnedBy file)
              (declarations.filter fun d => decide d.DefaultMisplaced) warnings) := by
  constructor
  · intro h
    obtain ⟨d, hd, hlistings⟩ := exists_listings_error file id h
    refine ⟨d, hd, ?_⟩
    have hcount : Sink.errorCount (sink ++ [d]) = Sink.errorCount sink + 1 := by
      simp [Sink.errorCount, Diagnostic.isError, hd.severity]
    simp only [decode, hlistings, failWith, hcount]
  · intro found hfound
    have hdecode : decode format source file id sink = resolveAll file found sink := by
      simp only [decode, listings_of_lists file id hfound]
    refine ⟨typeFaults file found, typeFaults_reported file found, ?_, ?_⟩
    · intro herrors
      rw [hdecode, resolveAll_eq, if_pos herrors]
    · intro hnone
      have hfaults : typeFaults file found = [] := List.length_eq_zero_iff.mp (by omega)
      refine ⟨found.map fun l => (resolve file l).1, _, ?_,
        forall₂_readAs file fun l => refused_eq_false_of_typeFaults_eq_nil hfaults,
        forall₂_warnedBy file _⟩
      rw [hdecode, resolveAll_eq, if_neg (by omega), hfaults, List.append_nil]

def misplacedListing : Listing :=
  ⟨"f", none, [⟨"a", "T", some (.bool true)⟩, ⟨"b", "T", none⟩], [], .native, [], none⟩

def refusedListing : Listing := ⟨"f", none, [⟨"a", "(", none⟩], [⟨none, ")"⟩], .th, [], none⟩

def earlierError : Diagnostic := ⟨.error, "DE0001", "old.toml", none, "key with no value"⟩

def earlierWarning : Diagnostic := ⟨.warning, "DW0001", "old.toml", none, "not used"⟩

def misplacedText : String :=
  "[\x7b\"name\":\"f\",\"mode\":\"native\",\"arguments\":" ++
    "[\x7b\"name\":\"a\",\"type\":\"T\",\"default\":true\x7d," ++
    "\x7b\"name\":\"b\",\"type\":\"T\"\x7d]\x7d]"

def refusedText : String :=
  "[\x7b\"name\":\"f\",\"mode\":\"TH\",\"arguments\":[\x7b\"name\":\"a\",\"type\":\"(\"\x7d]," ++
    "\"returns\":[\x7b\"type\":\")\"\x7d]\x7d]"

private theorem lists_misplaced : Lists .json misplacedText [misplacedListing] :=
  Traversal.toOption_eq_some_iff.mp (by decide +kernel)

theorem lists_refused : Lists .json refusedText [refusedListing] :=
  Traversal.toOption_eq_some_iff.mp (by decide +kernel)

private theorem not_lists_equals (found : List Listing) : ¬ Lists .toml "=" found := by
  intro h
  have hfound : Toml.listings "=" = .ok found := h
  have hfails : (Toml.listings "=").isOk = false := by decide +kernel
  rw [hfound] at hfails
  cases hfails

private theorem misplacedListing_typeTexts :
    ([misplacedListing].flatMap Listing.typeTexts).filter TypeText.refused = [] := by
  rw [List.filter_eq_nil_iff]
  intro t ht
  have htype : t.type = "T" := by
    simp only [List.flatMap_cons, List.flatMap_nil, List.append_nil, misplacedListing,
      Listing.typeTexts, List.map_cons, List.map_nil, List.mem_cons, List.not_mem_nil,
      or_false] at ht
    rcases ht with rfl | rfl <;> rfl
  have hparse : TypeExpr.parse t.type = .ok (.name "T") := by
    rw [htype]
    exact TypeExpr.parse_of_tokens [.name "T"] (by decide +kernel) rfl (by decide)
  simp [refused_eq_false_iff.mpr ⟨_, hparse⟩]

private theorem misplacedListing_defaultMisplaced {d : Declaration}
    (h : misplacedListing.ReadAs d) : d.DefaultMisplaced := by
  obtain ⟨a, behind, ha, hbehind, harguments⟩ := List.forall₂_cons_left_iff.mp h.arguments
  obtain ⟨b, last, hb, -, rfl⟩ := List.forall₂_cons_left_iff.mp hbehind
  refine ⟨[], a, _, harguments, ?_, b, List.mem_cons_self, ?_⟩
  · rw [Argument.hasDefault, ha.defaultValue]
    rfl
  · rw [Argument.hasDefault, hb.defaultValue]
    rfl

/-- With an error in the sink before, a text without the form of a specification is the second one,
and two refused types make three. With a warning before, a misplaced default adds one more. -/
theorem decode_accounted_misplaced :
    (∃ d, FormReportedBy .toml "a.toml" d ∧
      decode .toml "=" "a.toml" 0 [earlierError] =
        (.error ⟨"a.toml", 2⟩, [earlierError, d])) ∧
    Lists .json refusedText [refusedListing] ∧
    (∃ c d, decode .json refusedText "a.json" 0 [earlierError] =
      (.error ⟨"a.json", 3⟩, [earlierError, c, d]) ∧ c.code = "DE0003" ∧ d.code = "DE0003") ∧
    Lists .json misplacedText [misplacedListing] ∧
    ∃ d w, decode .json misplacedText "a.json" 0 [earlierWarning] =
      (.ok [d], [earlierWarning, w]) ∧ misplacedListing.ReadAs d ∧ d.WarnedBy "a.json" w := by
  refine ⟨(decode_accounted .toml "=" "a.toml" 0 [earlierError]).1 not_lists_equals,
    lists_refused, ?_, lists_misplaced, ?_⟩
  · obtain ⟨faults, hreported, hfails, -⟩ :=
      (decode_accounted .json refusedText "a.json" 0 [earlierError]).2 _ lists_refused
    have hrefused : ([refusedListing].flatMap Listing.typeTexts).filter TypeText.refused =
        refusedListing.typeTexts := by decide +kernel
    rw [hrefused] at hreported
    obtain ⟨c, rest, hc, hrest, rfl⟩ := List.forall₂_cons_left_iff.mp hreported
    obtain ⟨d, last, hd, hlast, rfl⟩ := List.forall₂_cons_left_iff.mp hrest
    cases hlast
    have hpositive : 0 < Sink.errorCount [earlierError] + [c, d].length := Nat.succ_pos _
    exact ⟨c, d, hfails hpositive, hc.code, hd.code⟩
  · obtain ⟨faults, hreported, -, hdecodes⟩ :=
      (decode_accounted .json misplacedText "a.json" 0 [earlierWarning]).2 _ lists_misplaced
    rw [misplacedListing_typeTexts] at hreported
    cases hreported
    have hnone : Sink.errorCount [earlierWarning] + ([] : List Diagnostic).length = 0 := rfl
    obtain ⟨declarations, warnings, hresult, hread, hwarned⟩ := hdecodes hnone
    obtain ⟨d, rest, hd, hrest, rfl⟩ := List.forall₂_cons_left_iff.mp hread
    cases hrest
    have hmisplaced : d.DefaultMisplaced := misplacedListing_defaultMisplaced hd
    rw [List.filter_cons_of_pos (by simpa using hmisplaced)] at hwarned
    obtain ⟨w, last, hw, hlast, rfl⟩ := List.forall₂_cons_left_iff.mp hwarned
    cases hlast
    exact ⟨d, w, hresult, hd, hw⟩

end Specification

end NativeBindings
