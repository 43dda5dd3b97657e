import NativeBindings.Proofs.Specification.Accounting
import NativeBindings.Proofs.Text.Position
import NativeBindings.Workspace

set_option autoImplicit false
set_option relaxedAutoImplicit false

/-!
Where diagnostics point. Main statement: however many files are loaded one after the other, and
whichever of them cannot be read, those that were read are numbered in their order and stay as they
are, and a diagnostic with a span points into the text from which it came, registered under the name
by which it calls its file.
-/

namespace NativeBindings

/-- The diagnostic is about a file and points, if anywhere, into its text. -/
structure Diagnostic.PointsInto (d : Diagnostic) (file text : String) (id : Nat) : Prop where
  file : d.file = file
  span : ∀ s, d.span = some s →
    s.file = id ∧ s.start ≤ s.stop ∧ s.start ≤ (Text.bytes text).length

private theorem Diagnostic.pointsInto_of_span_none {d : Diagnostic} {file : String}
    (hfile : d.file = file)
    (hspan : d.span = none) (text : String) (id : Nat) : d.PointsInto file text id where
  file := hfile
  span s hs := by
    rw [hspan] at hs
    cases hs

namespace Specification

variable {format : Format} {source file : String} {id : Nat} {d : Diagnostic}

/-! The diagnostics of one text. -/

private theorem tomlFault_pointsInto (source file : String) (id : Nat) (f : Toml.Fault) :
    (tomlFault source file id f).PointsInto file source id where
  file := rfl
  span s hs := by
    obtain rfl := Option.some.inj hs
    refine ⟨rfl, Span.start_le_stop _, ?_⟩
    rw [Text.length_bytes]
    exact Nat.sub_le _ _

private theorem jsonFault_pointsInto (source file : String) (id : Nat) (f : Json.Fault) :
    (jsonFault source file id f).PointsInto file source id where
  file := rfl
  span s hs := by
    simp only [jsonFault, Option.map_eq_some_iff] at hs
    obtain ⟨offset, hoffset, rfl⟩ := hs
    exact ⟨rfl, Span.start_le_stop _, Text.offsetOf?_le_length hoffset⟩

theorem pointsInto_of_listings (h : listings format source file id = .error d) :
    d.PointsInto file source id := by
  cases format with
  | toml =>
    obtain ⟨f, -, rfl⟩ := Traversal.mapError_eq_error_iff.mp h
    exact tomlFault_pointsInto source file id f
  | json =>
    obtain ⟨f, -, rfl⟩ := Traversal.mapError_eq_error_iff.mp h
    exact jsonFault_pointsInto source file id f

private theorem mem_partitionResults_errors {α : Type} {results : List (Except Diagnostic α)}
    (h : d ∈ (partitionResults results).2) : .error d ∈ results := by
  fun_induction partitionResults results with
  | case1 => cases h
  | case2 x rest ih => exact List.mem_cons_of_mem _ (ih h)
  | case3 e rest ih =>
    rcases List.mem_cons.mp h with rfl | h
    · exact List.mem_cons_self
    · exact List.mem_cons_of_mem _ (ih h)

private theorem resolve_span_none {l : Listing} (h : d ∈ (resolve file l).2) :
    d.file = file ∧ d.span = none := by
  rcases List.mem_append.mp h with h | h
  · obtain ⟨a, -, ha⟩ := List.mem_map.mp (mem_partitionResults_errors h)
    unfold resolveArgument at ha
    split at ha
    · cases ha
    · rw [← Except.error.inj ha]
      exact ⟨rfl, rfl⟩
  · obtain ⟨r, -, hr⟩ := List.mem_map.mp (mem_partitionResults_errors h)
    obtain ⟨reason, -, rfl⟩ := Traversal.mapError_eq_error_iff.mp hr
    exact ⟨rfl, rfl⟩

private theorem typeFaults_span_none {found : List Listing} (h : d ∈ typeFaults file found) :
    d.file = file ∧ d.span = none := by
  obtain ⟨faults, hfaults, hd⟩ := List.mem_flatten.mp h
  obtain ⟨l, -, rfl⟩ := List.mem_map.mp hfaults
  exact resolve_span_none hd

theorem exists_resolveAll_added (file : String) (found : List Listing) (sink : Sink) :
    ∃ added, (resolveAll file found sink).2 = sink ++ added ∧
      ∀ d ∈ added, d.file = file ∧ d.span = none := by
  rw [resolveAll_eq]
  split
  · exact ⟨typeFaults file found, rfl, fun d => typeFaults_span_none⟩
  · refine ⟨_, List.append_assoc _ _ _, ?_⟩
    intro d hd
    rcases List.mem_append.mp hd with hd | hd
    · exact typeFaults_span_none hd
    · obtain ⟨declaration, -, rfl⟩ := List.mem_map.mp hd
      exact ⟨rfl, rfl⟩

theorem decode_pointsInto (format : Format) (source file : String) (id : Nat) (sink : Sink) :
    ∃ added, (decode format source file id sink).2 = sink ++ added ∧
      ∀ d ∈ added, d.PointsInto file source id := by
  cases hlistings : listings format source file id with
  | error d =>
    refine ⟨[d], ?_, ?_⟩
    · simp only [decode, hlistings, failWith]
    · intro e he
      rw [List.mem_singleton.mp he]
      exact pointsInto_of_listings hlistings
  | ok found =>
    obtain ⟨added, hsink, hadded⟩ := exists_resolveAll_added file found sink
    simp only [decode, hlistings]
    refine ⟨added, hsink, ?_⟩
    intro d hd
    obtain ⟨hfile, hspan⟩ := hadded d hd
    exact Diagnostic.pointsInto_of_span_none hfile hspan source id

end Specification

/-- A path, and what reading the file there gives when it is loaded. -/
structure Reading where
  path : String
  result : Except FileFault String

/-- The file that a reading registers. -/
def Reading.file? (r : Reading) : Option SourceFile :=
  match r.result with
  | .ok text => some ⟨r.path, text⟩
  | .error _ => none

namespace Workspace

/-! One load after the other. -/

def after (w : Workspace) (r : Reading) : Workspace := (w.load r.path r.result).2

def afterAll (w : Workspace) (rs : List Reading) : Workspace := rs.foldl after w

def added (w : Workspace) (r : Reading) : List Diagnostic :=
  (w.after r).sink.drop w.sink.length

/-- The diagnostics that loads add, each with the reading from which it comes. -/
def addedAll (w : Workspace) : List Reading → List (Reading × Diagnostic)
  | [] => []
  | r :: rest => (w.added r).map (fun d => (r, d)) ++ (w.after r).addedAll rest

variable {w : Workspace} {r : Reading}

theorem after_of_error {fault : FileFault} (h : r.result = .error fault) : w.after r = w := by
  simp only [after, load, h]

theorem after_of_ok {text : String} (h : r.result = .ok text) :
    w.after r = ⟨w.sources ++ [⟨r.path, text⟩],
      (Specification.decode (.ofPath r.path) text r.path w.sources.length w.sink).2⟩ := by
  simp only [after, load, h]
  rfl

theorem sources_after (w : Workspace) (r : Reading) :
    (w.after r).sources = w.sources ++ r.file?.toList := by
  cases h : r.result with
  | error fault => simp [after_of_error h, Reading.file?, h]
  | ok text => simp [after_of_ok h, Reading.file?, h]

theorem exists_added (w : Workspace) (r : Reading) :
    (w.after r).sink = w.sink ++ w.added r ∧
    ∀ d ∈ w.added r, ∃ text, r.result = .ok text ∧ d.PointsInto r.path text w.sources.length := by
  cases h : r.result with
  | error fault => simp [added, after_of_error h]
  | ok text =>
    obtain ⟨new, hsink, hnew⟩ := Specification.decode_pointsInto (.ofPath r.path) text r.path
      w.sources.length w.sink
    have hadded : w.added r = new := by
      rw [added, after_of_ok h, hsink, List.drop_left]
    rw [hadded, after_of_ok h]
    exact ⟨hsink, fun d hd => ⟨text, rfl, hnew d hd⟩⟩

private theorem added_of_listings_error {text : String} {d : Diagnostic} (h : r.result = .ok text)
    (hd : Specification.listings (.ofPath r.path) text r.path w.sources.length = .error d) :
    w.added r = [d] := by
  rw [added, after_of_ok h]
  simp only [Specification.decode, hd, Specification.failWith]
  exact List.drop_left

private theorem sources_afterAll (w : Workspace) (rs : List Reading) :
    (w.afterAll rs).sources = w.sources ++ rs.filterMap Reading.file? := by
  induction rs generalizing w with
  | nil => simp [afterAll]
  | cons r rs ih =>
    show ((w.after r).afterAll rs).sources = _
    rw [ih, sources_after, List.append_assoc, List.filterMap_cons]
    cases r.file? <;> rfl

private theorem sink_afterAll (w : Workspace) (rs : List Reading) :
    (w.afterAll rs).sink = w.sink ++ (w.addedAll rs).map Prod.snd := by
  induction rs generalizing w with
  | nil => simp [afterAll, addedAll]
  | cons r rs ih =>
    show ((w.after r).afterAll rs).sink = _
    rw [ih, (exists_added w r).1, addedAll, List.map_append, List.append_assoc, List.map_map]
    simp [Function.comp_def]

theorem afterAll_append (w : Workspace) (rs later : List Reading) :
    w.afterAll (rs ++ later) = (w.afterAll rs).afterAll later :=
  List.foldl_append

theorem get?_sources_afterAll {id : Nat} {file : SourceFile} (h : w.sources.get? id = some file)
    (rs : List Reading) : (w.afterAll rs).sources.get? id = some file := by
  rw [sources_afterAll]
  obtain ⟨hid, -⟩ := List.getElem?_eq_some_iff.mp h
  exact (List.getElem?_append_left hid).trans h

private theorem located_of_mem_addedAll {rs : List Reading} {e : Reading × Diagnostic}
    (h : e ∈ w.addedAll rs) :
    e.1 ∈ rs ∧ ∀ s, e.2.span = some s →
      ∃ text, e.1.result = .ok text ∧
        (w.afterAll rs).sources.get? s.file = some ⟨e.2.file, text⟩ ∧
        s.start ≤ s.stop ∧ s.start ≤ (Text.bytes text).length := by
  induction rs generalizing w with
  | nil => cases h
  | cons r rs ih =>
    rcases List.mem_append.mp h with h | h
    · obtain ⟨d, hd, rfl⟩ := List.mem_map.mp h
      refine ⟨List.mem_cons_self, fun s hs => ?_⟩
      obtain ⟨text, htext, hpoints⟩ := (exists_added w r).2 d hd
      obtain ⟨hid, hordered, hwithin⟩ := hpoints.span s hs
      refine ⟨text, htext, ?_, hordered, hwithin⟩
      have hregistered : (w.after r).sources.get? s.file = some ⟨d.file, text⟩ := by
        rw [after_of_ok htext, hid, hpoints.file]
        exact List.getElem?_concat_length
      exact get?_sources_afterAll hregistered rs
    · obtain ⟨hmem, hspans⟩ := ih h
      exact ⟨List.mem_cons_of_mem _ hmem, hspans⟩

/-- The workspace after loads that start from nothing. -/
def ofReadings (readings : List Reading) : Workspace := empty.afterAll readings

private theorem sources_ofReadings (readings : List Reading) :
    (ofReadings readings).sources = readings.filterMap Reading.file? :=
  sources_afterAll empty readings

/-- A load that cannot read its file changes nothing. One that can registers the file, and decodes
its text, under the number of files that were read before; the number keeps name and text from then
on. The sink holds what the loads have added, in their order, and every span in it lies in the text
that its load has read, which is registered under the name of its diagnostic. -/
theorem diagnostics_located (readings : List Reading) :
    (∀ before r behind, readings = before ++ r :: behind →
      (∀ fault, r.result = .error fault → (ofReadings before).after r = ofReadings before) ∧
      (∀ text, r.result = .ok text →
        (ofReadings before).after r =
          ⟨(ofReadings before).sources ++ [⟨r.path, text⟩],
            (Specification.decode (.ofPath r.path) text r.path
              (before.filterMap Reading.file?).length (ofReadings before).sink).2⟩ ∧
        (ofReadings readings).sources.get? (before.filterMap Reading.file?).length =
          some ⟨r.path, text⟩) ∧
      ∀ id file, (ofReadings before).sources.get? id = some file →
        (ofReadings readings).sources.get? id = some file) ∧
    (ofReadings readings).sources = readings.filterMap Reading.file? ∧
    (ofReadings readings).sink = (empty.addedAll readings).map Prod.snd ∧
    ∀ e ∈ empty.addedAll readings, e.1 ∈ readings ∧ ∀ s, e.2.span = some s →
      ∃ text, e.1.result = .ok text ∧
        (ofReadings readings).sources.get? s.file = some ⟨e.2.file, text⟩ ∧
        s.start ≤ s.stop ∧ s.start ≤ (Text.bytes text).length := by
  refine ⟨?_, sources_ofReadings readings, sink_afterAll empty readings,
    fun _ => located_of_mem_addedAll⟩
  rintro before r behind rfl
  have hlater : ofReadings (before ++ r :: behind) = (ofReadings before).afterAll (r :: behind) :=
    afterAll_append empty before (r :: behind)
  refine ⟨fun fault => after_of_error, ?_, ?_⟩
  · intro text htext
    have hafter : (ofReadings before).after r = _ := after_of_ok htext
    rw [sources_ofReadings] at hafter ⊢
    refine ⟨hafter, ?_⟩
    have hregistered : ((ofReadings before).after r).sources.get?
        (before.filterMap Reading.file?).length = some ⟨r.path, text⟩ := by
      rw [hafter]
      exact List.getElem?_concat_length
    rw [hlater]
    exact get?_sources_afterAll hregistered behind
  · intro id file hfile
    rw [hlater]
    exact get?_sources_afterAll hfile (r :: behind)

def openList : Reading := ⟨"a.json", .ok "["⟩

def missingFile : Reading := ⟨"gone.toml", .error .notFound⟩

def missingKey : Reading := ⟨"b.toml", .ok "="⟩

private theorem exists_missingKey_added :
    ∃ d s, (missingKey, d) ∈ empty.addedAll [openList, missingFile, missingKey] ∧
      d.span = some s := by
  have hfails : (Toml.listings "=").isOk = false := by decide +kernel
  cases hfound : Toml.listings "=" with
  | ok found =>
    rw [hfound] at hfails
    cases hfails
  | error f =>
    have hcount : (ofReadings [openList, missingFile]).sources.length = 1 := by
      rw [sources_ofReadings]
      rfl
    have hadded : (ofReadings [openList, missingFile]).added missingKey =
        [Specification.tomlFault "=" "b.toml" 1 f] := by
      apply added_of_listings_error rfl
      rw [hcount]
      show (Toml.listings "=").mapError (Specification.tomlFault "=" "b.toml" 1) = _
      rw [hfound]
      rfl
    refine ⟨Specification.tomlFault "=" "b.toml" 1 f, _, ?_, rfl⟩
    have hlast : (missingKey, Specification.tomlFault "=" "b.toml" 1 f) ∈
        (ofReadings [openList, missingFile]).addedAll [missingKey] := by
      rw [addedAll, hadded]
      exact List.mem_cons_self
    exact List.mem_append_right _ (List.mem_append_right _ hlast)

/-- The file in the middle takes no number, and the diagnostic on the last text points into it. -/
theorem diagnostics_located_interrupted :
    (ofReadings [openList]).after missingFile = ofReadings [openList] ∧
    (ofReadings [openList, missingFile, missingKey]).sources.get? 1 = some ⟨"b.toml", "="⟩ ∧
    (ofReadings [openList, missingFile]).sources.get? 0 = some ⟨"a.json", "["⟩ ∧
    (ofReadings [openList, missingFile, missingKey]).sources.get? 0 = some ⟨"a.json", "["⟩ ∧
    ∃ d ∈ (ofReadings [openList, missingFile, missingKey]).sink, ∃ s, d.span = some s ∧
      (ofReadings [openList, missingFile, missingKey]).sources.get? s.file =
        some ⟨d.file, "="⟩ ∧
      s.start ≤ (Text.bytes "=").length := by
  obtain ⟨hloads, -, hsink, hspans⟩ := diagnostics_located [openList, missingFile, missingKey]
  obtain ⟨hmissing, -, -⟩ := hloads [openList] missingFile [missingKey] rfl
  obtain ⟨-, hlast, hstays⟩ := hloads [openList, missingFile] missingKey [] rfl
  have hfirst : (ofReadings [openList, missingFile]).sources.get? 0 = some ⟨"a.json", "["⟩ := by
    rw [sources_ofReadings]
    rfl
  obtain ⟨d, s, hd, hs⟩ := exists_missingKey_added
  obtain ⟨text, htext, hfile, -, hwithin⟩ := (hspans _ hd).2 s hs
  obtain rfl : "=" = text := Except.ok.inj htext
  refine ⟨hmissing .notFound rfl, (hlast "=" rfl).2, hfirst, hstays 0 _ hfirst, d, ?_, s, hs, hfile,
    hwithin⟩
  rw [hsink]
  exact List.mem_map_of_mem hd

end Workspace

end NativeBindings
