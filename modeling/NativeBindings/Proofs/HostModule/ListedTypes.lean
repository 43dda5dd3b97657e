import NativeBindings.Proofs.HostModule.Written
import NativeBindings.Proofs.TypeTable.Support

set_option autoImplicit false
set_option relaxedAutoImplicit false

/-!
The type table of a module of plain pointers. Main statement: it lists the types that the functions
of the module mention, those aside that the host knows by itself, in the order of the table and each
once; functions that were left out have no part in it.
-/

namespace NativeBindings

open HostModule

/-- A function mentions a native type: as that of its result or of an argument of its call, the star
of a pointer left out. -/
def Stanza.Mentions (s : Stanza) (native : String) : Prop :=
  s.returnEntry.native = native ∨ ∃ p ∈ s.parameters, p.entry.native = native

instance (s : Stanza) (native : String) : Decidable (s.Mentions native) :=
  inferInstanceAs (Decidable (_ ∨ _))

private theorem mem_entries_iff {s : Stanza} {native : String} :
    native ∈ s.entries.map (·.native) ↔ s.Mentions native := by
  simp [Stanza.entries, Stanza.Mentions, eq_comm]

/-- The listed entries are those whose native types the functions mention, unless the host knows
them by itself: in the order of the table, each once, and nothing else. -/
structure TypeTable.Lists (table : TypeTable) (stanzas : List Stanza) (listed : List TypeEntry) :
    Prop where
  ordered : listed.Sublist table.entries
  nodup : (listed.map (·.native)).Nodup
  mem_iff : ∀ e, e ∈ listed ↔
    e ∈ table.entries ∧ e.kind ≠ .builtin ∧ ∃ s ∈ stanzas, s.Mentions e.native
  closed : ∀ s ∈ stanzas, ∀ native, s.Mentions native →
    ∃ e ∈ table.entries, e.native = native ∧ (e.kind = .builtin ∨ e ∈ listed)
  empty_iff : Written.table listed = "Map.fromList []" ↔
    ¬ ∃ e ∈ table.entries, e.kind ≠ .builtin ∧ ∃ s ∈ stanzas, s.Mentions e.native

private theorem written_table_eq_empty_iff (listed : List TypeEntry) :
    Written.table listed = "Map.fromList []" ↔ listed = [] := by
  constructor
  · intro h
    cases listed with
    | nil => rfl
    | cons e rest =>
      -- The literal goes on with a new line where the empty one has a blank.
      have hliteral : Written.table (e :: rest) = "Map.fromList\n  [ " ++
          (String.intercalate "\n  , " ((e :: rest).map Written.tableItem) ++ "\n  ]") :=
        String.append_assoc
      have hstart : "Map.fromList\n  [ ".toList <+: "Map.fromList []".toList := by
        rw [← h, hliteral, String.toList_append]
        exact List.prefix_append _ _
      exact absurd hstart (by decide)
  · rintro rfl
    rfl

namespace HostModule.UnmanagedModule

variable {table : TypeTable} {stanzas stanzas' : List Stanza} {e : TypeEntry}

private theorem mem_usedEntries_iff : e ∈ usedEntries table stanzas ↔
    e ∈ table.entries ∧ e.kind ≠ .builtin ∧ ∃ s ∈ stanzas, s.Mentions e.native := by
  simp only [usedEntries, EntryKind.listed, List.mem_filter, List.mem_flatMap, mem_entries_iff,
    Bool.and_eq_true, decide_eq_true_eq, bne_iff_ne]

private theorem usedEntries_sublist (table : TypeTable) (stanzas : List Stanza) :
    (usedEntries table stanzas).Sublist (table.entries.filter (·.kind.listed)) := by
  refine List.monotone_filter_right _ fun e he => ?_
  exact (Bool.and_eq_true_iff.mp he).1

theorem usedEntries_mono (table : TypeTable) (h : stanzas ⊆ stanzas') :
    (usedEntries table stanzas).Sublist (usedEntries table stanzas') := by
  refine List.monotone_filter_right _ fun e he => ?_
  obtain ⟨hlisted, hused⟩ := Bool.and_eq_true_iff.mp he
  obtain ⟨s, hs, hnative⟩ := List.mem_flatMap.mp (of_decide_eq_true hused)
  refine Bool.and_eq_true_iff.mpr ⟨hlisted, decide_eq_true ?_⟩
  exact List.mem_flatMap.mpr ⟨s, h hs, hnative⟩

theorem lists_usedEntries (hnatives : (table.entries.map (·.native)).Nodup)
    (hstanzas : ∀ s ∈ stanzas, ∀ e ∈ s.entries, e ∈ table.entries) :
    table.Lists stanzas (usedEntries table stanzas) where
  ordered := List.filter_sublist
  nodup := hnatives.sublist (List.filter_sublist.map _)
  mem_iff _ := mem_usedEntries_iff
  closed := by
    intro s hs native hnative
    obtain ⟨e, he, rfl⟩ := List.mem_map.mp (mem_entries_iff.mpr hnative)
    refine ⟨e, hstanzas s hs e he, rfl, ?_⟩
    by_cases hkind : e.kind = .builtin
    · exact .inl hkind
    · exact .inr (mem_usedEntries_iff.mpr ⟨hstanzas s hs e he, hkind, s, hs, hnative⟩)
  empty_iff := by
    rw [written_table_eq_empty_iff, List.eq_nil_iff_forall_not_mem]
    simp only [mem_usedEntries_iff, not_exists, not_and]

end HostModule.UnmanagedModule

/-- The table at the head of a rendered module of plain pointers lists what its functions mention,
and is a part of the table in the text of the type module. Without the signatures whose functions
were left out the module is the same. -/
theorem ModuleSpec.lists_mentioned_types (configuration : Configuration) (category : Category)
    (table : TypeTable) (signatures : List Signature) {m : RenderedModule}
    (hnatives : (table.entries.map (·.native)).Nodup)
    (h : render ⟨configuration, category, .unmanaged⟩ table signatures = .ok m) :
    ∃ listed includes,
      m.text = Written.unmanagedPreamble (name ⟨configuration, category, .unmanaged⟩)
          configuration.typeModuleName listed includes ++
        String.join (m.stanzas.map fun s => s.written.text) ∧
      table.Lists m.stanzas listed ∧
      (∃ declarations whole, (TypeModule.ofTable configuration table).text =
          Written.typeModule configuration.typeModuleName declarations whole ∧
        listed.Sublist whole) ∧
      render ⟨configuration, category, .unmanaged⟩ table (m.stanzas.map (·.signature)) =
        .ok ⟨m.text, m.stanzas, []⟩ := by
  obtain ⟨all, -, -, -, htext⟩ := exists_of_render h
  refine ⟨UnmanagedModule.usedEntries table m.stanzas,
    UnmanagedModule.commonIncludes ++ category.extraIncludes, ?_, ?_, ?_, render_kept h⟩
  · rw [htext, textOf_unmanaged]
  · exact UnmanagedModule.lists_usedEntries hnatives fun s hs e he =>
      (of_mem_stanzas h hs).mem_entries he
  · exact ⟨_, _, TypeModule.text_ofTable configuration table,
      UnmanagedModule.usedEntries_sublist table m.stanzas⟩

/-- A function of the host name of `clone` that returns another type, behind a pointer. -/
def Signature.cloneStorage : Signature :=
  ⟨"clone", [.explicit "source" (.handle .tensor)], .one (.ptr (.handle .storage))⟩

/-- A function with a pointer among its parameters and types that the host knows by itself. -/
def Signature.scaledNorm : Signature :=
  ⟨"norm", [.explicit "self" (.handle .tensor), .explicit "scale" (.ptr (.handle .scalar)),
    .explicit "keep" (.primitive .bool)], .one (.primitive .double)⟩

theorem ModuleSpec.lists_mentioned_types_clone :
    (TypeTable.standard.entries.map (·.native)).Nodup ∧
    ∃ m listed includes, plain.render .standard [.clone, .cloneStorage, .scaledNorm] = .ok m ∧
      m.skipped.map (·.signature) = [.cloneStorage] ∧
      m.text = Written.unmanagedPreamble "Torch.Internal.Unmanaged.Native" "Torch.Internal.Type"
          listed includes ++
        String.join (m.stanzas.map fun s => s.written.text) ∧
      (∀ e, e ∈ listed ↔ e ∈ TypeTable.standard.entries ∧ e.native ∈ ["at::Tensor", "at::Scalar"]) ∧
      plain.render .standard (m.stanzas.map (·.signature)) = .ok ⟨m.text, m.stanzas, []⟩ := by
  have hrendered : ∃ m, plain.render .standard [.clone, .cloneStorage, .scaledNorm] = .ok m ∧
      m.skipped.map (·.signature) = [.cloneStorage] ∧
      ∀ e ∈ TypeTable.standard.entries, (e.kind ≠ .builtin ∧
        ∃ s ∈ m.stanzas, s.Mentions e.native) ↔ e.native ∈ ["at::Tensor", "at::Scalar"] :=
    ⟨_, rfl, rfl, by decide +kernel⟩
  obtain ⟨m, hm, hskipped, hmentioned⟩ := hrendered
  obtain ⟨listed, includes, htext, hlists, -, hkept⟩ := lists_mentioned_types .standard .native
    .standard [.clone, .cloneStorage, .scaledNorm] TypeTable.standard_natives_nodup hm
  refine ⟨TypeTable.standard_natives_nodup, m, listed, includes, hm, hskipped, htext, ?_, hkept⟩
  intro e
  rw [hlists.mem_iff]
  exact and_congr_right fun he => hmentioned e he

end NativeBindings
