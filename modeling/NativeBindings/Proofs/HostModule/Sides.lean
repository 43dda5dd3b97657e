import NativeBindings.Proofs.HostModule.Written

set_option autoImplicit false
set_option relaxedAutoImplicit false

/-!
The two sides of a function of plain pointers: its host type and binders, and the quoted call. Main
statement: both sides write the same parameters in the same order, a pointer on the one side is a
pointer on the other, and what is neither a pointer nor handed over by value is taken from behind
one on the way in and copied behind one on the way out.
-/

namespace NativeBindings

open HostModule

/-- Two places are written as a value and its bare type, or as a pointer and the type with a star,
and each of them tells how the other one is written. -/
structure WrittenAlike (hostText bareHost pointerHost nativeText native : String) : Prop where
  form : hostText = bareHost ∧ nativeText = native ∨
    hostText = pointerHost ∧ nativeText = native ++ "*"
  bare : hostText = bareHost ↔ nativeText = native
  pointer : hostText = pointerHost ↔ nativeText = native ++ "*"

/-- One parameter on both sides: its line in the type signature, its binder and its argument in the
call. -/
structure ParameterWritten (table : TypeTable) (function : String) (p : String × NativeType)
    (hostText bound : String) (a : WrittenArgument) : Prop where
  binder : bound = HostName.ofParameter p.1
  variableName : a.variableName = bound
  types : ∃ e, table.resolve p.2 function = .ok e ∧
    WrittenAlike hostText e.host ("Ptr " ++ Written.operand e.host) a.type e.native ∧
    (a.dereferenced = true ↔ p.2.isPtr = false ∧ e.kind.byValue = false)

/-- The result on both sides, with the statement that hands it out. -/
structure ResultWritten (table : TypeTable) (function : String) (type : NativeType)
    (w : WrittenStanza) : Prop where
  types : ∃ e, table.resolve type function = .ok e ∧
    WrittenAlike w.resultType ("IO " ++ Written.operand e.host)
      ("IO (Ptr " ++ Written.operand e.host ++ ")") w.nativeResult e.native ∧
    (w.statement = "return new " ++ e.native ++ "(" ++ w.call ++ ");" ↔
      type.isPtr = false ∧ e.kind.byValue = false) ∧
    (w.statement = "return new " ++ e.native ++ "(" ++ w.call ++ ");" ∨
      w.statement = "return " ++ w.call ++ ";" ∨ w.statement = w.call ++ ";")

/-- Both sides of a function write the explicit parameters of its signature, in their order, and its
result. -/
structure SidesAgree (category : Category) (table : TypeTable) (s : Signature)
    (w : WrittenStanza) : Prop where
  name : HostName.ofSignature table s = .ok w.name
  callee : w.callee = category.callPrefix ++ s.name
  types_length : w.parameterTypes.length = s.explicits.length
  binders_length : w.binders.length = s.explicits.length
  arguments_length : w.arguments.length = s.explicits.length
  parameters : ∀ (i : Nat) (p : String × NativeType), s.explicits[i]? = some p →
    ∃ hostText bound a, w.parameterTypes[i]? = some hostText ∧ w.binders[i]? = some bound ∧
      w.arguments[i]? = some a ∧ ParameterWritten table s.name p hostText bound a
  result : ResultWritten table s.name s.returns.type w

private theorem ne_of_length_lt {s t : String} (h : s.length < t.length) : s ≠ t := by
  rintro rfl
  exact absurd h (Nat.lt_irrefl _)

private theorem length_le_operand (host : String) :
    host.length ≤ (Written.operand host).length := by
  unfold Written.operand
  split
  · simp only [String.length_append]
    omega
  · exact le_rfl

private theorem host_ne_pointer (host : String) : host ≠ "Ptr " ++ Written.operand host := by
  have hle := length_le_operand host
  have hword : "Ptr ".length = 4 := rfl
  apply ne_of_length_lt
  rw [String.length_append, hword]
  omega

private theorem result_ne_pointer (host : String) :
    "IO " ++ Written.operand host ≠ "IO (Ptr " ++ Written.operand host ++ ")" := by
  have hword : "IO ".length = 3 := rfl
  have hpointer : "IO (Ptr ".length = 8 := rfl
  apply ne_of_length_lt
  rw [String.length_append, String.length_append, String.length_append, hword, hpointer]
  omega

private theorem native_ne_starred (native : String) : native ≠ native ++ "*" := by
  have hstar : "*".length = 1 := rfl
  apply ne_of_length_lt
  rw [String.length_append, hstar]
  omega

private theorem WrittenAlike.of_form {hostText bareHost pointerHost nativeText native : String}
    (hhost : bareHost ≠ pointerHost)
    (h : hostText = bareHost ∧ nativeText = native ∨
      hostText = pointerHost ∧ nativeText = native ++ "*") :
    WrittenAlike hostText bareHost pointerHost nativeText native := by
  have hnative := native_ne_starred native
  refine ⟨h, ?_, ?_⟩
  · rcases h with ⟨rfl, rfl⟩ | ⟨rfl, rfl⟩
    · simp
    · simp [hhost.symm, hnative.symm]
  · rcases h with ⟨rfl, rfl⟩ | ⟨rfl, rfl⟩
    · simp [hhost, hnative]
    · simp

/-- The two tests for a pointer, that of the host type and that of the native type, coincide. -/
theorem HostShape.value_or_starred (type : NativeType) (e : TypeEntry) :
    HostShape.ofEntry type e = .value e.host ∧
        (e.native ++ if type.isPtr || !e.kind.byValue then "*" else "") = e.native ∨
      HostShape.ofEntry type e = .pointer e.host ∧
        (e.native ++ if type.isPtr || !e.kind.byValue then "*" else "") = e.native ++ "*" := by
  unfold HostShape.ofEntry
  cases e.kind.byValue <;> cases type.isPtr <;> simp

private theorem parameterWritten_ofParameter {table : TypeTable} {function : String}
    {p : String × NativeType} {q : StanzaParameter} (h : Stanza.ParameterOf table function p q) :
    ParameterWritten table function p ((HostShape.ofEntry q.type q.entry).parameter "Ptr")
      q.hostName (.ofParameter q) := by
  obtain ⟨hname, htype, hentry⟩ := h
  refine ⟨hname, rfl, q.entry, hentry, .of_form (host_ne_pointer q.entry.host) ?_, ?_⟩
  · refine (HostShape.value_or_starred q.type q.entry).imp ?_ ?_ <;> rintro ⟨hshape, hnative⟩ <;>
      exact ⟨by rw [hshape]; rfl, hnative⟩
  · simp [WrittenArgument.ofParameter, htype]

private theorem statement_eq_copied_iff (s : Stanza) :
    s.statement = "return new " ++ s.returnEntry.native ++ "(" ++ s.written.call ++ ");" ↔
      s.returnType.isPtr = false ∧ s.returnEntry.kind.byValue = false := by
  have hreturned : ∀ type call : String,
      "return " ++ call ++ ";" ≠ "return new " ++ type ++ "(" ++ call ++ ");" := by
    intro type call
    have hword : "return ".length = 7 := rfl
    have hnew : "return new ".length = 11 := rfl
    have hend : ";".length = 1 := rfl
    have hclose : ");".length = 2 := rfl
    apply ne_of_length_lt
    simp only [String.length_append, hword, hnew, hend, hclose]
    omega
  have hdiscarded : ∀ type call : String,
      call ++ ";" ≠ "return new " ++ type ++ "(" ++ call ++ ");" := by
    intro type call
    have hnew : "return new ".length = 11 := rfl
    have hend : ";".length = 1 := rfl
    apply ne_of_length_lt
    simp only [String.length_append, hnew, hend]
    omega
  have hcall : s.written.call = Written.call s.callee (s.parameters.map .ofParameter) := rfl
  rw [hcall, Stanza.statement]
  split_ifs with hpointer hcopied
  · exact iff_of_false (hreturned _ _) (by simp [hpointer])
  · exact iff_of_true rfl ⟨by simpa using hpointer, by simpa using hcopied⟩
  · exact iff_of_false (hdiscarded _ _) (by simp_all)
  · exact iff_of_false (hreturned _ _) (by simp_all)

private theorem resultWritten_written {category : Category} {table : TypeTable} {s : Signature}
    {stanza : Stanza} (h : Stanza.Of category table s stanza) :
    ResultWritten table s.name s.returns.type stanza.written := by
  refine ⟨stanza.returnEntry, h.returnEntry,
    .of_form (result_ne_pointer stanza.returnEntry.host) ?_, ?_, ?_⟩
  · refine (HostShape.value_or_starred stanza.returnType stanza.returnEntry).imp ?_ ?_ <;>
      rintro ⟨hshape, hnative⟩ <;> exact ⟨by rw [Stanza.written, hshape]; rfl, hnative⟩
  · rw [← h.returnType]
    exact statement_eq_copied_iff stanza
  · show stanza.statement = _ ∨ stanza.statement = _ ∨ stanza.statement = _
    rw [Stanza.statement]
    split_ifs
    · exact .inr (.inl rfl)
    · exact .inl rfl
    · exact .inr (.inr rfl)
    · exact .inr (.inl rfl)

private theorem sidesAgree_written {category : Category} {table : TypeTable} {s : Signature}
    {stanza : Stanza} (h : Stanza.Of category table s stanza) :
    SidesAgree category table s stanza.written where
  name := h.hostName
  callee := h.callee
  types_length := by rw [h.parameters.length_eq, Stanza.written, List.length_map]
  binders_length := by
    rw [h.parameters.length_eq, Stanza.written, Stanza.binders, List.length_map]
  arguments_length := by rw [h.parameters.length_eq, Stanza.written, List.length_map]
  parameters := by
    intro i p hp
    obtain ⟨hi, rfl⟩ := List.getElem?_eq_some_iff.mp hp
    have hi' : i < stanza.parameters.length := h.parameters.length_eq ▸ hi
    have hq := h.parameters.get hi hi'
    have hparameter : stanza.parameters[i]? = some (stanza.parameters.get ⟨i, hi'⟩) :=
      List.getElem?_eq_getElem hi'
    refine ⟨_, _, _, ?_, ?_, ?_, parameterWritten_ofParameter hq⟩ <;>
      simp only [Stanza.written, Stanza.binders, List.getElem?_map, hparameter, Option.map_some]
  result := resultWritten_written h

/-- In a module of plain pointers every function is written with as many parameter lines, binders
and arguments of its call as its signature has explicit parameters, each in its place and under one
name; the host types say `Ptr` just where the native ones have a star, an argument is dereferenced
just if it is no explicit pointer and not handed over by value, and just such a result is copied. -/
theorem ModuleSpec.stanza_sides_agree (configuration : Configuration) (category : Category)
    (table : TypeTable) (signatures : List Signature) {m : RenderedModule}
    (h : render ⟨configuration, category, .unmanaged⟩ table signatures = .ok m) :
    ∃ (written : List WrittenStanza) (listed : List TypeEntry) (includes : List String),
      m.text = Written.unmanagedPreamble (name ⟨configuration, category, .unmanaged⟩)
          configuration.typeModuleName listed includes ++
        String.join (written.map WrittenStanza.text) ∧
      List.Forall₂ (SidesAgree category table) (m.stanzas.map (·.signature)) written ∧
      ∀ s ∈ m.stanzas.map (·.signature), s ∈ signatures := by
  obtain ⟨all, hall, hkept, -, htext⟩ := exists_of_render h
  refine ⟨m.stanzas.map Stanza.written, UnmanagedModule.usedEntries table m.stanzas,
    UnmanagedModule.commonIncludes ++ category.extraIncludes, ?_, ?_, ?_⟩
  · rw [htext, textOf_unmanaged, List.map_map]
    rfl
  · rw [List.forall₂_map_left_iff, List.forall₂_map_right_iff, List.forall₂_same]
    exact fun stanza hstanza => sidesAgree_written (of_mem_stanzas h hstanza)
  · intro s hs
    obtain ⟨stanza, hstanza, rfl⟩ := List.mem_map.mp hs
    rw [hkept] at hstanza
    obtain ⟨s, hs, hof⟩ :=
      Traversal.exists_of_forall₂_of_mem hall.flip (mem_of_mem_keepFirst hstanza)
    have hsignature : Stanza.Of category table s stanza := hof
    rwa [hsignature.signature]

def Signature.threads : Signature := ⟨"threads", [], .one (.primitive .int64)⟩

/-- A number, a pointer to one and a tensor, with a pointer to a number as the result. -/
def Signature.advance : Signature :=
  ⟨"advance", [.explicit "steps" (.primitive .int64), .explicit "to" (.ptr (.primitive .int64)),
    .explicit "along" (.handle .tensor)], .one (.ptr (.primitive .int64))⟩

theorem ModuleSpec.stanza_sides_agree_advance :
    ∃ m written listed includes, plain.render .standard [.threads, .advance] = .ok m ∧
      m.text = Written.unmanagedPreamble "Torch.Internal.Unmanaged.Native" "Torch.Internal.Type"
          listed includes ++
        String.join (written.map WrittenStanza.text) ∧
      List.Forall₂ (SidesAgree .native .standard) (m.stanzas.map (·.signature)) written := by
  have hmapped : ∀ s ∈ [Signature.threads, .advance], s.Mapped .standard := by decide
  obtain ⟨all, -, hlower⟩ := exists_lower_of_mapped .native hmapped
  have hrendered : ∃ m, plain.render .standard [.threads, .advance] = .ok m :=
    ⟨_, Traversal.map_eq_ok_iff.mpr ⟨_, hlower, rfl⟩⟩
  obtain ⟨m, hm⟩ := hrendered
  obtain ⟨written, listed, includes, htext, hsides, -⟩ :=
    stanza_sides_agree .standard .native .standard [.threads, .advance] hm
  exact ⟨m, written, listed, includes, hm, htext, hsides⟩

end NativeBindings
