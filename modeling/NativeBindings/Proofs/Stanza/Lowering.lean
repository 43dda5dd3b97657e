import NativeBindings.Proofs.Signature.Types
import NativeBindings.Proofs.Traversal
import NativeBindings.Stanza

set_option autoImplicit false
set_option relaxedAutoImplicit false

/-!
What lowering makes of signatures. A signature is lowered just if its types are all mapped;
otherwise its first unmapped type fails it.
-/

namespace NativeBindings

namespace Stanza

/-- A parameter of a function is that of an explicit parameter of its signature. -/
def ParameterOf (table : TypeTable) (function : String) (p : String × NativeType)
    (q : StanzaParameter) : Prop :=
  q.hostName = HostName.ofParameter p.1 ∧ q.type = p.2 ∧ table.resolve p.2 function = .ok q.entry

/-- A function is that of a signature: called by its name in the namespace of the category, with
the entries of the table. -/
structure Of (category : Category) (table : TypeTable) (s : Signature) (stanza : Stanza) :
    Prop where
  signature : stanza.signature = s
  hostName : HostName.ofSignature table s = .ok stanza.hostName
  callee : stanza.callee = category.callPrefix ++ s.name
  parameters : List.Forall₂ (ParameterOf table s.name) s.explicits stanza.parameters
  returnType : stanza.returnType = s.returns.type
  returnEntry : table.resolve s.returns.type s.name = .ok stanza.returnEntry

variable {category : Category} {table : TypeTable} {s : Signature} {function : String}

private theorem parameter_eq_ok_iff {p : String × NativeType} {q : StanzaParameter} :
    parameter table function p = .ok q ↔ ParameterOf table function p q := by
  unfold parameter ParameterOf
  rw [Traversal.map_eq_ok_iff]
  constructor
  · rintro ⟨e, he, rfl⟩
    exact ⟨rfl, rfl, he⟩
  · rintro ⟨hname, htype, he⟩
    exact ⟨q.entry, he, by rw [← hname, ← htype]⟩

theorem ofSignature_eq_ok_iff {stanza : Stanza} :
    ofSignature category table s = .ok stanza ↔ Of category table s stanza := by
  unfold ofSignature
  simp only [Traversal.bind_eq_ok_iff]
  constructor
  · rintro ⟨hostName, hname, parameters, hparams, entry, hreturn, hstanza⟩
    cases hstanza
    refine ⟨rfl, hname, rfl, ?_, rfl, hreturn⟩
    exact (Traversal.mapM_eq_ok_iff.mp hparams).imp fun _ _ => parameter_eq_ok_iff.mp
  · intro h
    have hparams : s.explicits.mapM (parameter table s.name) = .ok stanza.parameters :=
      Traversal.mapM_eq_ok_iff.mpr (h.parameters.imp fun _ _ => parameter_eq_ok_iff.mpr)
    refine ⟨_, h.hostName, _, hparams, _, h.returnEntry, ?_⟩
    rw [← h.callee, ← h.returnType, ← h.signature]
    rfl

theorem Of.mem_entries {stanza : Stanza} (h : Of category table s stanza) {e : TypeEntry}
    (he : e ∈ stanza.entries) : e ∈ table.entries := by
  rcases List.mem_cons.mp he with rfl | he
  · exact (TypeTable.of_resolve_eq_ok h.returnEntry).1
  · obtain ⟨q, hq, rfl⟩ := List.mem_map.mp he
    obtain ⟨p, -, -, -, hentry⟩ := Traversal.exists_of_forall₂_of_mem h.parameters.flip hq
    exact (TypeTable.of_resolve_eq_ok hentry).1

private theorem code_of_not_maps {t : NativeType} (h : ¬ table.Maps t) :
    HostName.code table function t = .error ⟨t.pointee.spelling, function⟩ := by
  rw [HostName.code, TypeTable.resolve_of_not_maps h]
  rfl

private theorem exists_code {t : NativeType} (h : table.Maps t) (function : String) :
    ∃ c, HostName.code table function t = .ok c := by
  obtain ⟨e, he⟩ := (TypeTable.exists_resolve_iff function).mpr h
  exact ⟨_, Traversal.map_eq_ok_iff.mpr ⟨e, he, rfl⟩⟩

private theorem exists_parameter {p : String × NativeType} (h : table.Maps p.2)
    (function : String) : ∃ q, parameter table function p = .ok q := by
  obtain ⟨e, he⟩ := (TypeTable.exists_resolve_iff function).mpr h
  exact ⟨_, Traversal.map_eq_ok_iff.mpr ⟨e, he, rfl⟩⟩

theorem exists_hostName (h : ∀ p ∈ s.explicits, table.Maps p.2) :
    ∃ n, HostName.ofSignature table s = .ok n := by
  obtain ⟨cs, hcs⟩ := Traversal.exists_mapM_eq_ok_iff.mpr fun p hp =>
    exists_code (h p hp) s.name
  exact ⟨_, Traversal.map_eq_ok_iff.mpr ⟨cs, hcs, rfl⟩⟩

private theorem exists_parameters (h : ∀ p ∈ s.explicits, table.Maps p.2) :
    ∃ qs, s.explicits.mapM (parameter table s.name) = .ok qs :=
  Traversal.exists_mapM_eq_ok_iff.mpr fun p hp => exists_parameter (h p hp) s.name

theorem exists_of_mapped (category : Category) (h : s.Mapped table) :
    ∃ stanza, ofSignature category table s = .ok stanza := by
  have hexplicits : ∀ p ∈ s.explicits, table.Maps p.2 := fun p hp =>
    h _ (List.mem_append_left _ (List.mem_map_of_mem hp))
  have hreturn : table.Maps s.returns.type := h _ (List.mem_append_right _ List.mem_cons_self)
  obtain ⟨hostName, hname⟩ := exists_hostName hexplicits
  obtain ⟨parameters, hparams⟩ := exists_parameters hexplicits
  obtain ⟨entry, hentry⟩ := (TypeTable.exists_resolve_iff s.name).mpr hreturn
  refine ⟨⟨s, hostName, category.callPrefix ++ s.name, parameters, s.returns.type, entry⟩,
    ofSignature_eq_ok_iff.mpr ⟨rfl, hname, rfl, ?_, rfl, hentry⟩⟩
  exact (Traversal.mapM_eq_ok_iff.mp hparams).imp fun _ _ => parameter_eq_ok_iff.mp

theorem ofSignature_of_firstUnmapped (category : Category) {t : NativeType}
    (h : s.FirstUnmapped table t) :
    ofSignature category table s = .error ⟨t.pointee.spelling, s.name⟩ := by
  rcases h.parameter_or_return with
    ⟨before, p, after, hsplit, hbefore, rfl, ht⟩ | ⟨hexplicits, rfl, ht⟩
  · have hcodes : HostName.codes table s = .error ⟨p.2.pointee.spelling, s.name⟩ := by
      rw [HostName.codes, hsplit]
      exact Traversal.mapM_append_cons_error (fun q hq => exists_code (hbefore q hq) s.name)
        (code_of_not_maps ht) after
    simp only [ofSignature, HostName.ofSignature, hcodes, Except.map, bind, Except.bind]
  · obtain ⟨hostName, hname⟩ := exists_hostName hexplicits
    obtain ⟨parameters, hparams⟩ := exists_parameters hexplicits
    simp only [ofSignature, hname, hparams, TypeTable.resolve_of_not_maps ht, bind, Except.bind]

end Stanza

end NativeBindings
