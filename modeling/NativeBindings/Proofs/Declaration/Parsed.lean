import NativeBindings.Proofs.Signature.Types
import NativeBindings.Proofs.TypeExpr.RoundTrip
import NativeBindings.Specification

set_option autoImplicit false
set_option relaxedAutoImplicit false

/-!
Declarations whose types were read from texts, as those that decoding gives are. Main statement: all
types of their signatures are readable, so that their spellings tell them apart.
-/

namespace NativeBindings

/-- Every type of the declaration was read from a text. -/
def Declaration.Parsed (d : Declaration) : Prop :=
  (∀ a ∈ d.arguments, ∃ s, TypeExpr.parse s = .ok a.type) ∧
    ∀ r ∈ d.returns, ∃ s, TypeExpr.parse s = .ok r

theorem Declaration.parsed_iff {d : Declaration} : d.Parsed ↔
    (∀ a ∈ d.arguments, a.type.WellFormed) ∧ ∀ r ∈ d.returns, r.WellFormed := by
  simp only [Parsed, TypeExpr.wellFormed_iff_exists_parse]

instance (d : Declaration) : Decidable d.Parsed := decidable_of_iff _ Declaration.parsed_iff.symm

theorem Declaration.Parsed.of_mem_variants {d v : Declaration} (h : d.Parsed)
    (hv : v ∈ d.variants) : v.Parsed := by
  obtain ⟨count, -, -, rfl⟩ := exists_truncated_of_mem_variants hv
  exact ⟨fun a ha => h.1 a (List.mem_of_mem_take ha), h.2⟩

namespace Specification

private theorem mem_partitionResults {α : Type} {results : List (Except Diagnostic α)} {x : α}
    (h : x ∈ (partitionResults results).1) : .ok x ∈ results := by
  fun_induction partitionResults results with
  | case1 => simp at h
  | case2 y rest ih =>
    rcases List.mem_cons.mp h with rfl | h
    · exact List.mem_cons_self
    · exact List.mem_cons_of_mem _ (ih h)
  | case3 d rest ih => exact List.mem_cons_of_mem _ (ih h)

private theorem parse_of_resolveArgument {file owner : String} {l : ListedArgument} {a : Argument}
    (h : resolveArgument file owner l = .ok a) : TypeExpr.parse l.type = .ok a.type := by
  unfold resolveArgument at h
  split at h
  · rename_i hparse
    cases h
    exact hparse
  · cases h

private theorem parse_of_resolveReturn {file owner : String} {l : ListedReturn} {t : TypeExpr}
    (h : resolveReturn file owner l = .ok t) : TypeExpr.parse l.type = .ok t := by
  unfold resolveReturn at h
  cases hparse : TypeExpr.parse l.type with
  | error reason => simp [hparse, Except.mapError] at h
  | ok u => simpa [hparse, Except.mapError] using h

theorem resolve_parsed (file : String) (l : Listing) : (resolve file l).1.Parsed := by
  constructor
  · intro a ha
    obtain ⟨listed, -, hlisted⟩ := List.mem_map.mp (mem_partitionResults ha)
    exact ⟨listed.type, parse_of_resolveArgument hlisted⟩
  · intro r hr
    obtain ⟨listed, -, hlisted⟩ := List.mem_map.mp (mem_partitionResults hr)
    exact ⟨listed.type, parse_of_resolveReturn hlisted⟩

/-- What is decoded has types that were read from texts. -/
theorem decode_parsed {format : Format} {source file : String} {id : Nat} {sink : Sink}
    {declarations : List Declaration}
    (h : (decode format source file id sink).1 = .ok declarations) :
    ∀ d ∈ declarations, d.Parsed := by
  unfold decode at h
  split at h
  · cases h
  · rename_i found hfound
    simp only [resolveAll] at h
    split at h
    · cases h
    · simp only [Except.ok.injEq] at h
      subst h
      intro d hd
      simp only [List.map_map, List.mem_map, Function.comp] at hd
      obtain ⟨l, -, rfl⟩ := hd
      exact resolve_parsed file l

end Specification

namespace NativeType

theorem readable_ofExpr {e : TypeExpr} (h : e.WellNamed) : (ofExpr e).Readable := ⟨e, h, rfl⟩

theorem Readable.pointee {t : NativeType} (h : t.Readable) : t.pointee.Readable := by
  cases t with
  | ptr u =>
    obtain ⟨e, hnamed, he⟩ := h
    obtain ⟨f, rfl, hf⟩ := exists_ofExpr_of_ptr he
    exact readable_ofExpr (hf hnamed)
  | primitive | handle | boolArray | tuple | unknown => exact h

theorem eq_of_pointee {t u : NativeType} (hflag : t.isPtr = u.isPtr)
    (h : t.pointee = u.pointee) : t = u := by
  cases t <;> cases u <;> simp_all [isPtr, NativeType.pointee]

theorem readable_primitive (p : Primitive) : (NativeType.primitive p).Readable := by
  obtain ⟨w, hw⟩ := exists_written_primitive p
  exact hw.readable

private theorem allWellNamed_types {es : List TypeExpr} (h : ∀ e ∈ es, e.WellNamed) :
    TypeArg.AllWellNamed (es.map .type) := by
  induction es with
  | nil => trivial
  | cons e es ih =>
    exact ⟨h e List.mem_cons_self, ih fun f hf => h f (List.mem_cons_of_mem _ hf)⟩

theorem readable_tuple {es : List TypeExpr} (h : ∀ e ∈ es, e.WellNamed) :
    (NativeType.tuple (es.map ofExpr)).Readable := by
  refine ⟨.app "std::tuple" (es.map .type), ⟨by decide, allWellNamed_types h⟩, ?_⟩
  simp [ofExpr, ofTemplate?, types?_ofArgs]

private theorem readable_returns {es : List TypeExpr} (h : ∀ e ∈ es, e.WellNamed) :
    (Returns.ofTypes (es.map ofExpr)).type.Readable := by
  match es with
  | [] => exact readable_primitive .void
  | [e] => exact readable_ofExpr (h e List.mem_cons_self)
  | e :: f :: rest => exact readable_tuple h

end NativeType

namespace Signature

def Readable (s : Signature) : Prop :=
  (∀ p ∈ s.explicits, p.2.Readable) ∧ s.returns.type.Readable

theorem readable_ofDeclaration {d : Declaration} (h : d.Parsed) : (ofDeclaration d).Readable := by
  constructor
  · intro p hp
    rw [explicits_ofDeclaration] at hp
    obtain ⟨a, ha, rfl⟩ := List.mem_map.mp hp
    obtain ⟨s, hs⟩ := h.1 a (List.mem_of_mem_filter ha)
    exact NativeType.readable_ofExpr (TypeExpr.parse_wellNamed hs)
  · refine NativeType.readable_returns fun r hr => ?_
    obtain ⟨s, hs⟩ := h.2 r hr
    exact TypeExpr.parse_wellNamed hs

end Signature

end NativeBindings
