import Mathlib.Data.List.Nodup
import Mathlib.Tactic.IntervalCases
import NativeBindings.Proofs.Declaration.Parsed
import NativeBindings.TypeTable.Standard

set_option autoImplicit false
set_option relaxedAutoImplicit false

/-!
What the standard table supports. Main statement: of the types that are read from texts it has an
entry for exactly the primitives, the handles, three lengths of masks and six kinds of tuples, and
for one pointer to each of these; every other type is reported.
-/

namespace NativeBindings

namespace NativeType

/-- The types that can be handed over, pointers aside. -/
inductive Supported : NativeType → Prop
  | primitive (p : Primitive) : Supported (.primitive p)
  | handle (k : Handle) : Supported (.handle k)
  | mask {length : Nat} : 2 ≤ length → length ≤ 4 → Supported (.boolArray length)
  | tensors {count : Nat} :
      2 ≤ count → count ≤ 5 → Supported (.tuple (List.replicate count (.handle .tensor)))
  | tensorsAndList : Supported
      (.tuple [.handle .tensor, .handle .tensor, .handle .tensor, .handle .tensorList])
  | tensorsAndNumbers : Supported
      (.tuple [.handle .tensor, .handle .tensor, .primitive .double, .primitive .int64])

def supportedTypes : List NativeType :=
  [Primitive.bool, .int64, .double, .void, .scalarType].map .primitive ++
    [Handle.tensor, .scalar, .storage, .device, .generator, .tensorOptions, .tensorList, .intArray,
      .string, .context, .constQuantizerPtr].map .handle ++
    [2, 3, 4].map .boolArray ++
    [2, 3, 4, 5].map (fun count => .tuple (List.replicate count (.handle .tensor))) ++
    [.tuple [.handle .tensor, .handle .tensor, .handle .tensor, .handle .tensorList],
      .tuple [.handle .tensor, .handle .tensor, .primitive .double, .primitive .int64]]

private theorem Supported.mem_supportedTypes {t : NativeType} (h : t.Supported) :
    t ∈ supportedTypes := by
  unfold supportedTypes
  cases h with
  | primitive p => cases p <;> simp
  | handle k => cases k <;> simp
  | @mask length hlow hhigh => interval_cases length <;> simp
  | @tensors count hlow hhigh => interval_cases count <;> simp
  | tensorsAndList => simp
  | tensorsAndNumbers => simp

private theorem supported_of_mem {t : NativeType} (h : t ∈ supportedTypes) : t.Supported := by
  simp only [supportedTypes, List.mem_append, List.mem_map, List.mem_cons, List.not_mem_nil,
    or_false] at h
  rcases h with (((⟨p, -, rfl⟩ | ⟨k, -, rfl⟩) | ⟨length, hlength, rfl⟩) | ⟨count, hcount, rfl⟩) |
    rfl | rfl
  · exact .primitive p
  · exact .handle k
  · exact .mask (by omega) (by omega)
  · exact .tensors (by omega) (by omega)
  · exact .tensorsAndList
  · exact .tensorsAndNumbers

private theorem readable_tuple_of_items {ts : List NativeType} (h : ∀ t ∈ ts, t.Readable) :
    (NativeType.tuple ts).Readable := by
  have hitems : ∃ es : List TypeExpr, (∀ e ∈ es, e.WellNamed) ∧ es.map ofExpr = ts := by
    induction ts with
    | nil => exact ⟨[], by simp, rfl⟩
    | cons t ts ih =>
      obtain ⟨e, hnamed, rfl⟩ := h t List.mem_cons_self
      obtain ⟨es, hall, rfl⟩ := ih fun u hu => h u (List.mem_cons_of_mem _ hu)
      exact ⟨e :: es, List.forall_mem_cons.mpr ⟨hnamed, hall⟩, rfl⟩
  obtain ⟨es, hall, rfl⟩ := hitems
  exact readable_tuple hall

private theorem readable_handle (k : Handle) : (NativeType.handle k).Readable := by
  obtain ⟨w, hw⟩ := exists_written_handle k
  exact hw.readable

theorem Supported.readable {t : NativeType} (h : t.Supported) : t.Readable := by
  cases h with
  | primitive p => exact readable_primitive p
  | handle k => exact readable_handle k
  | @mask length =>
    obtain ⟨w, hw⟩ := exists_written_boolArray length
    exact hw.readable
  | tensors =>
    apply readable_tuple_of_items
    intro t ht
    rw [List.eq_of_mem_replicate ht]
    exact readable_handle .tensor
  | tensorsAndList =>
    apply readable_tuple_of_items
    simp [readable_handle]
  | tensorsAndNumbers =>
    apply readable_tuple_of_items
    simp [readable_handle, readable_primitive]

end NativeType

namespace TypeTable

open NativeType (supportedTypes)

theorem standard_natives :
    standard.entries.map TypeEntry.native = supportedTypes.map NativeType.spelling := by decide

theorem standard_natives_nodup : (standard.entries.map TypeEntry.native).Nodup := by decide

theorem standard_maps_iff {t : NativeType} (h : t.Readable) :
    standard.Maps t ↔ t.pointee.Supported := by
  have hspelled : standard.Maps t ↔
      t.pointee.spelling ∈ supportedTypes.map NativeType.spelling := by
    rw [← standard_natives, List.mem_map]
    rfl
  rw [hspelled, List.mem_map]
  constructor
  · rintro ⟨u, hmem, hspelling⟩
    have hsupported := NativeType.supported_of_mem hmem
    have hsame := NativeType.spelling_inj hsupported.readable h.pointee hspelling
    rwa [← hsame]
  · intro hsupported
    exact ⟨_, hsupported.mem_supportedTypes, rfl⟩

/-- Of the types that are read from texts the standard table has an entry for exactly the supported
ones and pointers to them: the only entry of their spelling. Every other type is reported in its
spelling, with the function that uses it. -/
theorem standard_resolves_supported (s : String) (e : TypeExpr) (function : String)
    (h : TypeExpr.parse s = .ok e) :
    ((∃ entry, standard.resolve (.ofExpr e) function = .ok entry) ↔
      (NativeType.ofExpr e).pointee.Supported) ∧
    ((NativeType.ofExpr e).pointee.Supported →
      ∃ entry ∈ standard.entries, standard.resolve (.ofExpr e) function = .ok entry ∧
        ∀ other ∈ standard.entries,
          other.native = (NativeType.ofExpr e).pointee.spelling ↔ other = entry) ∧
    (¬ (NativeType.ofExpr e).pointee.Supported →
      standard.resolve (.ofExpr e) function =
        .error ⟨(NativeType.ofExpr e).pointee.spelling, function⟩) := by
  have hreadable := NativeType.readable_ofExpr (TypeExpr.parse_wellNamed h)
  have hmaps := standard_maps_iff hreadable
  refine ⟨(exists_resolve_iff function).trans hmaps, ?_, ?_⟩
  · intro hsupported
    obtain ⟨entry, hentry⟩ := (exists_resolve_iff function).mpr (hmaps.mpr hsupported)
    obtain ⟨hmem, hnative⟩ := of_resolve_eq_ok hentry
    refine ⟨entry, hmem, hentry, fun other hother => ?_⟩
    rw [← hnative]
    constructor
    · exact fun hsame => List.inj_on_of_nodup_map standard_natives_nodup hother hmem hsame
    · exact fun hsame => by rw [hsame]
  · intro hunsupported
    exact resolve_of_not_maps (fun hmapped => hunsupported (hmaps.mp hmapped)) function

def maskPointer : TypeExpr := .ptr (.app "std::array" [.type (.name "bool"), .number 3])

def tensorPointers : TypeExpr := .ptr (.ptr (.name "Tensor"))

private theorem parse_maskPointer : TypeExpr.parse "std::array<bool,3> *" = .ok maskPointer :=
  TypeExpr.parse_of_tokens
    [.name "std::array", .less, .name "bool", .comma, .number 3, .greater, .star]
    (by decide +kernel) rfl (by decide)

private theorem parse_tensorPointers : TypeExpr.parse "Tensor **" = .ok tensorPointers :=
  TypeExpr.parse_of_tokens [.name "Tensor", .star, .star] (by decide +kernel) rfl (by decide)

theorem standard_resolves_supported_pointers :
    TypeExpr.parse "std::array<bool,3> *" = .ok maskPointer ∧
    (∃ entry ∈ standard.entries, standard.resolve (.ofExpr maskPointer) "f" = .ok entry ∧
      entry.native = "std::array<bool,3>") ∧
    TypeExpr.parse "Tensor **" = .ok tensorPointers ∧
    ¬ (NativeType.ofExpr tensorPointers).pointee.Supported ∧
    standard.resolve (.ofExpr tensorPointers) "f" = .error ⟨"at::Tensor*", "f"⟩ := by
  obtain ⟨-, hfound, -⟩ := standard_resolves_supported _ _ "f" parse_maskPointer
  obtain ⟨-, -, hreported⟩ := standard_resolves_supported _ _ "f" parse_tensorPointers
  have hmask : (NativeType.ofExpr maskPointer).pointee.Supported :=
    .mask (by decide) (by decide)
  have hpointers : ¬ (NativeType.ofExpr tensorPointers).pointee.Supported := by
    intro h
    cases h
  obtain ⟨entry, hmem, hentry, honly⟩ := hfound hmask
  exact ⟨parse_maskPointer, ⟨entry, hmem, hentry, (honly entry hmem).mpr rfl⟩,
    parse_tensorPointers, hpointers, hreported hpointers⟩

end TypeTable

end NativeBindings
