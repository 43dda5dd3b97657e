import NativeBindings.Proofs.Json.Listings
import NativeBindings.Proofs.Listing.Writable
import NativeBindings.Proofs.Toml.Listings
import NativeBindings.Proofs.TypeExpr.Names

set_option autoImplicit false
set_option relaxedAutoImplicit false

/-!
Specifications in the two formats. Main statement: listings decode to the same declarations, failure
and diagnostics from either format, whichever of its ways they are written in.
-/

namespace NativeBindings.Specification

open Writing

/-- Listings whose default values are truth values, 64 bit integers or texts can be written in both
formats, and however they are written, both texts decode to what resolving the listings gives. -/
theorem formats_agree {ls : List Listing} (h : ∀ l ∈ ls, l.Writable) :
    (∃ j : String, JsonWritten ls j.toList) ∧ (∃ t : String, TomlWritten ls t.toList) ∧
      ∀ j t : String, JsonWritten ls j.toList → TomlWritten ls t.toList →
        ∀ (file : String) (jsonId tomlId : Nat) (sink : Sink),
          decode .json j file jsonId sink = decode .toml t file tomlId sink ∧
            decode .json j file jsonId sink = resolveAll file ls sink := by
  obtain ⟨j, hjson⟩ := exists_jsonWritten h
  obtain ⟨t, htoml⟩ := exists_tomlWritten h
  refine ⟨⟨String.ofList j, by rwa [String.toList_ofList]⟩,
    ⟨String.ofList t, by rwa [String.toList_ofList]⟩, ?_⟩
  intro j t hj ht file jsonId tomlId sink
  have hfromJson : decode .json j file jsonId sink = resolveAll file ls sink := by
    rw [decode, listings, Json.listings_of_written hj]
    rfl
  have hfromToml : decode .toml t file tomlId sink = resolveAll file ls sink := by
    rw [decode, listings, Toml.listings_of_written ht]
    rfl
  exact ⟨hfromJson.trans hfromToml.symm, hfromJson⟩

/-! A function with a newline and a wide character in its name and the least default value. -/

def escapedArgument : ListedArgument := ⟨"n", "int64_t", some (.int (-9223372036854775808))⟩

def escapedListing : Listing := ⟨"a\n😀", none, [escapedArgument], [], .th, [], none⟩

/-- An unknown field stands among the others, and the empty lists are left out. -/
def escapedJson : String :=
  "[\x7b\"arguments\":[" ++
    "\x7b\"type\":\"int64_t\", \"default\":-9223372036854775808, \"name\":\"n\"\x7d]," ++
    " \"note\":\"x\", \"name\":\"a\\n\\ud83d\\ude00\", \"mode\":\"TH\"\x7d]"

/-- An unknown field stands in the document and in the argument, and an empty list is written. -/
def escapedToml : String :=
  "note=\"y\"\n[[declarations]]\narguments=[" ++
    "\x7bdefault=-9223372036854775808, \"note\"=\"x\", \"name\"=\"n\", type=\"int64_t\"\x7d]\n" ++
    "returns=[]\nname=\"a\\n\\U0001F600\"\nmode=\"TH\"\n"

def escapedDeclaration : Declaration :=
  ⟨"a\n😀", none, [⟨"n", .name "int64_t", some (.int (-9223372036854775808))⟩], [], .th, [], none⟩

private theorem leastDefault_written (f : Format) :
    DefaultWritten f (.int (-9223372036854775808)) "-9223372036854775808".toList :=
  ⟨by decide, by decide, by decide +kernel⟩

private theorem space_subset (f : Format) : [' '] ⊆ spaces f := by
  cases f <;> decide

private theorem jsonWritten_escaped : JsonWritten [escapedListing] escapedJson.toList := by
  have hplain : ∀ {s : String}, (∀ c ∈ s.toList, ¬ mustEscape .json c) →
      TextWritten .json s ('"' :: (s.toList ++ ['"'])) := textWritten_plain
  have hargumentOrder : Ordered .json ["name", "type", "default"]
      (argumentMembers .json escapedArgument) [⟨"type", _⟩, ⟨"default", _⟩, ⟨"name", _⟩] :=
    ⟨[], List.nodup_nil, by simp, @List.perm_append_comm _ [_, _] [_]⟩
  have hargument : ArgumentWritten .json escapedArgument _ :=
    ⟨_, hargumentOrder, .items (.more (List.nil_subset _)
      (memberWritten_quoted (by decide) (hplain (by decide))) (List.nil_subset _)
      (.more (space_subset .json)
        (memberWritten_quoted (by decide) (leastDefault_written .json)) (List.nil_subset _)
        (.last (space_subset .json) (memberWritten_quoted (by decide) (hplain (by decide)))
          (List.nil_subset _))))⟩
  have hpair : CharWritten .json '😀' ("\\ud83d\\ude00".toList) :=
    .pair rfl (by decide : Json.isHighSurrogate 0xd83d = true)
      (by decide : Json.isLowSurrogate 0xde00 = true) (by decide)
      (⟨rfl, by decide⟩ : Hexadecimal 4 0xd83d "d83d".toList)
      (⟨rfl, by decide⟩ : Hexadecimal 4 0xde00 "de00".toList)
  have hname : TextWritten .json "a\n😀" _ :=
    ⟨[_, _, _], .cons (.plain (by decide)) (.cons (.letter (by decide : ('n', '\n') ∈ _))
      (.cons hpair .nil)), rfl⟩
  have horder : ListingOrdered .json escapedListing
      [⟨"arguments", _⟩, ⟨"note", _⟩, ⟨"name", _⟩, ⟨"mode", _⟩] :=
    ⟨_, _, _, .inl rfl, .inr ⟨rfl, rfl⟩, .inr ⟨rfl, rfl⟩, [("note", "x")], by decide, by decide,
      @List.perm_append_comm _ [_, _] [_, _]⟩
  have harguments : ListWritten .json (ArgumentWritten .json) escapedListing.arguments _ :=
    .items (.last (List.nil_subset _) hargument (List.nil_subset _))
  have hlisting : ∃ order, ListingOrdered .json escapedListing order ∧
      TableWritten .json order _ :=
    ⟨_, horder, .items (.more (List.nil_subset _)
      (memberWritten_quoted (by decide) harguments) (List.nil_subset _)
      (.more (space_subset .json) (memberWritten_quoted (by decide) (hplain (by decide)))
        (List.nil_subset _)
        (.more (space_subset .json) (memberWritten_quoted (by decide) hname) (List.nil_subset _)
          (.last (space_subset .json) (memberWritten_quoted (by decide) (hplain (by decide)))
            (List.nil_subset _)))))⟩
  have hwritten : JsonWritten [escapedListing] _ :=
    ⟨[], _, [], List.nil_subset _, List.nil_subset _,
      .items (.last (List.nil_subset _) hlisting (List.nil_subset _)), rfl⟩
  convert hwritten using 1
  decide +kernel

private theorem tomlWritten_escaped : TomlWritten [escapedListing] escapedToml.toList := by
  have hplain : ∀ {s : String}, (∀ c ∈ s.toList, ¬ mustEscape .toml c) →
      TextWritten .toml s ('"' :: (s.toList ++ ['"'])) := textWritten_plain
  have hargumentOrder : Ordered .toml ["name", "type", "default"]
      (argumentMembers .toml escapedArgument)
      [⟨"default", _⟩, ⟨"note", _⟩, ⟨"name", _⟩, ⟨"type", _⟩] :=
    ⟨[("note", "x")], by decide, by decide, @List.perm_append_comm _ [_, _] [_, _]⟩
  have hargument : ArgumentWritten .toml escapedArgument _ :=
    ⟨_, hargumentOrder, .items (.more (List.nil_subset _)
      (memberWritten_bare (by decide) (by decide) (leastDefault_written .toml)) (List.nil_subset _)
      (.more (space_subset .toml) (memberWritten_quoted (by decide) (hplain (by decide)))
        (List.nil_subset _)
        (.more (space_subset .toml) (memberWritten_quoted (by decide) (hplain (by decide)))
          (List.nil_subset _)
          (.last (space_subset .toml)
            (memberWritten_bare (by decide) (by decide) (hplain (by decide)))
            (List.nil_subset _)))))⟩
  have hwide : CharWritten .toml '😀' ("\\U0001F600".toList) :=
    .wide rfl (⟨rfl, by decide⟩ : Hexadecimal 8 '😀'.toNat "0001F600".toList)
  have hname : TextWritten .toml "a\n😀" _ :=
    ⟨[_, _, _], .cons (.plain (by decide)) (.cons (.letter (by decide : ('n', '\n') ∈ _))
      (.cons hwide .nil)), rfl⟩
  have horder : ListingOrdered .toml escapedListing
      [⟨"arguments", _⟩, ⟨"returns", _⟩, ⟨"name", _⟩, ⟨"mode", _⟩] :=
    ⟨_, _, _, .inl rfl, .inl rfl, .inr ⟨rfl, rfl⟩, [], List.nodup_nil, by simp,
      @List.perm_append_comm _ [_, _] [_, _]⟩
  have harguments : ListWritten .toml (ArgumentWritten .toml) escapedListing.arguments _ :=
    .items (.last (List.nil_subset _) hargument (List.nil_subset _))
  have hreturns : ListWritten .toml (ReturnWritten .toml) escapedListing.returns _ :=
    .empty (List.nil_subset _)
  have hlisting : ∃ order, ListingOrdered .toml escapedListing order ∧ LinesWritten order _ :=
    ⟨_, horder, .cons (List.nil_subset _)
      (memberWritten_bare (by decide) (by decide) harguments) (List.nil_subset _)
      (.cons (List.nil_subset _) (memberWritten_bare (by decide) (by decide) hreturns)
        (List.nil_subset _)
        (.cons (List.nil_subset _) (memberWritten_bare (by decide) (by decide) hname)
          (List.nil_subset _)
          (.cons (List.nil_subset _)
            (memberWritten_bare (by decide) (by decide) (hplain (by decide)))
            (List.nil_subset _) .nil)))⟩
  obtain ⟨order, hordered, hlines⟩ := hlisting
  have htables : TablesWritten [escapedListing] _ :=
    .cons (List.nil_subset _) (List.nil_subset _) hordered hlines (.nil (List.nil_subset _))
  have hfront : Ordered .toml ["declarations"] [] [⟨"note", _⟩] :=
    ⟨[("note", "y")], by decide, by decide, .refl _⟩
  have hwritten : TomlWritten [escapedListing] _ :=
    ⟨_, _, _, hfront, .cons (List.nil_subset _)
      (memberWritten_bare (by decide) (by decide) (hplain (by decide))) (List.nil_subset _) .nil,
      htables, rfl⟩
  convert hwritten using 1
  decide +kernel

private theorem escapedListing_writable : ∀ l ∈ [escapedListing], l.Writable := by
  intro l hl a ha v hv
  obtain rfl := List.mem_singleton.mp hl
  obtain rfl := List.mem_singleton.mp ha
  obtain rfl := Option.some.inj hv
  exact ⟨by decide, by decide⟩

private theorem resolveAll_escaped :
    resolveAll "a" [escapedListing] [] = (.ok [escapedDeclaration], []) := by
  have hparse : TypeExpr.parse "int64_t" = .ok (.name "int64_t") :=
    TypeExpr.parse_of_tokens [.name "int64_t"] (by decide +kernel) rfl (by decide)
  have hargument : resolveArgument "a" escapedListing.name escapedArgument =
      .ok ⟨"n", .name "int64_t", some (.int (-9223372036854775808))⟩ := by
    simp only [resolveArgument, escapedArgument, hparse]
  have harguments : partitionResults
      (escapedListing.arguments.map (resolveArgument "a" escapedListing.name)) =
        (escapedDeclaration.arguments, []) := by
    simp only [escapedListing, List.map_cons, List.map_nil] at hargument ⊢
    rw [hargument]
    rfl
  have hresolved : resolve "a" escapedListing = (escapedDeclaration, []) := by
    rw [resolve, harguments]
    rfl
  rw [resolveAll, List.map_singleton, hresolved]
  rfl

theorem formats_agree_escaped :
    (∀ l ∈ [escapedListing], l.Writable) ∧ JsonWritten [escapedListing] escapedJson.toList ∧
      TomlWritten [escapedListing] escapedToml.toList ∧
      decode .json escapedJson "a" 0 [] = (.ok [escapedDeclaration], []) ∧
      decode .toml escapedToml "a" 0 [] = (.ok [escapedDeclaration], []) := by
  obtain ⟨hsame, hresolved⟩ := (formats_agree escapedListing_writable).2.2 escapedJson escapedToml
    jsonWritten_escaped tomlWritten_escaped "a" 0 0 []
  rw [resolveAll_escaped] at hresolved
  exact ⟨escapedListing_writable, jsonWritten_escaped, tomlWritten_escaped, hresolved,
    hsame ▸ hresolved⟩

end NativeBindings.Specification
