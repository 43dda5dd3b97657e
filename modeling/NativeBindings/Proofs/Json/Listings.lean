import NativeBindings.Proofs.Json.Tables

set_option autoImplicit false
set_option relaxedAutoImplicit false

/-!
JSON specifications. Main statement: a text in which listings are written is read as these listings.
-/

namespace NativeBindings.Json

open Writing

variable {w : List Char}

/-- A table whose members are those of a record, in any order and among others, is read as it. -/
theorem reads_of_give {Record : Type} {S : Shape Record}
    {field : (f : S.Field) → Reader (S.Value f)} {known : List String} {own order : List Member}
    {r : Record}
    (hordered : Ordered .json known own order) (hknown : known = S.fields.map S.key)
    (hgive : Give S (fun f v w => Reads (field f) v w) Passes own r)
    (hw : TableWritten .json order w) : Reads (record S field) r w := by
  obtain ⟨-, gs, hgives, hdistinct, hcomplete⟩ :=
    hordered.exists_complete hknown hgive fun _ _ => passes_text
  exact reads_record hw hgives hdistinct hcomplete

private theorem reads_argument {a : ListedArgument} (h : ArgumentWritten .json a w) :
    Reads argument a w := by
  obtain ⟨order, hordered, hw⟩ := h
  refine reads_of_give hordered rfl (give_argument a ?_ ?_ ?_) hw
  · exact fun _ => reads_text
  · exact fun _ => reads_text
  · exact fun _ _ hdefault => reads_optional (reads_defaultValue hdefault)

private theorem reads_returned {r : ListedReturn} (h : ReturnWritten .json r w) :
    Reads returned r w := by
  obtain ⟨order, hordered, hw⟩ := h
  refine reads_of_give hordered rfl (give_returned r ?_ ?_) hw
  · exact fun _ _ hname => reads_optional (reads_text hname)
  · exact fun _ => reads_text

private theorem reads_listing {l : Listing} {order : List Member} (h : ListingOrdered .json l order)
    (hw : TableWritten .json order w) : Reads listing l w := by
  obtain ⟨arguments, returns, methods, harguments, hreturns, hmethods, hordered⟩ := h
  refine reads_of_give hordered rfl
    (give_listing harguments hreturns hmethods (gives_scalars ?_ ?_ ?_ ?_) ?_ ?_ ?_) hw
  · exact fun _ => reads_text
  · exact fun _ => reads_mode
  · exact fun _ _ hname => reads_optional (reads_text hname)
  · exact fun _ _ hfactory => reads_optional (reads_bool hfactory)
  · exact fun _ => reads_list fun _ _ => reads_argument
  · exact fun _ => reads_list fun _ _ => reads_returned
  · exact fun _ => reads_list fun _ _ => reads_text

theorem listings_of_written {ls : List Listing} {source : String}
    (h : JsonWritten ls source.toList) : listings source = .ok ls := by
  obtain ⟨before, body, behind, hbefore, hbehind, hbody, hsource⟩ := h
  have hread : Reads (list listing) ls body :=
    reads_list (fun _ _ ⟨_, hordered, hw⟩ => reads_listing hordered hw) hbody
  have hspace : skipSpace (before ++ (body ++ behind)) = body ++ behind := by
    rw [skipSpace_append hbefore, hread.skipSpace_append]
  have hend : skipSpace behind = [] := by
    have hskip := skipSpace_append hbehind []
    rwa [List.append_nil] at hskip
  rw [listings, hsource, hread.reads _ behind hspace (ends_spaces hbehind)]
  dsimp only
  rw [hend]

end NativeBindings.Json
