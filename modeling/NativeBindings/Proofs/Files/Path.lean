import Mathlib.Data.List.Basic
import NativeBindings.Files.Path

set_option autoImplicit false
set_option relaxedAutoImplicit false

/-!
The parts of paths. A path below a directory has the parts of that directory in front of its own,
and the directory that a path lies in has all its parts but the last one.
-/

namespace NativeBindings

namespace Path

def lead (base : String) : String :=
  match base.toList.getLast? with
  | none => ""
  | some c => if c = '/' then base else base ++ "/"

theorem join_of_relative {p : String} (h : isAbsolute p = false) (base : String) :
    join base p = lead base ++ p := by
  unfold join lead
  rw [h]
  cases hlast : base.toList.getLast? with
  | none => simp
  | some c =>
    by_cases hc : c = '/'
    · simp [hc]
    · simp [hc]

private theorem lead_cases (base : String) :
    (base = "" ∧ lead base = "") ∨ (∃ p, base = p ++ "/" ∧ lead base = base) ∨
      lead base = base ++ "/" := by
  unfold lead
  split
  · rename_i hnone
    have hempty := List.getLast?_eq_none_iff.mp hnone
    exact .inl ⟨String.toList_injective hempty, rfl⟩
  · rename_i c hlast
    split
    · rename_i hc
      obtain ⟨before, hbefore⟩ := List.getLast?_eq_some_iff.mp hlast
      have hbase : base = String.ofList before ++ "/" :=
        String.toList_injective (by simp [hbefore, hc])
      exact .inr (.inl ⟨_, hbase, rfl⟩)
    · exact .inr (.inr rfl)

private theorem parts_append_slash (p q : String) : parts (p ++ "/" ++ q) = parts p ++ parts q := by
  simpa [parts] using Text.split_append_cons '/' p.toList q.toList

private theorem parts_slash (p : String) : parts (p ++ "/") = parts p ++ [[]] := by
  simpa [parts, Text.split] using parts_append_slash p ""

/-- The parts that a directory puts in front of those of every path below it. -/
def front (base : String) : List (List Char) := (parts (lead base)).dropLast

private theorem parts_lead_append (base p : String) :
    parts (lead base ++ p) = front base ++ parts p := by
  have hslash : ∀ q, parts (q ++ "/" ++ p) = (parts (q ++ "/")).dropLast ++ parts p := by
    intro q
    rw [parts_append_slash, parts_slash, List.dropLast_concat]
  unfold front
  rcases lead_cases base with ⟨-, hlead⟩ | ⟨q, hbase, hlead⟩ | hlead
  · rw [hlead, String.empty_append]
    rfl
  · rw [hlead, hbase, hslash]
  · rw [hlead, hslash]

theorem parts_join {p : String} (h : isAbsolute p = false) (base : String) :
    parts (join base p) = front base ++ parts p := by
  rw [join_of_relative h, parts_lead_append]

theorem front_of_parts {p : String} {before : List (List Char)} {last : List Char}
    (h : parts p = before ++ [last]) (hlast : last ≠ []) : front p = parts p := by
  have hends := congrArg List.getLast? h
  rw [List.getLast?_concat] at hends
  rcases lead_cases p with ⟨rfl, -⟩ | ⟨q, rfl, -⟩ | hlead
  · exact absurd (Option.some.inj hends).symm hlast
  · rw [parts_slash, List.getLast?_concat] at hends
    exact absurd (Option.some.inj hends).symm hlast
  · rw [front, hlead, parts_slash, List.dropLast_concat]

theorem parts_inj {p q : String} (h : parts p = parts q) : p = q := by
  have htexts := congrArg (Text.joinWith '/') h
  unfold parts at htexts
  rw [Text.joinWith_split, Text.joinWith_split] at htexts
  exact String.toList_injective htexts

private theorem parts_of_absolute {p : String} (h : isAbsolute p = true) :
    ∃ rest, parts p = [] :: rest := by
  unfold isAbsolute at h
  cases hp : p.toList with
  | nil => simp [hp] at h
  | cons c rest =>
    have hc : c = '/' := by simpa [hp] using h
    exact ⟨Text.split '/' rest, by rw [parts, hp, Text.split, if_pos hc]⟩

theorem isAbsolute_of_parts {p : String} {first : List Char} {rest : List (List Char)}
    (h : parts p = first :: rest) (hfirst : first ≠ []) : isAbsolute p = false := by
  rw [Bool.eq_false_iff]
  intro habsolute
  obtain ⟨others, hothers⟩ := parts_of_absolute habsolute
  rw [h] at hothers
  exact hfirst (List.cons.inj hothers).1

section Name

variable {name : String}

private theorem parts_of_name (h : '/' ∉ name.toList) : parts name = [name.toList] :=
  Text.split_of_notMem h

theorem parts_join_name (h : '/' ∉ name.toList) (hne : name.toList ≠ []) (base : String) :
    parts (join base name) = front base ++ [name.toList] := by
  have hparts := parts_of_name h
  rw [parts_join (isAbsolute_of_parts hparts hne), hparts]

theorem front_join_name (h : '/' ∉ name.toList) (hne : name.toList ≠ []) (base : String) :
    front (join base name) = front base ++ [name.toList] := by
  have hparts := parts_join_name h hne base
  rw [front_of_parts hparts hne, hparts]

private theorem front_foldl_join {names : List String}
    (h : ∀ name ∈ names, '/' ∉ name.toList ∧ name.toList ≠ []) (base : String) :
    front (names.foldl join base) = front base ++ names.map String.toList := by
  induction names generalizing base with
  | nil => simp
  | cons name rest ih =>
    obtain ⟨hslash, hne⟩ := h name List.mem_cons_self
    have hrest := ih (fun n hn => h n (List.mem_cons_of_mem _ hn)) (join base name)
    rw [List.foldl_cons, hrest, front_join_name hslash hne, List.map_cons, List.append_assoc,
      List.singleton_append]

theorem parts_foldl_join {names : List String} (hne : names ≠ [])
    (h : ∀ name ∈ names, '/' ∉ name.toList ∧ name.toList ≠ []) :
    parts (names.foldl join "") = names.map String.toList := by
  obtain ⟨before, last, rfl⟩ := (List.eq_nil_or_concat' names).resolve_left hne
  obtain ⟨hslash, hlast⟩ := h last (by simp)
  have hbefore := front_foldl_join (fun name hname => h name (List.mem_append_left _ hname)) ""
  have hempty : front "" = [] := rfl
  rw [hempty, List.nil_append] at hbefore
  rw [List.foldl_append, List.foldl_cons, List.foldl_nil, parts_join_name hslash hlast, hbefore,
    List.map_append, List.map_singleton]

end Name

def IsName (part : List Char) : Prop := part ≠ [] ∧ part ≠ ['.'] ∧ part ≠ ['.', '.']

private theorem dropIdle_of_isName {part : List Char} (h : IsName part) (absolute : Bool)
    (rest : List (List Char)) : dropIdle absolute (part :: rest) = part :: rest := by
  cases rest <;> simp [dropIdle, h.1, h.2.1]

private theorem slash_notMem_of_mem_parts {p : String} {part : List Char} (h : part ∈ parts p) :
    '/' ∉ part :=
  Text.notMem_of_mem_split h

/-- A path whose last two parts are names lies in the directory that the parts before the last one
lead to. -/
theorem parent?_of_parts {p : String} {before : List (List Char)} {directory name : List Char}
    (h : parts p = before ++ [directory, name]) (hdirectory : IsName directory)
    (hname : IsName name) : ∃ q, parent? p = some q ∧ parts q = before ++ [directory] := by
  have hslash : ∀ part ∈ before ++ [directory], '/' ∉ part := by
    intro part hpart
    apply slash_notMem_of_mem_parts (p := p)
    rw [h]
    simp only [List.mem_append, List.mem_cons, List.not_mem_nil, or_false] at hpart ⊢
    tauto
  have hjoined : ∀ inner, (∀ part ∈ inner ++ [directory], '/' ∉ part) →
      Text.split '/' (Text.joinWith '/' (inner ++ [directory])) = inner ++ [directory] :=
    fun inner hinner => Text.split_joinWith (by simp) hinner
  cases habsolute : isAbsolute p with
  | false =>
    have hsignificant : significant p = name :: directory :: before.reverse := by
      simp [significant, habsolute, h, dropIdle_of_isName hname]
    refine ⟨_, by rw [parent?, hsignificant], ?_⟩
    simpa [habsolute, dropIdle_of_isName hdirectory, ofReversed, parts] using hjoined before hslash
  | true =>
    obtain ⟨rest, hrest⟩ := parts_of_absolute habsolute
    -- The empty part in front of the first slash is none of the last two.
    obtain ⟨inner, rfl⟩ : ∃ inner, before = [] :: inner := by
      cases before with
      | nil =>
        rw [h, List.nil_append] at hrest
        exact absurd (List.cons.inj hrest).1 hdirectory.1
      | cons first inner =>
        rw [h, List.cons_append] at hrest
        exact ⟨inner, by rw [(List.cons.inj hrest).1]⟩
    have hsignificant : significant p = name :: directory :: inner.reverse := by
      simp [significant, habsolute, h, dropIdle_of_isName hname]
    have hinner := hjoined inner fun part hpart => hslash part (List.mem_cons_of_mem _ hpart)
    refine ⟨_, by rw [parent?, hsignificant], ?_⟩
    simpa [habsolute, dropIdle_of_isName hdirectory, ofReversed, parts, Text.split] using hinner

section Idle

variable {absolute : Bool} {reversed : List (List Char)}

private theorem exists_idle (absolute : Bool) (reversed : List (List Char)) :
    ∃ idle, reversed = idle ++ dropIdle absolute reversed ∧
      ∀ part ∈ idle, part = [] ∨ part = ['.'] := by
  fun_induction dropIdle absolute reversed with
  | case1 => exact ⟨[], rfl, by simp⟩
  | case2 part hidle => exact ⟨[part], rfl, by simpa using hidle.imp_right And.right⟩
  | case3 part hidle => exact ⟨[], rfl, by simp⟩
  | case4 part next rest hidle ih =>
    obtain ⟨idle, hsplit, hall⟩ := ih
    exact ⟨part :: idle, by rw [List.cons_append, ← hsplit], List.forall_mem_cons.mpr ⟨hidle, hall⟩⟩
  | case5 part next rest hidle => exact ⟨[], rfl, by simp⟩

private theorem dropIdle_ne_nil_head {part : List Char} {rest : List (List Char)}
    (h : dropIdle absolute reversed = part :: rest) : part ≠ [] := by
  fun_induction dropIdle absolute reversed with
  | case1 => cases h
  | case2 => cases h
  | case3 last hnamed =>
    obtain ⟨rfl, -⟩ := List.cons.inj h
    exact fun hempty => hnamed (.inl hempty)
  | case4 last next more hidle ih => exact ih h
  | case5 last next more hnamed =>
    obtain ⟨rfl, -⟩ := List.cons.inj h
    exact fun hempty => hnamed (.inl hempty)

def rootParts (absolute : Bool) : List (List Char) := if absolute then [[]] else []

private theorem exists_parts_eq (p : String) :
    ∃ idle, parts p = rootParts (isAbsolute p) ++ ((significant p).reverse ++ idle) ∧
      ∀ part ∈ idle, part = [] ∨ part = ['.'] := by
  cases habsolute : isAbsolute p with
  | false =>
    obtain ⟨idle, hsplit, hall⟩ := exists_idle false (parts p).reverse
    refine ⟨idle.reverse, ?_, fun part hpart => hall part (List.mem_reverse.mp hpart)⟩
    have hparts := congrArg List.reverse hsplit
    rw [List.reverse_reverse, List.reverse_append] at hparts
    simpa [significant, habsolute, rootParts] using hparts
  | true =>
    obtain ⟨rest, hrest⟩ := parts_of_absolute habsolute
    obtain ⟨idle, hsplit, hall⟩ := exists_idle true rest.reverse
    refine ⟨idle.reverse, ?_, fun part hpart => hall part (List.mem_reverse.mp hpart)⟩
    have hparts := congrArg List.reverse hsplit
    rw [List.reverse_reverse, List.reverse_append] at hparts
    simpa [significant, habsolute, rootParts, hrest] using hparts

private theorem front_ofReversed (hslash : ∀ part ∈ reversed, '/' ∉ part)
    (hlast : ∀ part rest, reversed = part :: rest → part ≠ []) :
    front (ofReversed absolute reversed) = rootParts absolute ++ reversed.reverse := by
  cases reversed with
  | nil => cases absolute <;> decide
  | cons part rest =>
    have hsplit : Text.split '/' (Text.joinWith '/' (rest.reverse ++ [part])) =
        rest.reverse ++ [part] :=
      Text.split_joinWith (by simp) fun q hq => hslash q (by simp at hq ⊢; tauto)
    have hparts : parts (ofReversed absolute (part :: rest)) =
        (rootParts absolute ++ rest.reverse) ++ [part] := by
      cases absolute <;> simp [parts, ofReversed, rootParts, hsplit, Text.split]
    rw [front_of_parts hparts (hlast part rest rfl), hparts, List.reverse_cons, List.append_assoc]

/-- A path puts what stands behind the last part that it names behind the parts of the directory it
lies in, with parts that say nothing before. -/
theorem exists_parts_eq_front {p : String} {part : List Char} {rest : List (List Char)}
    (h : significant p = part :: rest) :
    ∃ idle behind, parts p =
        front (ofReversed (isAbsolute p) (dropIdle (isAbsolute p) rest)) ++
          (idle ++ part :: behind) ∧
      ∀ q ∈ idle, q = [] ∨ q = ['.'] := by
  obtain ⟨behind, hparts, -⟩ := exists_parts_eq p
  obtain ⟨idle, hrest, hidle⟩ := exists_idle (isAbsolute p) rest
  generalize hkept : dropIdle (isAbsolute p) rest = kept at hrest
  have hfront : front (ofReversed (isAbsolute p) kept) =
      rootParts (isAbsolute p) ++ kept.reverse := by
    apply front_ofReversed
    · intro q hq
      apply slash_notMem_of_mem_parts (p := p)
      simp [hparts, h, hrest, hq]
    · rintro q more rfl
      exact dropIdle_ne_nil_head hkept
  refine ⟨idle.reverse, behind, ?_, fun q hq => hidle q (List.mem_reverse.mp hq)⟩
  rw [hparts, h, hfront, hrest]
  simp

end Idle

end Path

end NativeBindings
