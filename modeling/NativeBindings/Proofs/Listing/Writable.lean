import NativeBindings.Proofs.Listing.Writing

set_option autoImplicit false
set_option relaxedAutoImplicit false

/-!
Every listing can be written in both formats, as long as its default values can. Main statement: the
listings whose default values are truth values, 64 bit integers or texts have a text in each format.
-/

namespace NativeBindings

/-- A default value that both formats can write. -/
def DefaultValue.Writable : DefaultValue → Prop
  | .bool _ => True
  | .int n => -(2 ^ 63) ≤ n ∧ n < 2 ^ 63
  | .text _ => True
  | .float _ => False

/-- The default values of a declaration can be written in both formats. -/
def Listing.Writable (l : Listing) : Prop :=
  ∀ a ∈ l.arguments, ∀ v ∈ a.defaultValue, v.Writable

namespace Writing

variable {f : Format}

/-! Strings. -/

private theorem hexadecimal_small {n : Nat} (h : n < 128) :
    Hexadecimal 4 n ['0', '0', (n / 16).digitChar, (n % 16).digitChar] := by
  have hall : ∀ n < 128, Toml.hexNumber? ['0', '0', (n / 16).digitChar, (n % 16).digitChar] =
      some n := by decide
  exact ⟨rfl, hall n h⟩

private theorem exists_charWritten (f : Format) (c : Char) : ∃ w, CharWritten f c w := by
  by_cases hescape : mustEscape f c
  · by_cases hletter : c = '"' ∨ c = '\\'
    · rcases hletter with rfl | rfl
      · exact ⟨_, .letter (l := '"') (by decide)⟩
      · exact ⟨_, .letter (l := '\\') (by decide)⟩
    · have hsmall : c.toNat < 128 := by
        obtain ⟨hquote, hbackslash⟩ := not_or.mp hletter
        cases f with
        | json =>
          obtain hcontrol := (hescape.resolve_left hquote).resolve_left hbackslash
          omega
        | toml =>
          rcases ((hescape.resolve_left hquote).resolve_left hbackslash).2 with hcontrol | rfl
          · omega
          · decide
      exact ⟨_, .codePoint (hexadecimal_small hsmall)⟩
  · exact ⟨[c], .plain hescape⟩

theorem exists_textWritten (f : Format) (s : String) : ∃ w, TextWritten f s w := by
  have hpieces : ∀ cs : List Char, ∃ pieces, List.Forall₂ (CharWritten f) cs pieces := by
    intro cs
    induction cs with
    | nil => exact ⟨[], .nil⟩
    | cons c rest ih =>
      obtain ⟨piece, hpiece⟩ := exists_charWritten f c
      obtain ⟨pieces, hrest⟩ := ih
      exact ⟨piece :: pieces, .cons hpiece hrest⟩
  obtain ⟨pieces, hwritten⟩ := hpieces s.toList
  exact ⟨_, pieces, hwritten, rfl⟩

theorem textWritten_plain {s : String} (h : ∀ c ∈ s.toList, ¬ mustEscape f c) :
    TextWritten f s ('"' :: (s.toList ++ ['"'])) := by
  have hpieces : List.Forall₂ (CharWritten f) s.toList (s.toList.map fun c => [c]) := by
    rw [List.forall₂_map_right_iff, List.forall₂_same]
    exact fun c hc => .plain (h c hc)
  refine ⟨_, hpieces, ?_⟩
  rw [← List.flatMap_def, List.flatMap_singleton']

private theorem exists_defaultWritten {v : DefaultValue} (h : v.Writable) :
    ∃ w, DefaultWritten f v w := by
  cases v with
  | bool b => exact ⟨_, rfl⟩
  | int n => exact ⟨_, h.1, h.2, rfl⟩
  | text s => exact exists_textWritten f s
  | float x => exact absurd h id

/-! Lists and tables. -/

private theorem exists_separated {α : Type} {gaps : List Char} {Item : α → List Char → Prop} {x : α}
    {xs : List α} (h : ∀ y ∈ x :: xs, ∃ w, Item y w) : ∃ w, Separated gaps Item (x :: xs) w := by
  induction xs generalizing x with
  | nil =>
    obtain ⟨w, hw⟩ := h x List.mem_cons_self
    exact ⟨_, .last (List.nil_subset gaps) hw (List.nil_subset gaps)⟩
  | cons y ys ih =>
    obtain ⟨⟨w, hw⟩, hrest⟩ := List.forall_mem_cons.mp h
    obtain ⟨body, hbody⟩ := ih hrest
    exact ⟨_, .more (List.nil_subset gaps) hw (List.nil_subset gaps) hbody⟩

private theorem exists_enclosed {α : Type} {opening closing : Char} {gaps : List Char}
    {Item : α → List Char → Prop} {xs : List α} (h : ∀ x ∈ xs, ∃ w, Item x w) :
    ∃ w, Enclosed opening closing gaps Item xs w := by
  cases xs with
  | nil => exact ⟨_, .empty (List.nil_subset gaps)⟩
  | cons x rest =>
    obtain ⟨body, hbody⟩ := exists_separated h
    exact ⟨_, .items hbody⟩

theorem memberWritten_quoted {m : Member} (hkey : ∀ c ∈ m.key.toList, ¬ mustEscape f c)
    {value : List Char} (h : m.Value value) :
    MemberWritten f m ('"' :: (m.key.toList ++ ['"']) ++ ([] ++ keySign f :: ([] ++ value))) :=
  ⟨_, [], [], value, .inl (textWritten_plain hkey), List.nil_subset _, List.nil_subset _, h, rfl⟩

theorem memberWritten_bare {m : Member} (hne : m.key ≠ "")
    (hkey : ∀ c ∈ m.key.toList, Toml.isKeyChar c = true) {value : List Char} (h : m.Value value) :
    MemberWritten .toml m (m.key.toList ++ ([] ++ '=' :: ([] ++ value))) :=
  ⟨_, [], [], value, .inr ⟨rfl, hne, hkey, rfl⟩, List.nil_subset _, List.nil_subset _, h, rfl⟩

private theorem exists_memberWritten {m : Member} (h : ∃ w, m.Value w) :
    ∃ w, MemberWritten f m w := by
  obtain ⟨key, hkey⟩ := exists_textWritten f m.key
  obtain ⟨value, hvalue⟩ := h
  exact ⟨_, key, [], [], value, .inl hkey, List.nil_subset _, List.nil_subset _, hvalue, rfl⟩

private theorem exists_tableWritten {ms : List Member} (h : ∀ m ∈ ms, ∃ w, m.Value w) :
    ∃ w, TableWritten f ms w :=
  exists_enclosed fun m hm => exists_memberWritten (h m hm)

theorem ordered_self (f : Format) (known : List String) (own : List Member) :
    Ordered f known own own :=
  ⟨[], List.nodup_nil, by simp, by simp⟩

/-! Records. -/

private theorem exists_argumentWritten {a : ListedArgument} (h : ∀ v ∈ a.defaultValue, v.Writable) :
    ∃ w, ArgumentWritten f a w := by
  have hmembers : ∀ m ∈ argumentMembers f a, ∃ w, m.Value w := by
    intro m hm
    simp only [argumentMembers, List.mem_append, List.mem_cons, List.not_mem_nil, or_false,
      List.mem_map, Option.mem_toList] at hm
    rcases hm with (rfl | rfl) | ⟨v, hv, rfl⟩
    · exact exists_textWritten f a.name
    · exact exists_textWritten f a.type
    · exact exists_defaultWritten (h v hv)
  obtain ⟨w, hw⟩ := exists_tableWritten hmembers
  exact ⟨w, _, ordered_self f _ _, hw⟩

private theorem exists_returnWritten (r : ListedReturn) : ∃ w, ReturnWritten f r w := by
  have hmembers : ∀ m ∈ returnMembers f r, ∃ w, m.Value w := by
    intro m hm
    simp only [returnMembers, List.mem_append, List.mem_singleton, List.mem_map,
      Option.mem_toList] at hm
    rcases hm with ⟨name, -, rfl⟩ | rfl
    · exact exists_textWritten f name
    · exact exists_textWritten f r.type
  obtain ⟨w, hw⟩ := exists_tableWritten hmembers
  exact ⟨w, _, ordered_self f _ _, hw⟩

private theorem exists_listingOrdered {l : Listing} (h : l.Writable) :
    ∃ order, ListingOrdered f l order ∧ ∀ m ∈ order, ∃ w, m.Value w := by
  refine ⟨_, ⟨_, _, _, .inl rfl, .inl rfl, .inl rfl, ordered_self f _ _⟩, ?_⟩
  have harguments : ∃ w, ListWritten f (ArgumentWritten f) l.arguments w :=
    exists_enclosed fun a ha => exists_argumentWritten (h a ha)
  have hreturns : ∃ w, ListWritten f (ReturnWritten f) l.returns w :=
    exists_enclosed fun r _ => exists_returnWritten r
  have hmethods : ∃ w, ListWritten f (TextWritten f) l.methodOf w :=
    exists_enclosed fun s _ => exists_textWritten f s
  intro m hm
  simp only [scalarMembers, List.mem_append, List.mem_cons, List.not_mem_nil, or_false,
    List.mem_map, Option.mem_toList] at hm
  rcases hm with ((rfl | rfl) | ⟨name, -, rfl⟩ | ⟨b, -, rfl⟩) | rfl | rfl | rfl
  · exact exists_textWritten f l.name
  · exact exists_textWritten f l.mode.word
  · exact exists_textWritten f name
  · exact ⟨_, rfl⟩
  · exact harguments
  · exact hreturns
  · exact hmethods

/-! Whole texts. -/

theorem exists_jsonWritten {ls : List Listing} (h : ∀ l ∈ ls, l.Writable) :
    ∃ w, JsonWritten ls w := by
  have hitems : ∀ l ∈ ls, ∃ w, ∃ order, ListingOrdered .json l order ∧
      TableWritten .json order w := by
    intro l hl
    obtain ⟨order, hordered, hmembers⟩ := exists_listingOrdered (f := .json) (h l hl)
    obtain ⟨w, hw⟩ := exists_tableWritten hmembers
    exact ⟨w, order, hordered, hw⟩
  obtain ⟨body, hbody⟩ := exists_enclosed hitems
  exact ⟨_, [], body, [], List.nil_subset _, List.nil_subset _, hbody, rfl⟩

theorem exists_linesWritten {ms : List Member} (h : ∀ m ∈ ms, ∃ w, m.Value w) :
    ∃ w, LinesWritten ms w := by
  induction ms with
  | nil => exact ⟨[], .nil⟩
  | cons m rest ih =>
    obtain ⟨hm, hrest⟩ := List.forall_mem_cons.mp h
    obtain ⟨w, hw⟩ := exists_memberWritten (f := .toml) hm
    obtain ⟨lines, hlines⟩ := ih hrest
    exact ⟨_, .cons (List.nil_subset _) hw (List.nil_subset _) hlines⟩

private theorem exists_tablesWritten {ls : List Listing} (h : ∀ l ∈ ls, l.Writable) :
    ∃ w, TablesWritten ls w := by
  induction ls with
  | nil => exact ⟨[], .nil (List.nil_subset _)⟩
  | cons l rest ih =>
    obtain ⟨hl, hrest⟩ := List.forall_mem_cons.mp h
    obtain ⟨order, hordered, hmembers⟩ := exists_listingOrdered (f := .toml) hl
    obtain ⟨lines, hlines⟩ := exists_linesWritten hmembers
    obtain ⟨w, hw⟩ := ih hrest
    exact ⟨_, .cons (List.nil_subset _) (List.nil_subset _) hordered hlines hw⟩

theorem exists_tomlWritten {ls : List Listing} (h : ∀ l ∈ ls, l.Writable) :
    ∃ w, TomlWritten ls w := by
  obtain ⟨tables, htables⟩ := exists_tablesWritten h
  exact ⟨_, [], [], tables, ordered_self .toml _ [], .nil, htables, rfl⟩

end Writing

end NativeBindings
