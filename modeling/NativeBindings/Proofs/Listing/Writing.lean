import Mathlib.Algebra.Group.Int.Defs
import Mathlib.Data.List.Forall2
import NativeBindings.Specification

set_option autoImplicit false
set_option relaxedAutoImplicit false

/-!
How listings are written in the two formats: as objects of a JSON list, and as TOML tables with
braced tables in them. The fields of a record stand in any order, absent ones are left out, and
other fields with texts may stand among them.
-/

namespace NativeBindings.Writing

def spaces : Format → List Char
  | .json => [' ', '\t', '\n', '\r']
  | .toml => [' ', '\t']

def listSpaces : Format → List Char
  | .json => spaces .json
  | .toml => '\n' :: spaces .toml

/-- Items with commas between them and white space around each. -/
inductive Separated {α : Type} (gaps : List Char) (Item : α → List Char → Prop) :
    List α → List Char → Prop
  | last {x : α} {before w behind : List Char} :
      before ⊆ gaps → Item x w → behind ⊆ gaps → Separated gaps Item [x] (before ++ (w ++ behind))
  | more {x : α} {xs : List α} {before w behind body : List Char} :
      before ⊆ gaps → Item x w → behind ⊆ gaps → Separated gaps Item xs body →
      Separated gaps Item (x :: xs) (before ++ (w ++ (behind ++ ',' :: body)))

inductive Enclosed {α : Type} (opening closing : Char) (gaps : List Char)
    (Item : α → List Char → Prop) : List α → List Char → Prop
  | empty {gap : List Char} :
      gap ⊆ gaps → Enclosed opening closing gaps Item [] (opening :: (gap ++ [closing]))
  | items {xs : List α} {body : List Char} :
      Separated gaps Item xs body →
      Enclosed opening closing gaps Item xs (opening :: (body ++ [closing]))

/-! Strings. -/

/-- A character that cannot stand in a string as it is. -/
def mustEscape : Format → Char → Prop
  | .json, c => c = '"' ∨ c = '\\' ∨ c.toNat < 32
  | .toml, c => c = '"' ∨ c = '\\' ∨ c ≠ '\t' ∧ (c.toNat < 32 ∨ c = '\x7f')

instance decidableMustEscape (f : Format) : DecidablePred (mustEscape f) := fun c =>
  match f with
  | .json => inferInstanceAs (Decidable (c = '"' ∨ c = '\\' ∨ c.toNat < 32))
  | .toml =>
    inferInstanceAs (Decidable (c = '"' ∨ c = '\\' ∨ c ≠ '\t' ∧ (c.toNat < 32 ∨ c = '\x7f')))

/-- The letters that stand for a character behind a backslash, in either format. -/
def letterEscapes : List (Char × Char) :=
  [('"', '"'), ('\\', '\\'), ('b', '\x08'), ('f', '\x0c'), ('n', '\n'), ('r', '\r'), ('t', '\t')]

def Hexadecimal (count n : Nat) (digits : List Char) : Prop :=
  digits.length = count ∧ Toml.hexNumber? digits = some n

/-- A character as it is written in a string. -/
inductive CharWritten (f : Format) (c : Char) : List Char → Prop
  | plain : ¬ mustEscape f c → CharWritten f c [c]
  | letter {l : Char} : (l, c) ∈ letterEscapes → CharWritten f c ['\\', l]
  | codePoint {digits : List Char} :
      Hexadecimal 4 c.toNat digits → CharWritten f c ('\\' :: 'u' :: digits)
  /-- JSON writes a character beyond four digits as two halves. -/
  | pair {high low : Nat} {first second : List Char} :
      f = .json → Json.isHighSurrogate high = true → Json.isLowSurrogate low = true →
      c.toNat = 0x10000 + (high - 0xD800) * 0x400 + (low - 0xDC00) →
      Hexadecimal 4 high first → Hexadecimal 4 low second →
      CharWritten f c ('\\' :: 'u' :: (first ++ '\\' :: 'u' :: second))
  /-- TOML writes a character beyond four digits with eight of them. -/
  | wide {digits : List Char} :
      f = .toml → Hexadecimal 8 c.toNat digits → CharWritten f c ('\\' :: 'U' :: digits)

/-- A text in quotes, each character written in one of its ways. -/
def TextWritten (f : Format) (s : String) (w : List Char) : Prop :=
  ∃ pieces, List.Forall₂ (CharWritten f) s.toList pieces ∧ w = '"' :: (pieces.flatten ++ ['"'])

/-! Values without parts. -/

def BoolWritten (b : Bool) (w : List Char) : Prop := w = (if b then "true" else "false").toList

/-- A default value that both formats can write. Integers are signed ones of 64 bits. -/
def DefaultWritten (f : Format) : DefaultValue → List Char → Prop
  | .bool b, w => BoolWritten b w
  | .int n, w => -(2 ^ 63) ≤ n ∧ n < 2 ^ 63 ∧ w = (toString n).toList
  | .text s, w => TextWritten f s w
  | .float _, _ => False

/-! Tables. -/

structure Member where
  key : String
  Value : List Char → Prop

def keySign : Format → Char
  | .json => ':'
  | .toml => '='

/-- A key in quotes; in TOML it may also stand bare. -/
def KeyWritten (f : Format) (key : String) (w : List Char) : Prop :=
  TextWritten f key w ∨
    f = .toml ∧ key ≠ "" ∧ (∀ c ∈ key.toList, Toml.isKeyChar c = true) ∧ w = key.toList

def MemberWritten (f : Format) (m : Member) (w : List Char) : Prop :=
  ∃ key before behind value, KeyWritten f m.key key ∧ before ⊆ spaces f ∧ behind ⊆ spaces f ∧
    m.Value value ∧ w = key ++ (before ++ keySign f :: (behind ++ value))

def TableWritten (f : Format) (ms : List Member) (w : List Char) : Prop :=
  Enclosed '\x7b' '\x7d' (spaces f) (MemberWritten f) ms w

def ListWritten {α : Type} (f : Format) (Item : α → List Char → Prop) (xs : List α)
    (w : List Char) : Prop :=
  Enclosed '[' ']' (listSpaces f) Item xs w

/-- The members of a record in some order, with others among them that hold texts and whose names
are distinct and unknown. -/
def Ordered (f : Format) (known : List String) (own order : List Member) : Prop :=
  ∃ extras : List (String × String), (extras.map Prod.fst).Nodup ∧ (∀ e ∈ extras, e.1 ∉ known) ∧
    order.Perm (own ++ extras.map fun e => ⟨e.1, TextWritten f e.2⟩)

/-! Records. -/

def argumentMembers (f : Format) (a : ListedArgument) : List Member :=
  [⟨"name", TextWritten f a.name⟩, ⟨"type", TextWritten f a.type⟩] ++
    a.defaultValue.toList.map fun v => ⟨"default", DefaultWritten f v⟩

def ArgumentWritten (f : Format) (a : ListedArgument) (w : List Char) : Prop :=
  ∃ order, Ordered f ["name", "type", "default"] (argumentMembers f a) order ∧
    TableWritten f order w

def returnMembers (f : Format) (r : ListedReturn) : List Member :=
  r.name.toList.map (fun name => ⟨"name", TextWritten f name⟩) ++ [⟨"type", TextWritten f r.type⟩]

def ReturnWritten (f : Format) (r : ListedReturn) (w : List Char) : Prop :=
  ∃ order, Ordered f ["name", "type"] (returnMembers f r) order ∧ TableWritten f order w

/-- A member that holds a list; an empty one may be left out. -/
def ListMember {α : Type} (f : Format) (key : String) (Item : α → List Char → Prop) (xs : List α)
    (ms : List Member) : Prop :=
  ms = [⟨key, ListWritten f Item xs⟩] ∨ xs = [] ∧ ms = []

def listingKeys : List String :=
  ["name", "overload_name", "arguments", "returns", "mode", "method_of", "is_factory_method"]

def scalarMembers (f : Format) (l : Listing) : List Member :=
  [⟨"name", TextWritten f l.name⟩, ⟨"mode", TextWritten f l.mode.word⟩] ++
    (l.overloadName.toList.map (fun name => ⟨"overload_name", TextWritten f name⟩) ++
      l.isFactoryMethod.toList.map fun b => ⟨"is_factory_method", BoolWritten b⟩)

def ListingOrdered (f : Format) (l : Listing) (order : List Member) : Prop :=
  ∃ arguments returns methods,
    ListMember f "arguments" (ArgumentWritten f) l.arguments arguments ∧
    ListMember f "returns" (ReturnWritten f) l.returns returns ∧
    ListMember f "method_of" (TextWritten f) l.methodOf methods ∧
    Ordered f listingKeys (scalarMembers f l ++ (arguments ++ (returns ++ methods))) order

/-! Whole texts. -/

/-- A JSON text: a list of objects. -/
def JsonWritten (ls : List Listing) (w : List Char) : Prop :=
  ∃ before body behind, before ⊆ spaces .json ∧ behind ⊆ spaces .json ∧
    ListWritten .json (fun l v => ∃ order, ListingOrdered .json l order ∧
      TableWritten .json order v) ls body ∧ w = before ++ (body ++ behind)

/-- The members of an opened TOML table, each on its line. -/
inductive LinesWritten : List Member → List Char → Prop
  | nil : LinesWritten [] []
  | cons {m : Member} {ms : List Member} {before w behind rest : List Char} :
      before ⊆ listSpaces .toml → MemberWritten .toml m w → behind ⊆ spaces .toml →
      LinesWritten ms rest → LinesWritten (m :: ms) (before ++ (w ++ (behind ++ '\n' :: rest)))

/-- TOML tables for declarations, each opened by the same header. -/
inductive TablesWritten : List Listing → List Char → Prop
  | nil {gap : List Char} : gap ⊆ listSpaces .toml → TablesWritten [] gap
  | cons {l : Listing} {ls : List Listing} {order : List Member}
      {before behind lines rest : List Char} :
      before ⊆ listSpaces .toml → behind ⊆ spaces .toml → ListingOrdered .toml l order →
      LinesWritten order lines → TablesWritten ls rest →
      TablesWritten (l :: ls)
        (before ++ ("[[declarations]]".toList ++ (behind ++ '\n' :: (lines ++ rest))))

/-- A TOML text: tables for declarations, and in front of them members of the document with unknown
names. -/
def TomlWritten (ls : List Listing) (w : List Char) : Prop :=
  ∃ order lines tables, Ordered .toml ["declarations"] [] order ∧ LinesWritten order lines ∧
    TablesWritten ls tables ∧ w = lines ++ tables

end NativeBindings.Writing
