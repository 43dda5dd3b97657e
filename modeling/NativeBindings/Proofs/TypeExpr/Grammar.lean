import NativeBindings.TypeExpr

set_option autoImplicit false
set_option relaxedAutoImplicit false

/-!
The grammar of written types over characters, stated without a reader: `Denotes text t rest` says
that `text` begins with a spelling of the type `t` and goes on with `rest`. Blanks may stand between
any two words. A rule may stop anywhere; only names and numbers must be as long as they can be.
-/

namespace NativeBindings.TypeExpr.Grammar

/-- The text begins with spaces and tabs, or with none. -/
def Gap (text rest : List Char) : Prop :=
  ∃ blanks : List Char, (∀ c ∈ blanks, c = ' ' ∨ c = '\t') ∧ text = blanks ++ rest

def WordChar (c : Char) : Prop := c.isAlphanum = true ∨ c = '_'

instance (c : Char) : Decidable (WordChar c) :=
  inferInstanceAs (Decidable (c.isAlphanum = true ∨ c = '_'))

/-- The text begins with a word of a kind, and with no longer word of that kind. -/
structure Longest (kind : List Char → Prop) (word text rest : List Char) : Prop where
  isWord : kind word
  text_eq : text = word ++ rest
  longest : ∀ other, kind other → other <+: text → other.length ≤ word.length

/-- An identifier: a letter or an underscore, then letters, digits and underscores. -/
def Identifier (cs : List Char) : Prop :=
  ∃ c rest, cs = c :: rest ∧ (c.isAlpha = true ∨ c = '_') ∧ ∀ d ∈ rest, WordChar d

inductive QualifiedName : List Char → Prop
  | identifier {cs : List Char} : Identifier cs → QualifiedName cs
  | qualified {cs ds : List Char} :
      Identifier cs → QualifiedName ds → QualifiedName (cs ++ ':' :: ':' :: ds)

def Digits (cs : List Char) : Prop := cs ≠ [] ∧ ∀ c ∈ cs, c.isDigit = true

def NameWord (n : String) (text rest : List Char) : Prop :=
  Longest QualifiedName n.toList text rest

def NumberWord (value : Nat) (text rest : List Char) : Prop :=
  ∃ digits, Longest Digits digits text rest ∧ value = Nat.ofDigitChars 10 digits 0

/-- The text begins with `const`, and no letter, digit or underscore follows. -/
def ConstWord (text rest : List Char) : Prop :=
  text = "const".toList ++ rest ∧ ∀ c ∈ rest.head?, ¬ WordChar c

/-- What is between the brackets of an extent: nothing or a number of any size. -/
inductive ExtentSize : List Char → List Char → Prop
  | none {text : List Char} : ExtentSize text text
  | number {text a b : List Char} {value : Nat} :
      Gap text a → NumberWord value a b → ExtentSize text b

inductive OptionalExtent : List Char → List Char → Prop
  | none {text : List Char} : OptionalExtent text text
  | extent {text a b rest : List Char} :
      Gap text ('[' :: a) → ExtentSize a b → Gap b (']' :: rest) → OptionalExtent text rest

/-- `Modifiers inner text t rest`: the text begins with modifiers that make `t` of the type `inner`
before them. -/
inductive Modifiers : TypeExpr → List Char → TypeExpr → List Char → Prop
  | none {t : TypeExpr} {text : List Char} : Modifiers t text t text
  | pointer {inner t : TypeExpr} {text a rest : List Char} :
      Gap text ('*' :: a) → Modifiers (.ptr inner) a t rest → Modifiers inner text t rest
  | reference {inner t : TypeExpr} {text a rest : List Char} :
      Gap text ('&' :: a) → Modifiers (.ref inner) a t rest → Modifiers inner text t rest
  | const {inner t : TypeExpr} {text a b rest : List Char} :
      Gap text a → ConstWord a b → Modifiers inner b t rest → Modifiers inner text t rest

mutual

/-- A spelling of a type. A `const` at its beginning is the qualifier and never the name. -/
inductive Denotes : List Char → TypeExpr → List Char → Prop
  | qualified {text a b rest : List Char} {t : TypeExpr} :
      ConstWord text a → Gap a b → Unqualified b t rest → Denotes text t rest
  | plain {text rest : List Char} {t : TypeExpr} :
      (∀ a, ¬ ConstWord text a) → Unqualified text t rest → Denotes text t rest

/-- A spelling of a type behind its qualifier. -/
inductive Unqualified : List Char → TypeExpr → List Char → Prop
  | name {text a b rest : List Char} {n : String} {t : TypeExpr} :
      NameWord n text a → OptionalExtent a b → Modifiers (.name n) b t rest →
      Unqualified text t rest
  | template {text a b c d e f rest : List Char} {n : String} {args : List TypeArg}
      {t : TypeExpr} :
      NameWord n text a → Gap a ('<' :: b) → Gap b c → Arguments c args d → Gap d ('>' :: e) →
      OptionalExtent e f → Modifiers (.app n args) f t rest → Unqualified text t rest

/-- Arguments of a template, at least one, with commas between them. -/
inductive Arguments : List Char → List TypeArg → List Char → Prop
  | last {text rest : List Char} {arg : TypeArg} :
      Argument text arg rest → Arguments text [arg] rest
  | more {text a b c rest : List Char} {arg : TypeArg} {args : List TypeArg} :
      Argument text arg a → Gap a (',' :: b) → Gap b c → Arguments c args rest →
      Arguments text (arg :: args) rest

/-- An argument of a template: a number of 64 bits or a type. -/
inductive Argument : List Char → TypeArg → List Char → Prop
  | number {text rest : List Char} {value : Nat} :
      NumberWord value text rest → value < Nat.pow 2 64 → Argument text (.number value) rest
  | type {text rest : List Char} {t : TypeExpr} :
      Denotes text t rest → Argument text (.type t) rest

end

/-- A whole text that spells a type, blanks at both ends included. -/
def Spells (text : List Char) (t : TypeExpr) : Prop :=
  ∃ a b, Gap text a ∧ Denotes a t b ∧ Gap b []

end NativeBindings.TypeExpr.Grammar
