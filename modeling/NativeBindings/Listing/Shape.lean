import NativeBindings.Listing
import NativeBindings.Listing.Mismatch

set_option autoImplicit false
set_option relaxedAutoImplicit false

/-!
The shapes of the records of a specification, independent of the format they are written in. A
record is collected field by field into a draft; a field that is absent takes the value its shape
gives it, or is missed.
-/

namespace NativeBindings

structure Shape (Record : Type) where
  Field : Type
  [fieldDecidableEq : DecidableEq Field]
  Value : Field → Type
  title : String
  fields : List Field
  key : Field → String
  /-- The value of a field that is absent; a required field has none. -/
  absent : (f : Field) → Option (Value f)
  assemble : ((f : Field) → Except Mismatch (Value f)) → Except Mismatch Record

namespace Shape

variable {Record : Type} (S : Shape Record)

instance : DecidableEq S.Field := S.fieldDecidableEq

def field? (key : String) : Option S.Field := S.fields.find? fun f => S.key f = key

def Draft : Type := (f : S.Field) → Option (S.Value f)

def emptyDraft : S.Draft := fun _ => none

variable {S}

def Draft.set (d : S.Draft) (f : S.Field) (v : S.Value f) : S.Draft := fun g =>
  if h : f = g then some (h ▸ v) else d g

@[simp] theorem Draft.set_same (d : S.Draft) (f : S.Field) (v : S.Value f) :
    d.set f v f = some v := by
  simp [Draft.set]

theorem Draft.set_of_ne (d : S.Draft) {f g : S.Field} (v : S.Value f) (h : f ≠ g) :
    d.set f v g = d g := by
  simp [Draft.set, h]

def Draft.value (d : S.Draft) (f : S.Field) : Except Mismatch (S.Value f) :=
  match d f, S.absent f with
  | some v, _ => .ok v
  | none, some v => .ok v
  | none, none => .error (.missingField (S.key f))

def Draft.complete (d : S.Draft) : Except Mismatch Record := S.assemble d.value

end Shape

namespace ListedArgument

inductive Field where
  | name
  | type
  | defaultValue
  deriving DecidableEq

def shape : Shape ListedArgument where
  Field := Field
  Value
    | .name => String
    | .type => String
    | .defaultValue => Option DefaultValue
  title := "struct RawArgument"
  fields := [.name, .type, .defaultValue]
  key
    | .name => "name"
    | .type => "type"
    | .defaultValue => "default"
  absent
    | .name => none
    | .type => none
    | .defaultValue => some none
  assemble value := do
    let name ← value .name
    let type ← value .type
    let defaultValue ← value .defaultValue
    return ⟨name, type, defaultValue⟩

end ListedArgument

namespace ListedReturn

inductive Field where
  | name
  | type
  deriving DecidableEq

def shape : Shape ListedReturn where
  Field := Field
  Value
    | .name => Option String
    | .type => String
  title := "struct RawReturn"
  fields := [.name, .type]
  key
    | .name => "name"
    | .type => "type"
  absent
    | .name => some none
    | .type => none
  assemble value := do
    let name ← value .name
    let type ← value .type
    return ⟨name, type⟩

end ListedReturn

namespace Listing

inductive Field where
  | name
  | overloadName
  | arguments
  | returns
  | mode
  | methodOf
  | isFactoryMethod
  deriving DecidableEq

def shape : Shape Listing where
  Field := Field
  Value
    | .name => String
    | .overloadName => Option String
    | .arguments => List ListedArgument
    | .returns => List ListedReturn
    | .mode => Mode
    | .methodOf => List String
    | .isFactoryMethod => Option Bool
  title := "struct RawDeclaration"
  fields := [.name, .overloadName, .arguments, .returns, .mode, .methodOf, .isFactoryMethod]
  key
    | .name => "name"
    | .overloadName => "overload_name"
    | .arguments => "arguments"
    | .returns => "returns"
    | .mode => "mode"
    | .methodOf => "method_of"
    | .isFactoryMethod => "is_factory_method"
  absent
    | .name => none
    | .overloadName => some none
    | .arguments => some []
    | .returns => some []
    | .mode => none
    | .methodOf => some []
    | .isFactoryMethod => some none
  assemble value := do
    let name ← value .name
    let overloadName ← value .overloadName
    let arguments ← value .arguments
    let returns ← value .returns
    let mode ← value .mode
    let methodOf ← value .methodOf
    let isFactoryMethod ← value .isFactoryMethod
    return ⟨name, overloadName, arguments, returns, mode, methodOf, isFactoryMethod⟩

end Listing

end NativeBindings
