import NativeBindings.HostModule.Managed
import NativeBindings.HostModule.Unmanaged

set_option autoImplicit false
set_option relaxedAutoImplicit false

/-!
The text of a module for a list of signatures.
-/

namespace NativeBindings

/-- The text of a module, with the functions in it and those left out. -/
structure RenderedModule where
  text : String
  stanzas : List Stanza
  skipped : List Stanza

def ModuleSpec.textOf (spec : ModuleSpec) (table : TypeTable) (stanzas : List Stanza) : String :=
  match spec.ownership with
  | .unmanaged => (HostModule.UnmanagedModule.ofStanzas spec table stanzas).text
  | .managed => (HostModule.ManagedModule.ofStanzas spec stanzas).text

def ModuleSpec.render (spec : ModuleSpec) (table : TypeTable) (signatures : List Signature) :
    Except UnmappedType RenderedModule :=
  (lower spec.category table signatures).map fun l =>
    ⟨spec.textOf table l.stanzas, l.stanzas, l.skipped⟩

end NativeBindings
