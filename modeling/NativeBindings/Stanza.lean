import NativeBindings.Category
import NativeBindings.HostName
import NativeBindings.KeepFirst

set_option autoImplicit false
set_option relaxedAutoImplicit false

/-!
The functions of a module before they are printed: every type has its entry, every name its host
name. A function whose host name is taken already is left out.
-/

namespace NativeBindings

structure StanzaParameter where
  hostName : String
  type : NativeType
  entry : TypeEntry

structure Stanza where
  signature : Signature
  hostName : String
  callee : String
  parameters : List StanzaParameter
  returnType : NativeType
  returnEntry : TypeEntry

namespace Stanza

def parameter (table : TypeTable) (function : String) (p : String × NativeType) :
    Except UnmappedType StanzaParameter :=
  (table.resolve p.2 function).map fun e => ⟨HostName.ofParameter p.1, p.2, e⟩

/-- The function of a signature; the parameters are looked up before the returned type. -/
def ofSignature (category : Category) (table : TypeTable) (s : Signature) :
    Except UnmappedType Stanza := do
  let hostName ← HostName.ofSignature table s
  let parameters ← s.explicits.mapM (parameter table s.name)
  let returnEntry ← table.resolve s.returns.type s.name
  return ⟨s, hostName, category.callPrefix ++ s.name, parameters, s.returns.type, returnEntry⟩

def entries (s : Stanza) : List TypeEntry := s.returnEntry :: s.parameters.map (·.entry)

end Stanza

/-- The functions of a module, and those left out because their host name was taken. -/
structure Lowered where
  stanzas : List Stanza
  skipped : List Stanza

/-- The functions of signatures. The first unmapped type fails the whole module, even if its
function would be left out. -/
def lower (category : Category) (table : TypeTable) (signatures : List Signature) :
    Except UnmappedType Lowered :=
  (signatures.mapM (Stanza.ofSignature category table)).map fun all =>
    ⟨keepFirst Stanza.hostName all, repeated Stanza.hostName all⟩

end NativeBindings
