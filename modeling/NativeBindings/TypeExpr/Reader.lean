import NativeBindings.TypeExpr
import NativeBindings.TypeExpr.Token

set_option autoImplicit false
set_option relaxedAutoImplicit false

/-!
Reading a written C++ type. A type is an optional `const`, a name or an applied template, an
optional extent, and any number of `*`, `&` and `const`.
-/

namespace NativeBindings.TypeExpr

def firstSegment (name : String) : String :=
  String.ofList (name.toList.takeWhile (· ≠ ':'))

def dropExtent : List Token → List Token
  | .openBracket :: .closeBracket :: rest => rest
  | .openBracket :: .number _ :: .closeBracket :: rest => rest
  | ts => ts

def wrapModifiers (t : TypeExpr) : List Token → TypeExpr × List Token
  | .star :: rest => wrapModifiers (.ptr t) rest
  | .ampersand :: rest => wrapModifiers (.ref t) rest
  | .name n :: rest => if n = "const" then wrapModifiers t rest else (t, .name n :: rest)
  | ts => (t, ts)

/-- Splits off the name that a type is built on. A leading `const` is the qualifier, and what
follows it may be any name; without it a name must not begin with a `const` segment. -/
def takeHead : List Token → Option (String × List Token)
  | .name "const" :: .name n :: rest => some (n, rest)
  | .name n :: rest => if firstSegment n = "const" then none else some (n, rest)
  | _ => none

mutual

def readType : Nat → List Token → Option (TypeExpr × List Token)
  | 0, _ => none
  | fuel + 1, ts =>
    match takeHead ts with
    | none => none
    | some (n, .less :: rest) =>
      (readArgs fuel rest).map fun (args, rest) => wrapModifiers (.app n args) (dropExtent rest)
    | some (n, rest) => some (wrapModifiers (.name n) (dropExtent rest))

def readArgs : Nat → List Token → Option (List TypeArg × List Token)
  | 0, _ => none
  | fuel + 1, ts =>
    match readArg fuel ts with
    | some (a, .comma :: rest) => (readArgs fuel rest).map fun (args, rest) => (a :: args, rest)
    | some (a, .greater :: rest) => some ([a], rest)
    | _ => none

def readArg : Nat → List Token → Option (TypeArg × List Token)
  | _, .number n :: rest => some (.number n, rest)
  | 0, _ => none
  | fuel + 1, ts => (readType fuel ts).map fun (t, rest) => (.type t, rest)

end

/-- Reads a token list that is one whole type. Each token opens at most three levels of reading. -/
def ofTokens? (ts : List Token) : Option TypeExpr :=
  match readType (3 * ts.length + 1) ts with
  | some (t, []) => some t
  | _ => none

def read? (s : String) : Option TypeExpr :=
  (Token.scan s.toList).bind ofTokens?

end NativeBindings.TypeExpr
