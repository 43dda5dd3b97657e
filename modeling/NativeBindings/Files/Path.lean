import NativeBindings.Text.Split

set_option autoImplicit false
set_option relaxedAutoImplicit false

/-!
Paths as texts. Empty parts and parts that are a single point say nothing, except for a point at the
beginning of a relative path.
-/

namespace NativeBindings.Path

def isAbsolute (p : String) : Bool := p.toList.head? == some '/'

def join (base p : String) : String :=
  if isAbsolute p then p
  else
    match base.toList.getLast? with
    | none => p
    | some c => if c = '/' then base ++ p else base ++ "/" ++ p

def parts (p : String) : List (List Char) := Text.split '/' p.toList

/-- The parts of a path, the last one first, from the last that names something on; `absolute` tells
that the first part is the root and not written here. -/
def dropIdle (absolute : Bool) : List (List Char) → List (List Char)
  | [] => []
  | [part] => if part = [] ∨ (absolute = true ∧ part = ['.']) then [] else [part]
  | part :: next :: rest =>
    if part = [] ∨ part = ['.'] then dropIdle absolute (next :: rest) else part :: next :: rest

def significant (p : String) : List (List Char) :=
  if isAbsolute p then dropIdle true ((parts p).drop 1).reverse
  else dropIdle false (parts p).reverse

def ofReversed (absolute : Bool) (reversed : List (List Char)) : String :=
  String.ofList ((if absolute then ['/'] else []) ++ Text.joinWith '/' reversed.reverse)

/-- The path of the directory that a path lies in. The root and the empty path lie in none. -/
def parent? (p : String) : Option String :=
  match significant p with
  | [] => none
  | _ :: rest => some (ofReversed (isAbsolute p) (dropIdle (isAbsolute p) rest))

def fileName? (p : String) : Option (List Char) :=
  match significant p with
  | [] => none
  | part :: _ => if part = ['.'] ∨ part = ['.', '.'] then none else some part

/-- The extension of the last part of a path, behind its last point, if something stands in front of
that point. -/
def extension? (p : String) : Option (List Char) :=
  match fileName? p with
  | none => none
  | some name =>
    match (Text.split '.' name).reverse with
    | last :: before :: more =>
      if more = [] ∧ before = [] then none else some last
    | _ => none

end NativeBindings.Path
