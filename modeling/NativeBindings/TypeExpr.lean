set_option autoImplicit false
set_option relaxedAutoImplicit false

/-!
C++ types as they are written in declarations. Qualifiers and extents leave no trace in the tree;
`*` and `&` wrap what stands before them.
-/

namespace NativeBindings

mutual

inductive TypeExpr where
  | name (text : String)
  | app (head : String) (args : List TypeArg)
  | ptr (inner : TypeExpr)
  | ref (inner : TypeExpr)

inductive TypeArg where
  | type (expr : TypeExpr)
  | number (value : Nat)

end

mutual

/-- The printed form of a type: arguments separated by commas, `*` and `&` after a blank. -/
def TypeExpr.text : TypeExpr → String
  | .name n => n
  | .app n args => n ++ "<" ++ TypeArg.listText args ++ ">"
  | .ptr t => t.text ++ " *"
  | .ref t => t.text ++ " &"

def TypeArg.text : TypeArg → String
  | .type t => t.text
  | .number n => n.repr

def TypeArg.listText : List TypeArg → String
  | [] => ""
  | [a] => a.text
  | a :: b :: rest => a.text ++ "," ++ TypeArg.listText (b :: rest)

end

theorem TypeExpr.text_app (head : String) (args : List TypeArg) :
    (TypeExpr.app head args).text = head ++ "<" ++ TypeArg.listText args ++ ">" := rfl

theorem TypeExpr.text_ptr (t : TypeExpr) : (TypeExpr.ptr t).text = t.text ++ " *" := rfl

theorem TypeExpr.text_ref (t : TypeExpr) : (TypeExpr.ref t).text = t.text ++ " &" := rfl

theorem TypeArg.listText_cons (a b : TypeArg) (rest : List TypeArg) :
    TypeArg.listText (a :: b :: rest) = a.text ++ "," ++ TypeArg.listText (b :: rest) := rfl

mutual

def TypeExpr.numbersBelow (bound : Nat) : TypeExpr → Bool
  | .name _ => true
  | .app _ args => TypeArg.allBelow bound args
  | .ptr t => t.numbersBelow bound
  | .ref t => t.numbersBelow bound

def TypeArg.numbersBelow (bound : Nat) : TypeArg → Bool
  | .type t => t.numbersBelow bound
  | .number n => decide (n < bound)

def TypeArg.allBelow (bound : Nat) : List TypeArg → Bool
  | [] => true
  | a :: rest => a.numbersBelow bound && TypeArg.allBelow bound rest

end

end NativeBindings
