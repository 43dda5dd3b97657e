import NativeBindings.TypeExpr.Reader
import NativeBindings.TypeExpr.Expectation

set_option autoImplicit false
set_option relaxedAutoImplicit false

/-!
Reading a type text, with the reason of every refusal.
-/

namespace NativeBindings.TypeExpr

inductive Rejection where
  | unexpected (report : Expectation.Report)
  /-- The text fits the grammar, but a number in it does not fit 64 bits. -/
  | numberTooLarge

def Rejection.message (source : String) : Rejection → String
  | unexpected report => report.message source.toList
  | numberTooLarge => "number too large to fit in target type"

def parse (s : String) : Except Rejection TypeExpr :=
  match read? s with
  | none => .error (.unexpected (Expectation.report s.toList))
  | some t => if t.numbersBelow (Nat.pow 2 64) then .ok t else .error .numberTooLarge

end NativeBindings.TypeExpr
