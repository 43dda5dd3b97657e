set_option autoImplicit false
set_option relaxedAutoImplicit false

/-!
The words of a written C++ type. Qualified names and numbers are taken as long as possible; blanks
(spaces and tabs) separate tokens and are otherwise free.
-/

namespace NativeBindings.TypeExpr

inductive Token where
  | name (text : String)
  | number (value : Nat)
  | less
  | greater
  | comma
  | star
  | ampersand
  | openBracket
  | closeBracket
  deriving DecidableEq

def isBlank (c : Char) : Bool := c == ' ' || c == '\t'

def isIdentStart (c : Char) : Bool := c.isAlpha || c == '_'

def isIdentChar (c : Char) : Bool := c.isAlphanum || c == '_'

/-- Splits off the rest of a qualified name: identifier characters, and `::` before an
identifier. -/
def spanName : List Char → List Char × List Char
  | ':' :: ':' :: c :: rest =>
    if isIdentStart c then
      let p := spanName (c :: rest)
      (':' :: ':' :: p.1, p.2)
    else
      ([], ':' :: ':' :: c :: rest)
  | c :: rest =>
    if isIdentChar c then
      let p := spanName rest
      (c :: p.1, p.2)
    else
      ([], c :: rest)
  | [] => ([], [])

theorem spanName_append (cs : List Char) : (spanName cs).1 ++ (spanName cs).2 = cs := by
  fun_induction spanName cs with
  | case1 c rest h p ih => simpa [p] using ih
  | case2 => rfl
  | case3 c rest hcol h p ih => simpa [p] using ih
  | case4 => rfl
  | case5 => rfl

private theorem length_spanName_le (cs : List Char) : (spanName cs).2.length ≤ cs.length := by
  have h := congrArg List.length (spanName_append cs)
  simp only [List.length_append] at h
  omega

/-- A name that begins with an identifier character uses up at least that character. -/
theorem length_spanName_cons_lt {c : Char} (rest : List Char) (h : isIdentStart c = true) :
    (spanName (c :: rest)).2.length < (c :: rest).length := by
  have hc : c ≠ ':' := by
    rintro rfl
    simp [isIdentStart] at h
  have hi : isIdentChar c = true := by
    simp only [isIdentStart, isIdentChar, Char.isAlphanum, Bool.or_eq_true] at h ⊢
    rcases h with h | h
    · exact Or.inl (Or.inl h)
    · exact Or.inr h
  have hrest := length_spanName_le rest
  unfold spanName
  split
  · rename_i heq
    simp only [List.cons.injEq] at heq
    exact absurd heq.1 hc
  · rename_i heq
    simp only [List.cons.injEq] at heq
    obtain ⟨rfl, rfl⟩ := heq
    simp only [hi, if_true, List.length_cons]
    omega
  · rename_i heq
    cases heq

private theorem length_dropWhile_le (p : Char → Bool) (cs : List Char) :
    (cs.dropWhile p).length ≤ cs.length :=
  (List.dropWhile_suffix p).length_le

def punctuation : Char → Option Token
  | '<' => some .less
  | '>' => some .greater
  | ',' => some .comma
  | '*' => some .star
  | '&' => some .ampersand
  | '[' => some .openBracket
  | ']' => some .closeBracket
  | _ => none

def Token.scan : List Char → Option (List Token)
  | [] => some []
  | c :: rest =>
    if isBlank c then
      Token.scan rest
    else if isIdentStart c then
      let p := spanName (c :: rest)
      (Token.scan p.2).map (.name (String.ofList p.1) :: ·)
    else if c.isDigit then
      let digits := c :: rest.takeWhile Char.isDigit
      (Token.scan (rest.dropWhile Char.isDigit)).map (.number (Nat.ofDigitChars 10 digits 0) :: ·)
    else
      match punctuation c with
      | some t => (Token.scan rest).map (t :: ·)
      | none => none
termination_by cs => cs.length
decreasing_by
  · simp
  · exact length_spanName_cons_lt rest ‹_›
  · have := length_dropWhile_le Char.isDigit rest
    simp only [List.length_cons]
    omega
  · simp

end NativeBindings.TypeExpr
