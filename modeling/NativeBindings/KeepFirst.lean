set_option autoImplicit false
set_option relaxedAutoImplicit false

/-!
Lists without repetition of a key: of the items with one key, the first is kept.
-/

namespace NativeBindings

variable {α β : Type} [DecidableEq β]

/-- The items whose key is neither among the seen ones nor that of an earlier item. -/
def keepFirstFrom (key : α → β) (seen : List β) : List α → List α
  | [] => []
  | x :: rest =>
    if key x ∈ seen then keepFirstFrom key seen rest
    else x :: keepFirstFrom key (key x :: seen) rest

def repeatedFrom (key : α → β) (seen : List β) : List α → List α
  | [] => []
  | x :: rest =>
    if key x ∈ seen then x :: repeatedFrom key seen rest
    else repeatedFrom key (key x :: seen) rest

def keepFirst (key : α → β) (items : List α) : List α := keepFirstFrom key [] items

def repeated (key : α → β) (items : List α) : List α := repeatedFrom key [] items

end NativeBindings
