import NativeBindings.Files.System

set_option autoImplicit false
set_option relaxedAutoImplicit false

/-!
Making directories in a file system with a state. Whatever relation of states each operation keeps
to is kept to by the whole, and where a directory is there nothing is made.
-/

namespace NativeBindings

section State

variable {σ α β : Type} {Related : σ → σ → Prop}

theorem run_bind_of {x : StateM σ α} {a : α} {st next : σ} (h : x.run st = (a, next))
    {f : α → StateM σ β} : (x >>= f).run st = (f a).run next := by
  rw [StateT.run_bind, h]
  rfl

/-- A computation ends only in states that the one it starts from is related to. -/
def KeepsTo (Related : σ → σ → Prop) (x : StateM σ α) : Prop := ∀ st, Related st (x.run st).2

theorem KeepsTo.pure (hrefl : ∀ st, Related st st) (a : α) :
    KeepsTo Related (Pure.pure a : StateM σ α) :=
  hrefl

theorem KeepsTo.bind (htrans : ∀ a b c, Related a b → Related b c → Related a c)
    {x : StateM σ α} {f : α → StateM σ β} (hx : KeepsTo Related x)
    (hf : ∀ a, KeepsTo Related (f a)) : KeepsTo Related (x >>= f) := by
  intro st
  have hfirst := hx st
  rcases hrun : x.run st with ⟨a, next⟩
  rw [hrun] at hfirst
  rw [run_bind_of hrun]
  exact htrans _ _ _ hfirst (hf a next)

end State

namespace FileSystem

variable {σ : Type} {fs : FileSystem (StateM σ)}

section Related

variable {Related : σ → σ → Prop} (hrefl : ∀ st, Related st st)
  (htrans : ∀ a b c, Related a b → Related b c → Related a c)
  (hmake : ∀ path, KeepsTo Related (fs.makeDirectory path))
  (hask : ∀ path, KeepsTo Related (fs.isDirectory path))
include hrefl htrans hmake hask

theorem ensureDirectory_keepsTo (path : String) : KeepsTo Related (fs.ensureDirectory path) := by
  refine (hmake path).bind htrans fun made => ?_
  cases made with
  | ok => exact .pure hrefl _
  | error f =>
    refine (hask path).bind htrans fun there => ?_
    cases there <;> exact .pure hrefl _

private theorem makeDirectoriesWith_keepsTo (fuel : Nat) (path : String) :
    KeepsTo Related (fs.makeDirectoriesWith fuel path) := by
  induction fuel generalizing path with
  | zero => exact .pure hrefl _
  | succ fuel ih =>
    have hwhole := ensureDirectory_keepsTo hrefl htrans hmake hask path
    rw [makeDirectoriesWith]
    split
    · exact .pure hrefl _
    · refine (hmake path).bind htrans fun made => ?_
      split
      · exact .pure hrefl _
      · split
        · exact .pure hrefl _
        · refine (ih _).bind htrans fun parents => ?_
          cases parents with
          | error f => exact .pure hrefl _
          | ok => exact hwhole
      · refine (hask path).bind htrans fun there => ?_
        cases there <;> exact .pure hrefl _

theorem makeDirectories_keepsTo (path : String) : KeepsTo Related (fs.makeDirectories path) :=
  makeDirectoriesWith_keepsTo hrefl htrans hmake hask _ path

end Related

theorem makeDirectories_of_there {path : String} {st : σ}
    (hmake : (fs.makeDirectory path).run st = (.error .alreadyThere, st))
    (hask : (fs.isDirectory path).run st = (true, st)) :
    (fs.makeDirectories path).run st = (.ok (), st) := by
  unfold makeDirectories makeDirectoriesWith
  split
  · rfl
  · rw [run_bind_of hmake]
    dsimp only
    rw [run_bind_of hask]
    rfl

end FileSystem

end NativeBindings
