import NativeBindings.Files.System

set_option autoImplicit false
set_option relaxedAutoImplicit false

/-!
Trees of files and directories, as a file system of their own.
-/

namespace NativeBindings

inductive FileNode where
  | directory
  | file (content : ByteArray)

abbrev Location : Type := List String

/-- A tree of files and directories; the root is always there. A node is at one place: there are no
links, neither symbolic ones nor several names of one file. -/
structure FileTree where
  nodes : List (Location × FileNode)

namespace FileTree

def find? (t : FileTree) (l : Location) : Option FileNode :=
  if l.isEmpty then some .directory else t.nodes.lookup l

def set (t : FileTree) (l : Location) (node : FileNode) : FileTree :=
  if t.nodes.any (·.1 == l) then
    ⟨t.nodes.map fun p => if p.1 == l then (l, node) else p⟩
  else ⟨t.nodes ++ [(l, node)]⟩

def walk (t : FileTree) : List String → Location → Except FileFault Location
  | [], l => .ok l
  | part :: rest, l =>
    match t.find? l with
    | none => .error .notFound
    | some (.file _) => .error .notDirectory
    | some .directory =>
      if part = "" ∨ part = "." then t.walk rest l
      else if part = ".." then t.walk rest l.dropLast
      else t.walk rest (l ++ [part])

def locate (t : FileTree) (path : String) : Except FileFault Location :=
  if path.isEmpty then .error .notFound
  else t.walk ((Path.parts path).map String.ofList) []

def contentAt (t : FileTree) (path : String) : Except FileFault ByteArray :=
  match t.locate path with
  | .error f => .error f
  | .ok l =>
    match t.find? l with
    | none => .error .notFound
    | some .directory => .error .isDirectory
    | some (.file content) => .ok content

def read (t : FileTree) (path : String) : Except FileFault String :=
  match t.contentAt path with
  | .error f => .error f
  | .ok content =>
    match String.fromUTF8? content with
    | some text => .ok text
    | none => .error .invalidText

def write (t : FileTree) (path : String) (content : ByteArray) : Except FileFault FileTree :=
  match t.locate path with
  | .error f => .error f
  | .ok l =>
    match t.find? l with
    | some .directory => .error .isDirectory
    | _ => .ok (t.set l (.file content))

def withoutFinalSlashes (path : String) : List String :=
  (((Path.parts path).reverse.dropWhile List.isEmpty).reverse).map String.ofList

def makeDirectory (t : FileTree) (path : String) : Except FileFault FileTree :=
  if path.isEmpty then .error .notFound
  else
    match t.walk (withoutFinalSlashes path) [] with
    | .error f => .error f
    | .ok l =>
      match t.find? l with
      | some _ => .error .alreadyThere
      | none => .ok (t.set l .directory)

def isDirectory (t : FileTree) (path : String) : Bool :=
  match t.locate path with
  | .error _ => false
  | .ok l =>
    match t.find? l with
    | some .directory => true
    | _ => false

def update (change : FileTree → Except FileFault FileTree) :
    StateM FileTree (Except FileFault Unit) :=
  fun t =>
    match change t with
    | .ok next => (.ok (), next)
    | .error f => (.error f, t)

def system : FileSystem (StateM FileTree) where
  read path := fun t => (t.read path, t)
  write path text := update fun t => t.write path text.toUTF8
  makeDirectory path := update fun t => t.makeDirectory path
  isDirectory path := fun t => (t.isDirectory path, t)
  size path := fun t =>
    match t.contentAt path with
    | .ok content => (content.size, t)
    | .error _ => (0, t)

end FileTree

end NativeBindings
