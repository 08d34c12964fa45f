import BasicSketch.Text.Letters

set_option autoImplicit false

/-! Files as a run of the program sees them, and their paths. -/

namespace BasicSketch

inductive FileFault where
  | missing
  | directory
  | notDirectory
  | nameTooLong
  | other (reason : String)
  deriving DecidableEq, Repr

namespace FileFault

def message : FileFault → String
  | .missing => "No such file or directory (os error 2)"
  | .directory => "Is a directory (os error 21)"
  | .notDirectory => "Not a directory (os error 20)"
  | .nameTooLong => "File name too long (os error 36)"
  | .other reason => reason

end FileFault

/-- The names on the way to a file or folder, from the folder of the run, or from the root, which
is named by a slash. Folders above that of the run are named by two dots. -/
abbrev Place := List String

namespace Place

def parent (place : Place) : Place :=
  if place == ["/"] then place
  else if place.all (· == "..") then place ++ [".."]
  else place.dropLast

def step (place : Place) (part : String) : Place :=
  if part == "." then place else if part == ".." then place.parent else place ++ [part]

def isOutside (place : Place) : Bool := place == ["/"] || place.all (· == "..")

end Place

namespace Path

def parts (path : String) : List String := (path.splitOn "/").filter (!·.isEmpty)

def start (path : String) : Place := if path.toList.head? == some '/' then ["/"] else []

def place (path : String) : Place := (parts path).foldl Place.step (start path)

def endsInSlash (path : String) : Bool := path.toList.getLast? == some '/'

def fileName (path : String) : String :=
  match ((parts path).filter (· != ".")).getLast? with
  | some name => if name == ".." then path else name
  | none => path

/-- A name up to its last dot; a dot in front is part of the name. -/
def stem (name : List Char) : List Char :=
  let before := ((name.reverse.dropWhile (· != '.')).drop 1).reverse
  if before.isEmpty then name else before

/-- The path with the last extension of its name replaced. A name that without its extension is
two dots, such as `..bas`, is left so: it is then the folder above, which takes no extension. -/
def withExtension (extension path : String) : String :=
  let reversed := path.toList.reverse
  let name := (reversed.takeWhile (· != '/')).reverse
  let folder := (reversed.dropWhile (· != '/')).reverse
  if ["", ".", ".."].contains (String.ofList name) then path
  else if stem name == ['.'] then String.ofList (folder ++ ['.', '.'])
  else String.ofList (folder ++ stem name) ++ "." ++ extension

end Path

inductive Entry where
  | file (content : String)
  | folder
  deriving DecidableEq, Repr

abbrev Tree := Place → Option Entry

namespace Tree

def ofList (files : List (String × String)) : Tree := fun place =>
  let files := files.map fun (path, content) => (Path.place path, content)
  match files.lookup place with
  | some content => some (.file content)
  | none =>
    if place.isOutside || files.any (fun (path, _) => place.isPrefixOf path) then some .folder
    else none

/-- What stands at a place. A name has at most 255 bytes. -/
def look (tree : Tree) (place : Place) : Except FileFault (Option Entry) :=
  if 255 < (place.getLast?.getD "").utf8ByteSize then .error .nameTooLong else .ok (tree place)

/-- The place that the parts of a path lead to from a folder. All but the last have to be
folders. -/
def reach (tree : Tree) (folder : Place) : List String → Except FileFault Place
  | [] => .ok folder
  | [part] => .ok (folder.step part)
  | part :: rest => do
    match ← tree.look (folder.step part) with
    | some .folder => tree.reach (folder.step part) rest
    | some (.file _) => .error .notDirectory
    | none => .error .missing

def read (tree : Tree) (path : String) : Except FileFault String := do
  match ← tree.look (← tree.reach (Path.start path) (Path.parts path)) with
  | some (.file content) => if Path.endsInSlash path then .error .notDirectory else .ok content
  | some .folder => .error .directory
  | none => .error .missing

/-- Nothing is written to a folder, and a path that ends in a slash is one to a folder. -/
def write (tree : Tree) (path : String) : Except FileFault Unit := do
  let place ← tree.reach (Path.start path) (Path.parts path)
  if Path.endsInSlash path then .error .directory
  else if (← tree.look place) == some .folder then .error .directory
  else .ok ()

end Tree

structure Files where
  read : String → Except FileFault String
  writeFault? : String → Option FileFault

namespace Files

def ofTree (tree : Tree) : Files where
  read := tree.read
  writeFault? path :=
    match tree.write path with
    | .error fault => some fault
    | .ok () => none

def ofList (files : List (String × String)) : Files := ofTree (Tree.ofList files)

end Files

end BasicSketch
