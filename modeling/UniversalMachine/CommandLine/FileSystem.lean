import UniversalMachine.Bytes
import UniversalMachine.Error

/-!
The files around a command: a tree of directories below one root, with a working directory in it.

A name leads to a file through directories and symbolic links, and several names may lead to one
file. To open a file for writing is to empty it, or to make it, before the first byte is written.
-/

namespace UniversalMachine.CommandLine

/-- The names on the way from the root. -/
abbrev Path := List String

inductive FileError where
  | missing
  | isDirectory
  | notDirectory
  | tooManyLinks
  deriving DecidableEq, Repr

def FileError.failure : FileError → Failure
  | missing => ⟨.named "NotFound", "No such file or directory (os error 2)"⟩
  | isDirectory => ⟨.named "IsADirectory", "Is a directory (os error 21)"⟩
  | notDirectory => ⟨.named "NotADirectory", "Not a directory (os error 20)"⟩
  | tooManyLinks => ⟨.named "FilesystemLoop", "Too many levels of symbolic links (os error 40)"⟩

/-- What stands at a path. Files have numbers, since one file may stand at several paths. -/
inductive Node where
  | directory
  | file (number : Nat)
  | link (target : String)
  deriving DecidableEq, Repr

/-- What lies above something else is a directory, whether it has a node of its own or not. -/
structure FileSystem where
  nodes : List (Path × Node)
  contents : List (Nat × Bytes)
  workingDirectory : Path
  deriving DecidableEq, Repr

def pieces : List Char → List (List Char)
  | [] => [[]]
  | c :: rest =>
    if c == '/' then [] :: pieces rest
    else
      match pieces rest with
      | [] => [[c]]
      | piece :: others => (c :: piece) :: others

def parts (name : String) : List String := (pieces name.toList).map String.ofList

def Path.isAbove (short long : Path) : Bool := short.isPrefixOf long && short.length < long.length

namespace FileSystem

def node? (files : FileSystem) (path : Path) : Option Node :=
  if path.isEmpty || files.nodes.any (fun entry => path.isAbove entry.1) then some .directory
  else files.nodes.lookup path

def content (files : FileSystem) (number : Nat) : Bytes := (files.contents.lookup number).getD []

def fileAt? (files : FileSystem) (path : Path) : Option Bytes :=
  match files.node? path with
  | some (.file number) => some (files.content number)
  | _ => none

def start (directory : Path) (name : String) : Path :=
  if name.toList.head? = some '/' then [] else directory

inductive Stop where
  | arrived (path : Path)
  | link (directory : Path) (target : String) (rest : List String)
  deriving DecidableEq, Repr

/-- Follows parts up to the first link. A part is followed in a directory only; the last one need
not lead to anything. -/
def follow (files : FileSystem) (place : Path) : List String → Except FileError Stop
  | [] => .ok (.arrived place)
  | name :: rest =>
    match files.node? place with
    | some .directory =>
      if name == "" || name == "." then follow files place rest
      else if name == ".." then follow files place.dropLast rest
      else
        match files.node? (place ++ [name]) with
        | some (.link target) => .ok (.link place target rest)
        | _ => follow files (place ++ [name]) rest
    | some _ => .error .notDirectory
    | none => .error .missing

def walk (files : FileSystem) : Nat → Path → List String → Except FileError Path
  | 0, _, _ => .error .tooManyLinks
  | links + 1, place, names => do
    match ← files.follow place names with
    | .arrived path => .ok path
    | .link directory target rest =>
      files.walk links (start directory target) (parts target ++ rest)

def maxLinks : Nat := 40

def locate (files : FileSystem) (name : String) : Except FileError Path :=
  if name.isEmpty then .error .missing
  else files.walk (maxLinks + 1) (start files.workingDirectory name) (parts name)

def read (files : FileSystem) (name : String) : Except FileError Bytes := do
  let path ← files.locate name
  match files.node? path with
  | some .directory => .error .isDirectory
  | some (.file number) => .ok (files.content number)
  | _ => .error .missing

def fresh (files : FileSystem) : Nat :=
  files.nodes.foldr (fun entry least =>
    match entry.2 with
    | .file number => max (number + 1) least
    | _ => least) 0

def store (files : FileSystem) (number : Nat) (bytes : Bytes) : FileSystem :=
  { files with contents := (number, bytes) :: files.contents }

def dropSlashes (name : String) : String :=
  let kept := String.ofList (name.toList.reverse.dropWhile (· == '/')).reverse
  if kept.isEmpty then name else kept

/-- Opens a file for writing, which leaves it empty. A name that ends in a slash names a directory,
whether it exists or not. -/
def create (files : FileSystem) (name : String) : Except FileError (Nat × FileSystem) := do
  let path ← files.locate (dropSlashes name)
  if name.toList.getLast? = some '/' then .error .isDirectory
  else
    match files.node? path with
    | some .directory => .error .isDirectory
    | some (.file number) => .ok (number, files.store number [])
    | some (.link _) => .error .tooManyLinks
    | none =>
      let number := files.fresh
      .ok (number, { files with nodes := (path, .file number) :: files.nodes }.store number [])

def ofNamed (named : List (String × Bytes)) : FileSystem :=
  let home : Path := ["work"]
  let path (name : String) : Path :=
    home ++ (parts name).filter fun part => part != "" && part != "."
  { nodes := (home, .directory) :: named.zipIdx.map fun (file, number) =>
      (path file.1, .file number)
    contents := named.zipIdx.map fun (file, number) => (number, file.2)
    workingDirectory := home }

def changes (before after : FileSystem) : List (Path × Bytes) :=
  let home := after.workingDirectory
  after.nodes.filterMap fun (path, _) =>
    match after.fileAt? path with
    | some bytes =>
      if home.isPrefixOf path && before.fileAt? path != some bytes then
        some (path.drop home.length, bytes)
      else none
    | none => none

end FileSystem

def Path.text (path : Path) : String := "/".intercalate path

/-- What counts of a name that is given from its end: neither the slashes there nor the dots that
stand for a directory itself. -/
def dropTail : List Char → List Char
  | '/' :: rest => dropTail rest
  | '.' :: '/' :: rest => dropTail rest
  | name => name

/-- The last part of a name, behind what leads to it. The root and the dots name no file. -/
def lastName? (name : List Char) : Option (List Char × List Char) :=
  let reversed := dropTail name.reverse
  let file := (reversed.takeWhile (· != '/')).reverse
  if file.isEmpty || file == ['.'] || file == ['.', '.'] then none
  else some ((reversed.dropWhile (· != '/')).reverse, file)

/-- The stem and the extension of a file's name. A dot at the front begins no extension. -/
def splitDot (file : List Char) : List Char × Option (List Char) :=
  match file.reverse.dropWhile (· != '.') with
  | [] | [_] => (file, none)
  | _ :: stem => (stem.reverse, some (file.reverse.takeWhile (· != '.')).reverse)

def setExtension (name extension : List Char) : List Char :=
  match lastName? name with
  | none => name
  | some (directory, file) => directory ++ (splitDot file).1 ++ '.' :: extension

/-- A name with its extension replaced, or with the extension added if it had none. As many
characters as the old extension has are cut off first. Where that leaves two dots, as it does of
`..a`, they name a directory, and a directory takes no extension. -/
def withExtension (name extension : String) : String :=
  let text := name.toList
  let kept :=
    match (lastName? text).bind fun found => (splitDot found.2).2 with
    | none => text
    | some old => text.take (text.length - old.length)
  String.ofList (setExtension kept extension.toList)

end UniversalMachine.CommandLine
