import DequeMachine.Lines
import DequeMachine.Stream

/-!
# DequeMachine.Cli.Folder

The folder that file names are looked up in.

1. A path is a series of names between slashes.  Every name but the last one must lead to a folder,
   and so must the last one if a slash follows it.
2. An empty name and `.` stay where they are, `..` goes up.
3. Nothing is known about what is outside of the folder but that it is in a folder itself.
4. A folder can be opened like a file, and then cannot be read.
5. A path is at most `longestPath` bytes long.
-/

namespace DequeMachine.Cli

/-- A folder: its files with their bytes, and its folders. -/
structure Folder where
  files : List (String × List UInt8)
  folders : List String
deriving DecidableEq, Repr

/-- What a path leads to. -/
inductive Folder.Item where
  | file (bytes : List UInt8)
  | folder
deriving DecidableEq, Repr

namespace Folder

/-- The most bytes that a path may have. -/
def longestPath : Nat := 4095

/-- The names of a path. -/
def names (path : String) : List String :=
  let (pieces, rest) := Lines.split '/' path.toList
  (pieces ++ [rest]).map String.ofList

/-- What is at a place below the folder, given as the names that lead there. -/
def item? (f : Folder) (place : List String) : Option Item :=
  match f.files.find? (fun file => names file.1 == place) with
  | some file => some (.file file.2)
  | none =>
    if place.isEmpty ||
        (f.folders ++ f.files.map Prod.fst).any (fun path => place.isPrefixOf (names path)) then
      some .folder
    else
      none

/-- What names lead to from a place, which is `none` outside of the folder. -/
def walk (f : Folder) (place : Option (List String)) : List String → Option Item
  | [] => place.elim (some .folder) f.item?
  | name :: rest =>
    match place.elim (some .folder) f.item? with
    | some .folder =>
      if name == "" || name == "." then
        f.walk place rest
      else if name == ".." then
        f.walk (place.bind fun p => if p.isEmpty then none else some p.dropLast) rest
      else
        match place with
        | some p => f.walk (some (p ++ [name])) rest
        | none => none
    | _ => none

/-- What can be read from the file that a path names, if it can be opened. -/
def open? (f : Folder) (path : String) : Option (List Read) :=
  if longestPath < path.utf8ByteSize then
    none
  else
    match f.walk (if path.toList.head? == some '/' then none else some []) (names path) with
    | some (.file bytes) => some (Read.whole bytes)
    | some .folder => some [.fault .isADirectory]
    | none => none

end Folder

end DequeMachine.Cli
