import SoundLang.Command

/-! # Trees of files

A tree of folders and files held in memory, in which commands can be run without a disk.  `FileTree.locate`
follows the names of a path one by one, and `FileTree.read` gives the text of the file that a path leads to.

* Each name is looked up in a folder, so only the last one may lead to a file.  A slash at the end of a path
  adds an empty name, and so asks for a folder.
* An empty name and `.` stay in the folder, and `..` goes to the one around it; the root is around itself. -/

namespace SoundLang

/-- What stands at a place of a tree. -/
inductive FileTree.Node where
  | folder
  | file (bytes : List UInt8)
deriving DecidableEq, Repr

/-- A place in a tree: the names that lead to it from the root, the last one first. -/
abbrev FileTree.Place := List String

/-- A tree: what it holds, and the folder in which paths start. -/
structure FileTree where
  entries : List (FileTree.Place × FileTree.Node)
  start : FileTree.Place
deriving DecidableEq, Repr

namespace FileTree

/-- Why a path leads to no file. -/
inductive Fault where
  | missing
  /-- A name is looked up in what is no folder. -/
  | notFolder
  /-- The path leads to a folder. -/
  | folder
  /-- A name, or the path, is longer than a system takes. -/
  | tooLong
deriving DecidableEq, Repr

namespace Fault

def all : List Fault := [missing, notFolder, folder, tooLong]

/-- The number that the system gives to a fault. -/
def number : Fault → Nat
  | missing => 2
  | notFolder => 20
  | folder => 21
  | tooLong => 36

/-- The fault with a number. -/
def ofNumber? (n : Nat) : Option Fault := all.find? (·.number = n)

/-- The words of the system for a fault. -/
def text : Fault → String
  | missing => "No such file or directory"
  | notFolder => "Not a directory"
  | folder => "Is a directory"
  | tooLong => "File name too long"

/-- The failure of a command that cannot have its file.  A file that is not there has a message of its own. -/
def failure (path : String) : Fault → Command.Failure
  | missing => .missing path
  | fault => .unreadable path s!"{fault.text} (os error {fault.number})"

end Fault

/-- The most bytes that a name may have. -/
def longestName : Nat := 255

/-- The most bytes that a path may have. -/
def longestPath : Nat := 4095

/-- The names of a path: the parts between its slashes. -/
def names (path : List Char) : List (List Char) :=
  path.foldr (fun c ns => if c = '/' then [] :: ns else ns.modifyHead (c :: ·)) [[]]

/-- What stands at a place.  The folders around an entry, and the start with those around it, are there
without an entry of their own. -/
def node? (t : FileTree) (p : Place) : Option Node :=
  match t.entries.lookup p with
  | some n => some n
  | none => if (t.start :: t.entries.map (·.1)).any p.isSuffixOf then some .folder else none

/-- The place that names lead to from the place `here`. -/
def locate (t : FileTree) : Place → List (List Char) → Except Fault Place
  | here, [] => .ok here
  | here, name :: rest =>
    if t.node? here = some .folder then
      if name = [] ∨ name = ['.'] then t.locate here rest
      else if name = ['.', '.'] then t.locate here.tail rest
      else if longestName < Text.size name then .error .tooLong
      else
        let there := String.ofList name :: here
        if (t.node? there).isSome then t.locate there rest else .error .missing
    else .error .notFolder

/-- The place that a path leads to.  A path that begins with a slash starts at the root. -/
def place (t : FileTree) (path : String) : Except Fault Place :=
  let cs := path.toList
  if cs = [] then .error .missing
  else if longestPath < Text.size cs then .error .tooLong
  else t.locate (if cs.head? = some '/' then [] else t.start) (names cs)

/-- The bytes of the file that a path leads to. -/
def bytes (t : FileTree) (path : String) : Except Fault (List UInt8) := do
  match t.node? (← t.place path) with
  | some (.file bytes) => return bytes
  | some .folder => throw .folder
  | none => throw .missing

/-- The text of the file that a path leads to. -/
def read (t : FileTree) (path : String) : Except Command.Failure String :=
  match t.bytes path with
  | .error fault => .error (fault.failure path)
  | .ok bytes =>
    match String.fromUTF8? bytes.toByteArray with
    | some text => .ok text
    | none => .error (.notText path)

end FileTree

end SoundLang
