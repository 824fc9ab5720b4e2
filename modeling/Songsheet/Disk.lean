import Songsheet.Source

/-!
# Sources on a disk

A disk is a tree of directories and files with a working directory. Unlike the normal form of
a path, which is found without a disk, reading walks through the tree one name at a time: what
is not there cannot be left again by `..`, and nothing lies below a file.

* `Disk.add` — puts an entry below the working directory, with the directories that lead
  there.
* `Disk.read` — the provider of the files of a disk.
-/

namespace Songsheet

/-- What stands in a directory. -/
inductive Entry where
  | file (bytes : ByteArray)
  | directory

/-- The entries of a tree, each under the names that lead to it from the root, the newest
first, and the names that lead to the working directory. The root needs no entry. -/
structure Disk where
  entries : List (List String × Entry)
  working : List String

namespace Disk

/-! ## Building a disk -/

/-- The entry that some names lead to. -/
def entry? (d : Disk) (names : List String) : Option Entry :=
  if names.isEmpty then some .directory
  else (d.entries.find? (·.1 == names)).map (·.2)

/-- Puts an entry at the end of some names, and directories on the way where nothing is. -/
def put (d : Disk) (behind : List String) (e : Entry) : List String → Disk
  | [] => { d with entries := (behind, e) :: d.entries }
  | name :: names =>
    let d := if (d.entry? behind).isSome then d
      else { d with entries := (behind, .directory) :: d.entries }
    d.put (behind ++ [name]) e names

/-- Puts an entry below the working directory. -/
def add (d : Disk) (path : SourcePath) (e : Entry) : Disk :=
  d.put [] e (Route.follow ⟨.root, d.working⟩ path.components).names

/-- A disk with nothing in its working directory. Besides that directory there is only the
null device. -/
def bare : Disk :=
  let working := ["home", "work"]
  let d : Disk := ⟨[], working⟩
  (d.put [] .directory working).put [] (.file .empty) ["dev", "null"]

/-! ## Reading -/

/-- The greatest number of bytes of a path, and of a name in it. -/
def longestPath : Nat := 4095

@[inherit_doc longestPath]
def longestName : Nat := 255

/-- Goes on by one part of a path. Only a directory can be left by any part. -/
def step (d : Disk) (names : List String) (part : String) : Except ReadFault (List String) :=
  match d.entry? names with
  | some .directory =>
    if part = "" ∨ part = "." then .ok names
    else if part = ".." then .ok names.dropLast
    else if longestName < part.utf8ByteSize then .error .nameTooLong
    else if (d.entry? (names ++ [part])).isSome then .ok (names ++ [part])
    else .error .missing
  | some (.file _) => .error .notDirectory
  | none => .error .missing

/-- The names that a path leads to, from the root. -/
def locate (d : Disk) (path : SourcePath) : Except ReadFault (List String) :=
  if path.text.toList.contains '\x00' then .error .nulInName
  else if path.text = "" then .error .missing
  else if longestPath < path.text.utf8ByteSize then .error .nameTooLong
  else
    let parts := (slashParts path.text.toList).map String.ofList
    parts.foldlM d.step (if path.isAbsolute then [] else d.working)

/-- The text of a file. -/
def read (d : Disk) : Provider := fun path => do
  let names ← d.locate path
  match d.entry? names with
  | some (.file bytes) =>
    match String.fromUTF8? bytes with
    | some text => .ok text
    | none => .error .notText
  | some .directory => .error .isDirectory
  | none => .error .missing

end Disk

end Songsheet
