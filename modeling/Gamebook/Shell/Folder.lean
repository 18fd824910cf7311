import Gamebook.Text.Pieces
import Gamebook.Text.Utf8

/-!
# Files by name

A name leads from a folder to a file, one part behind the other with slashes between them.  The
part `.` stays in the folder that has been reached, and so does an empty part; `..` leaves it.
Nothing can follow the part that is the name of a file, not even a slash, so names are tidied
where that should not matter.

The folder at hand holds files and no folders, and nothing is known of what is outside.
-/

namespace Gamebook.Shell

open Text (pieces joinWith)

/-- Why a file cannot be opened although it may be there. -/
inductive OpenFault where
  /-- The name leads to a folder. -/
  | directory
  /-- The name goes on behind a file. -/
  | notDirectory
  /-- The name, or a part of it, is longer than names can be. -/
  | nameTooLong
  /-- The name has a character that ends names. -/
  | nulCharacter
  deriving DecidableEq, Repr

/-- The wording of the fault. -/
def OpenFault.message : OpenFault → String
  | .directory => "[Errno 21] Is a directory"
  | .notDirectory => "[Errno 20] Not a directory"
  | .nameTooLong => "[Errno 36] File name too long"
  | .nulCharacter => "embedded null byte"

/-- What comes of opening a file: its text, if it is encoded as it should be. -/
inductive Opened where
  | text (decoded : Except Text.Utf8.Fault String)
  | missing
  | refused (fault : OpenFault)

/-- The parts of a name that lead somewhere. -/
def tidyParts (parts : List (List Char)) : List (List Char) :=
  parts.filter fun p => !p.isEmpty && p != ['.']

/-- A name without parts that lead nowhere, and without a slash at its end. -/
def tidyName (name : String) : String :=
  let cs := name.toList
  let path := joinWith ['/'] (tidyParts (pieces '/' cs))
  match cs.takeWhile (· = '/'), path with
  | [], [] => "."
  | [], _ => String.ofList path
  | ['/', '/'], _ => String.ofList ('/' :: '/' :: path)
  | _, _ => String.ofList ('/' :: path)

/-- The files of a folder by their names. -/
abbrev Folder := String → Option String

namespace Folder

/-- The most bytes of a part of a name. -/
def maxPartSize : Nat := 255

/-- The most bytes of a name. -/
def maxNameSize : Nat := 4095

/-- Looks a part of a name up among files. -/
def lookUp (folder : Folder) (part : List Char) (rest : List (List Char)) : Opened :=
  let name := String.ofList part
  if maxPartSize < name.utf8ByteSize then .refused .nameTooLong
  else
    match folder name with
    | none => .missing
    | some text => if rest.isEmpty then .text (.ok text) else .refused .notDirectory

/-- Where the parts of a name lead from outside of the folder, where no file is known. -/
def followOutside : (parts : List (List Char)) → Opened
  | [] => .refused .directory
  | p :: rest =>
    if p = [] ∨ p = ['.'] ∨ p = ['.', '.'] then followOutside rest
    else lookUp (fun _ => none) p rest

/-- Where the parts of a name lead from the folder. -/
def follow (folder : Folder) : (parts : List (List Char)) → Opened
  | [] => .refused .directory
  | p :: rest =>
    if p = [] ∨ p = ['.'] then follow folder rest
    else if p = ['.', '.'] then followOutside rest
    else lookUp folder p rest

/-- Opens the file that a name leads to. -/
def openFile (folder : Folder) (name : String) : Opened :=
  if name.toList.contains (Char.ofNat 0) then .refused .nulCharacter
  else if name = "" then .missing
  else if maxNameSize < name.utf8ByteSize then .refused .nameTooLong
  else
    match pieces '/' name.toList with
    | [] :: parts => followOutside parts
    | parts => follow folder parts

end Folder

end Gamebook.Shell
