import TreeShell.Path
import TreeShell.Text.Character

/-!
# Files of the host

The shell reads its settings from a file of the machine it runs on and may write its log to one.
A path of the host is followed name by name from the working directory or from the root; empty
names and `.` say nothing.
-/

namespace TreeShell

namespace Host

inductive Problem where
  | occupied
  | notDirectory
  | isDirectory
  | tooLong
  deriving DecidableEq, Repr

def Problem.message : Problem → String
  | occupied => "[Errno 17] File exists"
  | notDirectory => "[Errno 20] Not a directory"
  | isDirectory => "[Errno 21] Is a directory"
  | tooLong => "[Errno 36] File name too long"

/-- A failure of the host at a path; a path with a zero character is no path. -/
inductive Fault where
  | problem (p : Problem) (path : String)
  | zero
  deriving DecidableEq, Repr

namespace Fault

def message : Fault → String
  | problem p path => p.message ++ ": " ++ Text.quoted path
  | zero => "embedded null byte"

def title : Fault → String
  | problem .occupied _ => "FileExistsError"
  | problem .notDirectory _ => "NotADirectoryError"
  | problem .isDirectory _ => "IsADirectoryError"
  | problem .tooLong _ => "OSError"
  | zero => "ValueError"

end Fault

/-! ## Paths -/

def names (path : String) : List String :=
  (Path.split path).filter fun name ↦ name ≠ "" ∧ name ≠ Path.here

def isAbsolute (path : String) : Bool := Text.beginsWith "/" path

/-- The slashes at the front of a path: exactly two are kept, any other number counts as one. -/
def anchor (path : String) : String :=
  if Text.beginsWith "//" path ∧ !Text.beginsWith "///" path then "//"
  else if isAbsolute path then "/"
  else ""

/-- The way to write names behind an anchor. -/
def written (anchor : String) (names : List String) : String :=
  if anchor = "" ∧ names = [] then Path.here else anchor ++ Path.join names

/-- The shortest way to write a path without leaving out a step upwards. -/
def normal (path : String) : String := written (anchor path) (names path)

/-- The greatest size of a name and of a path. -/
def greatestName : Nat := 255

def greatestPath : Nat := 4095

def hasZero (path : String) : Bool := path.toList.contains '\x00'

/-- The text with every kind of line end written as a newline. -/
def newlines : List Char → List Char
  | '\r' :: '\n' :: cs => '\n' :: newlines cs
  | '\r' :: cs => '\n' :: newlines cs
  | c :: cs => c :: newlines cs
  | [] => []

def plainNewlines (s : String) : String := String.ofList (newlines s.toList)

/-! ## Places -/

/-- A place of the host: on a way below the working directory, or on one from the root. -/
inductive Spot where
  | below (way : List String)
  | system (way : List String)
  deriving DecidableEq, Repr

namespace Spot

/-- The directory above; the working directory is one for temporary files. -/
def above : Spot → Spot
  | below [] => system ["tmp"]
  | below way => below way.dropLast
  | system way => system way.dropLast

def down (name : String) : Spot → Spot
  | below way => below (way ++ [name])
  | system way => system (way ++ [name])

def step (s : Spot) (name : String) : Spot := if name = Path.above then s.above else s.down name

def start (path : String) : Spot := if isAbsolute path then system [] else below []

/-- Where a path leads if every step upwards takes one back. -/
def ofPath (path : String) : Spot := (names path).foldl step (start path)

end Spot

/-- What a path of the host leads to. -/
inductive Entry where
  | missing
  /-- A file stands where a directory would have to be. -/
  | blocked
  | directory
  | file (content : String)
  | failed (f : Fault)
  deriving DecidableEq, Repr

/-- The files of a working directory, by their paths. -/
abbrev Files := List (String × String)

/-- The directories that are known beside the working directory. -/
def systemDirectories : List (List String) :=
  [[], ["bin"], ["dev"], ["etc"], ["home"], ["lib"], ["opt"], ["proc"], ["root"], ["run"], ["sbin"],
    ["sys"], ["tmp"], ["usr"], ["usr", "bin"], ["usr", "lib"], ["usr", "local"], ["var"]]

/-- The files that are known beside those of the working directory. -/
def systemFiles : List (List String × String) :=
  [(["dev", "null"], ""), (["etc", "passwd"], "root:x:0:0:root:/root:/bin/sh\n")]

/-- What is at a place. -/
def entryAt (files : Files) : Spot → Entry
  | .system way =>
      match systemFiles.find? fun (name, _) ↦ name = way with
      | some (_, content) => .file content
      | none => if way ∈ systemDirectories then .directory else .missing
  | .below way =>
      match files.find? fun (path, _) ↦ names path = way with
      | some (_, content) => .file content
      | none =>
          if way = [] ∨ files.any (fun (path, _) ↦ way.isPrefixOf (names path)) then .directory
          else .missing

/-- Where names lead from a place; `path` is what is too long if one of them is. -/
def follow (files : Files) (path : String) (s : Spot) : List String → Entry
  | [] => entryAt files s
  | name :: more =>
      match entryAt files s with
      | .directory =>
          if greatestName < name.utf8ByteSize then .failed (.problem .tooLong path)
          else follow files path (s.step name) more
      | .file _ => .blocked
      | entry => entry

/-- What a path leads to, seen from a working directory that holds the given files. -/
def look (files : Files) (path : String) : Entry :=
  if hasZero path then .missing
  else if greatestPath < (normal path).utf8ByteSize then .failed (.problem .tooLong (normal path))
  else follow files (normal path) (Spot.start path) (names path)

/-! ## Opening a file for writing -/

/-- The directories that are made so that names lead to one. `done` are the names already followed
and `made` the directories that they took: if there is one, the path followed so far is at fault,
otherwise the whole of it. -/
def makeFrom (files : Files) (anchor : String) (made : List Spot) (s : Spot) (done : List String) :
    List String → Except Fault (List Spot)
  | [] => .ok made
  | name :: more =>
      let here := done ++ [name]
      let path := written anchor (if made = [] then here ++ more else here)
      if greatestName < name.utf8ByteSize then .error (.problem .tooLong path)
      else
        let s := s.step name
        match entryAt files s with
        | .directory => makeFrom files anchor made s here more
        | .file _ =>
            .error (.problem (if made = [] ∧ more ≠ [] then .notDirectory else .occupied) path)
        | _ => makeFrom files anchor (s :: made) s here more

/-- The directories that are made so that a path may lead to a file. -/
def makeAbove (files : Files) (path : String) : Except Fault (List Spot) :=
  let above := (names path).dropLast
  let shown := written (anchor path) above
  if hasZero shown then .error .zero
  else if greatestPath < shown.utf8ByteSize then .error (.problem .tooLong shown)
  else makeFrom files (anchor path) [] (Spot.start path) [] above

/-- How a place is told of that stands in the way of a file; that of the working directory is not
known. -/
def Spot.text (path : String) : Spot → String
  | below _ => normal path
  | system way => written (if isAbsolute path then anchor path else "/") way

/-- Why a file cannot be opened for writing. Its directory is made if need be. -/
def openFault (files : Files) (path : String) : Option Fault :=
  match makeAbove files path with
  | .error f => some f
  | .ok made =>
      let s := Spot.ofPath path
      if hasZero path then some .zero
      else if (names path).any (greatestName < ·.utf8ByteSize) then
        some (.problem .tooLong (s.text path))
      else if s ∈ made ∨ entryAt files s = .directory then
        some (.problem .isDirectory (s.text path))
      else none

/-- What a program learns about the host. -/
structure View where
  look : String → Entry
  openFault : String → Option Fault

/-- A working directory that holds the given files. -/
def view (files : Files) : View := ⟨look files, openFault files⟩

/-- The name below the working directory of a file that comes into being when it is opened. -/
def created? (files : Files) (path : String) : Option String :=
  match Spot.ofPath path with
  | .below way => if entryAt files (.below way) = .missing then some (Path.join way) else none
  | .system _ => none

end Host

end TreeShell
