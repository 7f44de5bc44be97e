import TreeShell.Result
import TreeShell.Tree.Basic

/-!
# Making nodes

Nodes are made one at a time at a path, or all at once from a seed.
-/

namespace TreeShell

/-!
## Making nodes

A new node becomes the last child of the directory that the segments before its name lead to.
Nodes that are already there, even one of the same name, are left alone. A text file takes no
children.
-/

def Node.blank (name : String) : Kind → Node
  | .directory => .directory name []
  | .text => .file name [] 1

namespace Tree

/-- The directory in which a path makes a node. -/
def parent? (t : Tree) (start : Place) (segments : List String) : Option Place :=
  match segments.dropLast with
  | [] => some start
  | above => t.resolve start above (some .directory)

/-- The failure to give a text file a child. -/
def childless : Failure := .mismatch (Kind.text.lacks "add_child")

/-- The tree with a new node, and the place of the node. -/
def create (t : Tree) (start : Place) (segments : List String) (kind : Kind) :
    Except Failure (Tree × Place) :=
  let (above, name) := Path.splitLast segments
  match t.parent? start segments with
  | none => .error (.shell (.directoryNotFound (Path.join above)))
  | some parent =>
      if name = "" then .error (.shell (.noSuchFile (Path.join segments) "bash"))
      else if t.isDirectory parent then
        .ok (t.extend parent [Node.blank name kind], parent ++ [(t.children parent).length])
      else .error childless

/-- Adds a node that was made for the directory at `owner`. Its name is not looked at. -/
def add (t : Tree) (place : Place) (owner : Option Place) (node : Node) :
    Except Failure (Tree × Place) :=
  if !t.isDirectory place then .error childless
  else if owner ≠ some place then .error (.stranger node.name (t.path place))
  else .ok (t.extend place [node], place ++ [(t.children place).length])

end Tree

/-!
## Seeds

A seed describes what a directory holds: an object is a directory, a text a file of one line and
a list of texts a file of several lines. `check` tells what is wrong with a seed before anything
is built; `nodes` builds until something goes wrong, and what is built by then stays.
-/

namespace Seed

mutual

/-- Whether a value is a seed; `path` is what it is called in a complaint. -/
def check (path : String) : Json → Except ShellError Unit
  | .object fields => checkFields path fields
  | _ => .error (.invalidConfig (path ++ " must be an object") none)

def checkFields (path : String) : List (String × Json) → Except ShellError Unit
  | [] => .ok ()
  | (name, v) :: fields => do
      checkEntry (path ++ "." ++ name) v
      checkFields path fields

def checkEntry (path : String) : Json → Except ShellError Unit
  | .object fields => checkFields path fields
  | .text _ => .ok ()
  | .list items =>
      if (Json.texts? items).isSome then .ok ()
      else .error (.invalidConfig (path ++ " must contain only strings") none)
  | _ => .error (.invalidConfig (path ++ " must be an object, a string or a list of strings") none)

end

/-- The error for an entry that is no seed. -/
def refusal (name : String) : Failure :=
  .shell (.invalidConfig
    ("Seed entry " ++ Text.quoted name ++ " must be an object, a string or a list of strings") none)

/-- The error for an entry without a name. -/
def nameless : Failure := .shell (.noSuchFile "" "bash")

mutual

/-- The node for an entry, if one is made, and what went wrong in or at it. -/
def node (name : String) : Json → Option Node × Option Failure
  | .object fields =>
      if name = "" then (none, some nameless)
      else
        let (children, fault) := nodes fields
        (some (.directory name children), fault)
  | .text s =>
      if name = "" then (none, some nameless) else (some (.file name [.text s] 2), none)
  | .list items =>
      match Json.texts? items with
      | none => (none, some (refusal name))
      | some ss =>
          if name = "" then (none, some nameless) else (some (.file name (ss.map .text) 2), none)
  | _ => (none, some (refusal name))

/-- The nodes for the fields of a seed, up to the first that fails. -/
def nodes : List (String × Json) → List Node × Option Failure
  | [] => ([], none)
  | (name, v) :: fields =>
      match node name v with
      | (made, some fault) => (made.toList, some fault)
      | (made, none) =>
          let (more, fault) := nodes fields
          (made.toList ++ more, fault)

end

end Seed

namespace Tree

/-- Builds a seed in a directory. Elsewhere already the first entry fails. -/
def seed (t : Tree) (place : Place) (fields : List (String × Json)) : Tree × Option Failure :=
  if t.isDirectory place then
    let (made, fault) := Seed.nodes fields
    (t.extend place made, fault)
  else
    match fields with
    | [] => (t, none)
    | (name, v) :: _ =>
        match Seed.node name v with
        | (none, fault) => (t, fault)
        | (some _, _) => (t, some childless)

/-- A new tree that holds a seed. -/
def ofSeed (label : Json) (fields : List (String × Json)) : Tree × Option Failure :=
  seed { label } [] fields

end Tree

mutual

/-- The seed that describes a node, files as lists of lines. -/
def Node.dump : Node → Json
  | .directory _ children => .object (Node.dumpAll children)
  | .file _ lines _ => .list (lines.map Line.value)

def Node.dumpAll : List Node → List (String × Json)
  | [] => []
  | n :: ns => (n.name, n.dump) :: Node.dumpAll ns

end

/-- The seed that describes a tree. -/
def Tree.dump (t : Tree) : List (String × Json) := Node.dumpAll t.entries

end TreeShell
