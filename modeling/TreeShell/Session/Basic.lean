import TreeShell.Editor
import TreeShell.Log.Journal
import TreeShell.Result
import TreeShell.Settings
import TreeShell.Template.Fill
import TreeShell.Terminal
import TreeShell.Tree.Create

/-!
# Sessions

A session is a tree, a current directory, the line being typed, the lines submitted so far and,
while one is open, the editor. What it shows and what it logs is recorded in the order of time.
-/

namespace TreeShell

structure Session where
  tree : Tree := {}
  cwd : Place := []
  settings : ShellSettings := {}
  /-- The group of the marks that the items of the user have. -/
  userGroup : Nat := 1
  /-- The first group of marks that is free. -/
  freeGroup : Nat := 2
  surface : Surface := .page
  /-- What has been drawn so far. -/
  screen : List Drawing := []
  /-- The line being typed. -/
  buffer : String := ""
  history : List String := []
  /-- The entry of the history that is shown; its length stands for the line after the last. -/
  cursor : Nat := 0
  /-- Whether the key before was a tab that found several candidates. -/
  tabPending : Bool := false
  editor : Option Editor := none
  /-- What has been logged so far. -/
  log : List Log.Record := []
  deriving Repr, Inhabited

namespace Session

open Log (Detail Record)

def draw (s : Session) (d : Drawing) : Session := { s with screen := s.screen ++ [d] }

def print (s : Session) (line : String) : Session := s.draw (.line (.text line))

/-- Shows lines, up to the first that the surface does not take. -/
def printAll (s : Session) : List Line → Session × Option Failure
  | [] => (s, none)
  | line :: lines =>
      match s.surface.refusal line with
      | some m => (s, some (.mismatch m))
      | none => (s.draw (.line line)).printAll lines

def note (s : Session) (r : Record) : Session := { s with log := s.log ++ [r] }

def setUser (s : Session) (user : Json) : Session :=
  { s with
    settings := { s.settings with user }
    userGroup := s.freeGroup
    freeGroup := s.freeGroup + 1 }

/-- Lets everything that holds a list see that it was changed: the files, the label of the root,
the user, the editor and what is on the screen. No other line is held in several places. -/
def share (s : Session) (changed : Line) : Session :=
  match changed with
  | .list mark _ =>
      { s with
        tree := s.tree.after changed
        settings := { s.settings with
          user := changed.valueAfter s.userGroup s.settings.user }
        freeGroup := max s.freeGroup (mark.group + 1)
        screen := s.screen.map (·.after changed)
        editor := s.editor.map (·.after changed) }
  | _ => s

@[simp] theorem share_text (s : Session) (t : String) : s.share (.text t) = s := rfl

/-- A record as it reads by now. The only list that a session logs is the label of the root. -/
def current (s : Session) (r : Record) : Record :=
  { r with
    context := r.context.map fun (name, d) ↦
      (name, match d with
        | .value (.list _) => .value s.tree.label
        | d => d) }

/-- The prompt for the current directory. -/
def prompt (s : Session) : Except Failure String :=
  match s.settings.promptTemplate with
  | .text template =>
      (Template.fill
        [("user", s.settings.user), ("hostname", s.settings.hostname),
          ("path", s.tree.path s.cwd)] template).mapError .template
  | v => .error (.mismatch (.noMember v.kindName "format"))

/-- The record of a node that was made. -/
def createdRecord (path : Json) (kind : Kind) : Record :=
  .debug "filesystem" "Created node"
    [("path", .value path), ("type", Detail.ofString kind.code)]

/-- A new session in the root of a tree. -/
def ofTree (tree : Tree) (settings : ShellSettings) : Session :=
  { tree, settings, log := (Node.listings tree.label.plain tree.entries).map fun (path, kind) ↦
      createdRecord (.text path) kind }

/-- A new session as it is configured, and what went wrong with its seed. -/
def ofConfig (config : Config) : Session × Option Failure :=
  let (tree, fault) := Tree.ofSeed config.filesystem.rootLabel config.filesystem.seed
  (ofTree tree config.shell, fault)

/-- Makes a node; see `Tree.create`. -/
def create (s : Session) (start : Place) (segments : List String) (kind : Kind) :
    Except Failure (Session × Place) :=
  match s.tree.create start segments kind with
  | .error e => .error e
  | .ok (tree, place) =>
      .ok ({ s with tree }.note (createdRecord (tree.path place) kind), place)

/-- Moves to a place, a directory as a rule. -/
def changeDirectory (s : Session) (place : Place) : Session :=
  { s with cwd := place }.note
    (.debug "session" "Changed directory" [("path", .value (s.tree.path place))])

end Session

end TreeShell
