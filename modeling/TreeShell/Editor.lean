import TreeShell.Number.Binary64
import TreeShell.Path
import TreeShell.Terminal
import TreeShell.Text.Pieces
import TreeShell.Tree.Basic

/-!
# The editor

The editor has two modes. In insert mode keys change the last line; in command mode they make up
a command that Enter submits. The text is kept as its last line and the lines before it, so that
it never is without a line. A last line that is no text may withstand a key, which then leaves the
editor as it was. The editor itself does not touch the tree: a submitted command is handed back.
-/

namespace TreeShell

inductive Mode where
  | insert
  | command
  deriving DecidableEq, Repr

def Mode.name : Mode → String
  | insert => "insert"
  | command => "command"

structure Editor where
  /-- The path of the file as it was typed. -/
  segments : List String
  /-- The directory that the path starts from. -/
  home : Place
  /-- The file, once there is one. -/
  file : Option Place
  earlier : List Line := []
  line : Line := .text ""
  mode : Mode := .insert
  command : String := ""
  status : String := ""
  modified : Bool := false
  deriving DecidableEq, Repr

inductive ExCommand where
  | write
  | writeQuit
  | quit
  | forceQuit
  | unknown (name : String)
  deriving DecidableEq, Repr

/-- The command that a text stands for; a colon in front of it is optional. -/
def ExCommand.ofString (text : String) : ExCommand :=
  let name := if Text.beginsWith ":" text then Text.dropFirst 1 text else text
  if name = "w" then write
  else if name = "wq" ∨ name = "x" then writeQuit
  else if name = "q" then quit
  else if name = "q!" then forceQuit
  else unknown name

namespace Editor

/-- An editor with the lines of a file; a file without lines has one empty line here. -/
def ofLines (segments : List String) (home : Place) (file : Option Place) (lines : List Line) :
    Editor :=
  { segments, home, file, earlier := lines.dropLast, line := lines.getLastD (.text "") }

def path (e : Editor) : String := Path.join e.segments

def lines (e : Editor) : List Line := e.earlier ++ [e.line]

/-- The editor after the text was written to the file at a place. -/
def saved (e : Editor) (place : Place) : Editor :=
  { e with
    file := some place
    modified := false
    status := "\"" ++ e.path ++ "\" " ++ Number.natText e.lines.length ++ "L written" }

def withLine (e : Editor) (line : Line) : Editor := { e with line, modified := true }

/-- The lines as they read after the line `changed` was changed. -/
def after (changed : Line) (e : Editor) : Editor :=
  { e with earlier := e.earlier.map changed.after, line := changed.after e.line }

/-- Takes back the last key typed. A last line that is empty or switched off is removed. -/
def erase (fresh : Mark) (e : Editor) : Except Mismatch Editor :=
  if e.line.isOn then (e.line.dropLast fresh).map e.withLine
  else
    .ok <| match e.earlier.getLast? with
      | some line => { e with earlier := e.earlier.dropLast, line, modified := true }
      | none => e

/-- A key in insert mode; `fresh` is the mark of a list that it makes. -/
def insertKey (fresh : Mark) (e : Editor) (k : KeyEvent) : Except Mismatch Editor :=
  match k.key with
  | .escape => .ok { e with mode := .command, command := "" }
  | .enter => .ok { e with earlier := e.lines, line := .text "", modified := true }
  | .backspace => e.erase fresh
  | _ => if k.text = "" then .ok e else (e.line.push k.text).map e.withLine

/-- A key in command mode, with the command that it submits. -/
def commandKey (e : Editor) (k : KeyEvent) : Editor × Option String :=
  match k.key with
  | .escape => ({ e with command := "" }, none)
  | .enter => ({ e with command := "" }, some e.command)
  | .backspace => ({ e with command := Text.dropLast e.command }, none)
  | _ =>
      if k.text = "i" ∧ e.command = "" then ({ e with mode := .insert }, none)
      else ({ e with command := e.command ++ k.text }, none)

/-- A key, with the command that it submits. -/
def press (fresh : Mark) (e : Editor) (k : KeyEvent) : Except Mismatch (Editor × Option String) :=
  match e.mode with
  | .insert => (e.insertKey fresh k).map (·, none)
  | .command => .ok (e.commandKey k)

theorem lines_ne_nil (e : Editor) : e.lines ≠ [] := by simp [lines]

@[simp] theorem lines_after (changed : Line) (e : Editor) :
    (e.after changed).lines = e.lines.map changed.after := by
  simp [lines, after]

/-- The lines of a new editor are those of its file, if it has any. -/
theorem lines_ofLines (segments : List String) (home : Place) (file : Option Place)
    {lines : List Line} (h : lines ≠ []) : (ofLines segments home file lines).lines = lines := by
  simp [ofLines, Editor.lines, List.getLastD_eq_getLast?, List.getLast?_eq_some_getLast h,
    List.dropLast_concat_getLast]

end Editor

end TreeShell
