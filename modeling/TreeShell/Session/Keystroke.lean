import TreeShell.Session.Basic
import TreeShell.Session.Execute
import TreeShell.Session.Registry

/-!
# Keystrokes

A key completes, edits or submits what is being typed, to the shell or to the open editor.
-/

namespace TreeShell

/-!
## Completion

A tab completes the word before the cursor: the first word of a line as the name of a command, a
later one as a path to a node of a kind that the command takes, or to a directory if there is no
such node. A single candidate is inserted. Several candidates are shown at the second tab in a
row.
-/

/-- The word to be completed and its candidates; directories end with a slash. -/
structure Candidates where
  word : String
  names : List String
  deriving DecidableEq, Repr

/-- What a tab did. -/
structure Completion where
  word : String
  candidates : List String
  inserted : String := ""
  displayed : Bool := false
  deriving DecidableEq, Repr

namespace Session

def beginningWith (word : String) (names : List String) : List String :=
  names.filter (Text.beginsWith word)

/-- The names that complete the last segment of a path. -/
def pathOptions (s : Session) (path : String) (kinds : Option (List Kind)) : List String :=
  let parsed := ParsedPath.ofString path
  match s.tree.resolve s.cwd parsed.directory (some .directory) with
  | none => []
  | some place =>
      beginningWith parsed.name ((s.tree.childrenOf place kinds).map fun (_, n) ↦ n.listed)

/-- Whether the cursor stands after a space. -/
def afterSpace (line : String) : Bool := line.toList.getLast? == some ' '

def candidates (s : Session) (reg : Registry) (line : String) : Candidates :=
  match Text.tokens line with
  | [] => ⟨"", reg.names⟩
  | command :: args =>
      if args = [] ∧ !afterSpace line then ⟨command, beginningWith command reg.names⟩
      else
        let word := if afterSpace line then "" else args.getLastD command
        match s.pathOptions word (reg.kindsFor command) with
        | [] => ⟨word, s.pathOptions word (some [.directory])⟩
        | options => ⟨word, options⟩

/-- What the only candidate adds to the word. -/
def insertion (word candidate : String) : String :=
  Text.dropFirst (ParsedPath.ofString word).name.length candidate

/-- Completes the line being typed. -/
def complete (s : Session) (reg : Registry) : Session × Except Failure Completion :=
  let found := s.candidates reg s.buffer
  let shown : Completion := ⟨found.word, found.names, "", false⟩
  match found.names with
  | [] => (s, .ok shown)
  | [candidate] =>
      let inserted := insertion found.word candidate
      ({ s with buffer := s.buffer ++ inserted, tabPending := false }.note
          (.debug "autocomplete" "Completed"
            [("partial", Log.Detail.ofString found.word),
              ("inserted", Log.Detail.ofString inserted)]),
        .ok { shown with inserted })
  | several =>
      if s.tabPending then
        match s.prompt with
        | .error failure => (s, .error failure)
        | .ok prompt =>
            ({ ((s.print (prompt ++ s.buffer)).draw (.inline several)) with tabPending := false },
              .ok { shown with displayed := true })
      else ({ s with tabPending := true }, .ok shown)

end Session

/-!
## Editing a file

The commands that are submitted to the editor save its text to the tree and close it. An error of
the shell becomes the status of the editor. A new file whose directory is no directory makes
saving fail and leaves the editor open; a prompt that cannot be shown makes closing fail, and the
editor is closed all the same.
-/

namespace Session

open Log (Detail)

/-- The file that an editor writes to, which is made if there is none yet. -/
def fileFor (s : Session) (e : Editor) : Except Failure (Session × Place) :=
  match e.file with
  | some place => .ok (s, place)
  | none => s.create e.home e.segments .text

/-- Saves the text of the editor `e` and tells whether that was done. -/
def save (s : Session) (e : Editor) : Session × Except Failure Bool :=
  match s.fileFor e with
  | .error (.shell refusal) =>
      ({ s with editor := some { e with status := refusal.line } }, .ok false)
  | .error failure => ({ s with editor := some e }, .error failure)
  | .ok (s, place) =>
      ({ s with tree := s.tree.write place e.lines, editor := some (e.saved place) }.note
          (.debug "editor" "Saved" [("path", .value (s.tree.path place))]),
        .ok true)

/-- Closes the editor and shows the prompt. -/
def closeEditor (s : Session) : Session × Option Failure :=
  let s := { s with editor := none }
  match s.prompt with
  | .error failure => (s, some failure)
  | .ok prompt => ((s.print prompt).note (.debug "session" "Child process exited" []), none)

/-- Runs a command of the editor `e`. -/
def runEx (s : Session) (e : Editor) (command : String) : Session × Option Failure :=
  match ExCommand.ofString command with
  | .write =>
      match s.save e with
      | (s, .ok _) => (s, none)
      | (s, .error failure) => (s, some failure)
  | .writeQuit =>
      match s.save e with
      | (s, .ok true) => s.closeEditor
      | (s, .ok false) => (s, none)
      | (s, .error failure) => (s, some failure)
  | .quit =>
      if e.modified then
        ({ s with editor := some { e with
            status := "E37: No write since last change (add ! to override)" } }, none)
      else s.closeEditor
  | .forceQuit => s.closeEditor
  | .unknown name =>
      ({ s with editor := some { e with status := "E492: Not an editor command: " ++ name } }, none)

/-- A key while the editor `e` is open. A list that it changes is changed wherever it is held; one
that it makes gets a mark of its own. -/
def editorKey (s : Session) (e : Editor) (k : KeyEvent) : Session × Option Failure :=
  match e.press ⟨s.freeGroup, 0⟩ k with
  | .ok (e, none) => (({ s with editor := some e } : Session).share e.line, none)
  | .ok (e, some command) => s.runEx e command
  | .error m => (s, some (.mismatch m))

end Session

/-!
## Keystrokes

Keys go to the editor while it is open and to the line being typed otherwise. A prompt that cannot
be filled in makes a keystroke fail. Enter asks for the prompt before it does anything else, so
that such a line is neither executed nor lost; a failure after that leaves the line as well.
-/

namespace Session

/-- Goes to an earlier line of the history. -/
def older (s : Session) : Session :=
  match s.cursor with
  | 0 => s
  | i + 1 => { s with cursor := i, buffer := s.history.getD i "" }

/-- Goes to a later line of the history; after the last one the line is empty. -/
def newer (s : Session) : Session :=
  if s.cursor < s.history.length then
    { s with cursor := s.cursor + 1, buffer := s.history.getD (s.cursor + 1) "" }
  else s

def freshLine (s : Session) : Session := { s with buffer := "", cursor := s.history.length }

/-- Shows a line behind the prompt, keeps it in the history, executes it and shows its result. -/
def submit (s : Session) (reg : Registry) (prompt line : String) : Session × Option Failure :=
  let s := s.print (prompt ++ line)
  match { s with history := s.history ++ [line] }.execute reg line with
  | (s, .ok result) => s.printAll result.render
  | (s, .error failure) => (s, some failure)

/-- Enter: submits the line being typed; a line of spaces only shows the prompt again. -/
def enter (s : Session) (reg : Registry) : Session × Option Failure :=
  match s.prompt with
  | .error failure => (s, some failure)
  | .ok prompt =>
      if Text.isEmptyLine s.buffer then ((s.print prompt).freshLine, none)
      else
        match s.submit reg prompt s.buffer with
        | (s, none) => (s.freshLine, none)
        | (s, some failure) => (s, some failure)

def tab (s : Session) (reg : Registry) : Session × Option Failure :=
  if s.settings.enableAutocomplete.isOn then
    match s.complete reg with
    | (s, .ok _) => (s, none)
    | (s, .error failure) => (s, some failure)
  else (s, none)

/-- A key that goes to the line being typed. -/
def shellKey (s : Session) (reg : Registry) (k : KeyEvent) : Session × Option Failure :=
  match k.key with
  | .tab => s.tab reg
  | key =>
      let s := { s with tabPending := false }
      match key with
      | .enter => s.enter reg
      | .backspace => ({ s with buffer := Text.dropLast s.buffer }, none)
      | .up => (s.older, none)
      | .down => (s.newer, none)
      | _ => ({ s with buffer := s.buffer ++ k.text }, none)

def press (s : Session) (reg : Registry) (k : KeyEvent) : Session × Option Failure :=
  match s.editor with
  | some e => s.editorKey e k
  | none => s.shellKey reg k

/-- Presses keys in turn, up to the first that fails. -/
def pressAll (s : Session) (reg : Registry) : List KeyEvent → Session × Option Failure
  | [] => (s, none)
  | k :: ks =>
      match s.press reg k with
      | (s, none) => s.pressAll reg ks
      | (s, some failure) => (s, some failure)

/-- The keys that a line entered as a whole stands for. A line that ends with a tab is not
submitted; one that begins with a colon is a command of the editor if that is open. -/
def lineKeys (s : Session) (line : String) : List KeyEvent :=
  (if s.editor.isSome ∧ Text.beginsWith ":" line then [KeyEvent.ofKey .escape] else []) ++
    KeyEvent.typing line ++
    if line.toList.getLast? = some '\t' then [] else [KeyEvent.ofKey .enter]

def feedLine (s : Session) (reg : Registry) (line : String) : Session × Option Failure :=
  s.pressAll reg (s.lineKeys line)

end Session

end TreeShell
