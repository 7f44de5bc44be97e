import TreeShell.Session.Registry

/-!
# Executing a line

A line is run by a command, and its output may be redirected.
-/

namespace TreeShell

/-!
## The shell's own commands

A command with several paths works through them in turn and puts the results together, so that an
error at one path does not keep the others from being worked on. While the session is in a text
file there is nothing to list, and no node can be made there; that fails the whole command.
-/

namespace Session

open Log (Record)

/-- Runs `one` for each path in turn, up to the first that fails the command as a whole. -/
def each (one : Session → String → Outcome) (s : Session) : List String → Outcome
  | [] => (s, .ok .empty)
  | path :: paths =>
      match one s path with
      | (s, .error failure) => (s, .error failure)
      | (s, .ok first) =>
          let (s, others) := each one s paths
          (s, others.map first.combine)

/-- A command that does not fail. -/
def done (s : Session) (r : Result Place) : Outcome := (s, .ok r)

/-- The result that shows a value whose items have marks of a group; a value without lines is a
failure. -/
def showValue (s : Session) (group : Nat) (v : Json) : Outcome :=
  match Line.linesOf group v with
  | .ok out => s.done { out }
  | .error m => (s, .error (.mismatch m))

/-- Moves to the directory that the first argument names, without one to the root. -/
def cd (s : Session) (args : List String) : Outcome :=
  match args with
  | [] => (s.changeDirectory []).done .empty
  | target :: _ =>
      match s.tree.resolvePath s.cwd target (some .directory) with
      | some place => (s.changeDirectory place).done .empty
      | none => s.done (.ofError (target ++ ": directory not found"))

/-- The names in a directory, on one line. -/
def directoryLine (s : Session) (place : Place) : String := Drawing.row (s.tree.listed place)

/-- Lists a directory; its path stands in front if it is one of several. -/
def listOne (several : Bool) (s : Session) (path : String) : Outcome :=
  match s.tree.resolvePath s.cwd path (some .directory) with
  | some place =>
      let head := if several then path ++ ": " else ""
      s.done (.ofLine (head ++ s.directoryLine place))
  | none => s.done (.ofError ("ls: cannot access " ++ path ++ ": no such file or directory"))

/-- Lists directories, without any the one the session is in. -/
def ls (s : Session) (args : List String) : Outcome :=
  match args with
  | [] =>
      if s.tree.isDirectory s.cwd then s.done (.ofLine (s.directoryLine s.cwd))
      else (s, .error (.mismatch (Kind.text.lacks "children")))
  | paths => s.each (listOne (1 < paths.length)) paths

/-- The name by which an error calls a directory: the root goes by its label. -/
def directoryName (s : Session) (place : Place) (name : String) : String :=
  if name = "" then (s.tree.path place).plain else name

def catOne (s : Session) (path : String) : Outcome :=
  s.done <| match s.tree.resolvePath s.cwd path none with
    | none => .ofError (ShellError.noSuchFile path "cat").line
    | some place =>
        match s.tree.at? place with
        | some (.file _ lines _) => { out := lines }
        | some (.directory name _) =>
            .ofError (ShellError.isDirectory (s.directoryName place name) "cat").line
        | none => .empty

def cat (s : Session) (args : List String) : Outcome := s.each catOne args

/-- Makes a node, which the result then carries. -/
def make (s : Session) (segments : List String) (kind : Kind) : Outcome :=
  match s.create s.cwd segments kind with
  | .ok (s, place) => s.done { data := some place }
  | .error (.shell e) => s.done (.ofError e.line)
  | .error failure => (s, .error failure)

/-- Sets the modification time of a text file, which is made if there is none. -/
def touchOne (s : Session) (path : String) : Outcome :=
  match s.tree.resolvePath s.cwd path (some .text) with
  | none => s.make (Path.split path) .text
  | some place =>
      if s.tree.isDirectory place then s.done .empty
      else { s with tree := s.tree.touch place }.done { data := some place }

def touch (s : Session) (args : List String) : Outcome := s.each touchOne args

/-- Makes a directory if there is none. -/
def mkdirOne (s : Session) (path : String) : Outcome :=
  match s.tree.resolvePath s.cwd path (some .directory) with
  | some _ => s.done .empty
  | none => s.make (Path.split path) .directory

def mkdir (s : Session) (args : List String) : Outcome := s.each mkdirOne args

/-- Opens the editor on a text file, or on none yet. -/
def openEditor (s : Session) (segments : List String) (file : Option Place) : Session :=
  let lines := (file.bind s.tree.lines?).getD []
  { s with editor := some (.ofLines segments s.cwd file lines) }.note
    (.debug "session" "Child process started"
      [("path", Log.Detail.ofString (Path.join segments))])

def vi (s : Session) (args : List String) : Outcome :=
  match args with
  | [] => s.done (.ofError "vi: missing file operand")
  | path :: _ =>
      let file := (s.tree.resolvePath s.cwd path (some .text)).filter fun place ↦
        !s.tree.isDirectory place
      (s.openEditor (Path.split path) file).done { data := file }

end Session

namespace Builtin

/-- What a command of the shell does; `listing` describes the registered commands. -/
def run (listing : List String) (b : Builtin) : Handler := fun s cmd ↦
  match b with
  | clear => (s.draw .clear).done .empty
  | pwd => s.showValue Tree.labelGroup (s.tree.path s.cwd)
  | whoami => s.showValue s.userGroup s.settings.user
  | cd => s.cd cmd.args
  | ls => s.ls cmd.args
  | cat => s.cat cmd.args
  | touch => s.touch cmd.args
  | mkdir => s.mkdir cmd.args
  | echo => s.done (.ofLine (Text.join ' ' cmd.args))
  | vi => s.vi cmd.args
  | help => s.done { out := .text "Available commands:" :: listing.map .text }

end Builtin

def Action.run (listing : List String) : Action → Handler
  | builtin b => b.run listing
  | custom run => run

/-!
## Executing a line

The body of a line with a redirect is executed first, whatever redirects it still holds; then its
output is written to the target, which is made if there is none. Only the errors of the body are
left in the result. The failure of a command ends up as a line of error output; only a target that
cannot be made in a text file makes the execution fail.
-/

namespace Session

open Log (Detail Record)

/-- The result of an action; a failure becomes its error line and, unless it is an error of the
shell, is logged. -/
def settle (cmd : Command) : Outcome → Session × Result Place
  | (s, .ok r) => (s, r)
  | (s, .error (.shell e)) => (s, .ofError e.line)
  | (s, .error failure) =>
      (s.note (.exception "interpreter" ("Command " ++ cmd.name ++ " raised " ++ failure.title)
          (Record.failureText failure.title failure.message)
          [("line", Detail.ofString cmd.body)]),
        .ofError (cmd.name ++ ": " ++ failure.message))

/-- Runs a command without regard to its redirect. -/
def dispatch (s : Session) (reg : Registry) (cmd : Command) : Session × Result Place :=
  if cmd.isEmpty then (s, .empty)
  else
    match reg.find? cmd.name with
    | none =>
        (s.note (.info "interpreter" "Unknown command" [("command", Detail.ofString cmd.name)]),
          .ofError (ShellError.commandNotFound cmd.name).line)
    | some spec =>
        let s := s.note (.debug "interpreter" "Dispatching"
          [("command", Detail.ofString cmd.name), ("args", .words cmd.args)])
        settle cmd (spec.action.run reg.listing s cmd)

/-- The file that a redirect writes to, which is made if there is none. -/
def redirectTarget (s : Session) (target : String) : Session × Except Failure Place :=
  let directory : Failure := .shell (.isDirectory target "bash")
  match s.tree.resolvePath s.cwd target (some .text) with
  | some place => (s, if s.tree.isDirectory place then .error directory else .ok place)
  | none =>
      if (s.tree.resolvePath s.cwd target (some .directory)).isSome then (s, .error directory)
      else
        match s.create s.cwd (Path.split target) .text with
        | .ok (s, place) => (s, .ok place)
        | .error (.shell _) =>
            (s.note (.info "interpreter" "Redirect target not created"
                [("target", Detail.ofString target)]),
              .error (.shell (.noSuchFile target "bash")))
        | .error failure => (s, .error failure)

def deliver (s : Session) (mode : RedirectMode) (place : Place) (lines : List Line) : Session :=
  match mode with
  | .truncate => { s with tree := s.tree.write place lines }
  | .append => { s with tree := s.tree.append place lines }

/-- Sends a result to the target of a redirect. -/
def redirect (s : Session) (r : Redirect) (inner : Result Place) : Outcome :=
  match s.redirectTarget r.target with
  | (s, .ok place) =>
      (s.deliver r.mode place inner.out).done { err := inner.err, data := some place }
  | (s, .error (.shell e)) => s.done (.ofError e.line)
  | (s, .error failure) => (s, .error failure)

/-- Executes a line. The body of a line has fewer redirect operators than the line. -/
def execute (s : Session) (reg : Registry) (line : String) : Outcome :=
  match _hp : Command.parse line with
  | .error e =>
      (s.note (.debug "parser" "Redirect without target" [("line", Detail.ofString line)])).done
        (.ofError e.line)
  | .ok cmd =>
      match _hr : cmd.redirect with
      | none =>
          let (s, result) := s.dispatch reg cmd
          s.done result
      | some r =>
          match s.execute reg cmd.body with
          | (s, .ok inner) => s.redirect r inner
          | (s, .error failure) => (s, .error failure)
termination_by line.toList.count '>'
decreasing_by exact Command.count_body_lt _hp _hr

end Session

end TreeShell
