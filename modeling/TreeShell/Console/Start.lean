import TreeShell.Console.Arguments
import TreeShell.Log.Journal
import TreeShell.Session.Keystroke
import TreeShell.Settings

/-!
# The program at the console

The program is started with arguments and settings and then runs a session on its input.
-/

namespace TreeShell

/-!
## A session at the console

Lines are read until the input ends, each entered as a whole; an interrupt throws the line being
typed away. At a terminal the prompt is written before a line is read and the line that was typed
is wiped out, because the session shows it again.
-/

namespace Console

/-- What is read at the console: a line with its line end, or an interrupt. -/
inductive Input where
  | line (s : String)
  | interrupt
  deriving DecidableEq, Repr

/-- Moves to the line above and wipes it out. -/
def wipe : Drawing := .raw "\x1b[F\x1b[K"

/-- A line without its line end. A terminal gives one newline at most; elsewhere all of them are
cut off. -/
def chomp (terminal : Bool) (s : String) : String :=
  if terminal then if s.toList.getLast? = some '\n' then Text.dropLast s else s
  else String.ofList (Text.trimEnd (· == '\n') s.toList)

/-- Before a line is read: the prompt with the line being typed, none while the editor is open. -/
def ask (terminal : Bool) (s : Session) : Session × Option Failure :=
  let prompt := if s.editor.isSome then .ok "" else s.prompt.map (· ++ s.buffer)
  match prompt with
  | .error failure => (s, some failure)
  | .ok prompt => (if terminal then s.draw (.raw prompt) else s, none)

def take (terminal : Bool) (reg : Registry) (s : Session) : Input → Session × Option Failure
  | .interrupt => ({ s.draw (.raw "^C\n") with buffer := "" }, none)
  | .line raw =>
      let line := chomp terminal raw
      let editing := s.editor.isSome
      let shown :=
        if terminal ∧ !editing ∧ line.toList.getLast? ≠ some '\t' then s.draw wipe else s
      match shown.feedLine reg line with
      | (s, some failure) => (s, some failure)
      | (s, none) => (if terminal ∧ editing ∧ s.editor.isNone then s.draw wipe else s, none)

def finish (terminal : Bool) (s : Session) : Session :=
  if terminal then s.draw (.raw "\n") else s

/-- Runs a session on an input. A failure ends it at once. -/
def run (terminal : Bool) (reg : Registry) (s : Session) : List Input → Session × Option Failure
  | [] =>
      match ask terminal s with
      | (s, some failure) => (s, some failure)
      | (s, none) => (finish terminal s, none)
  | input :: inputs =>
      match ask terminal s with
      | (s, some failure) => (s, some failure)
      | (s, none) =>
          match take terminal reg s input with
          | (s, some failure) => (s, some failure)
          | (s, none) => run terminal reg s inputs

/-- The lines of a text, each with its line end; `line` is what has been read of the first one,
last character first. -/
def linesFrom (line : List Char) : List Char → List Input
  | [] => if line = [] then [] else [.line (String.ofList line.reverse)]
  | c :: cs =>
      if c = '\n' then .line (String.ofList (c :: line).reverse) :: linesFrom [] cs
      else linesFrom (c :: line) cs

def linesOf (s : String) : List Input := linesFrom [] s.toList

end Console

/-!
## Starting the program

The program reads its arguments and its settings, sets up the log and runs a session on its
input. Bad arguments and bad settings end it with a message. Any other failure, of the log file, the
seed, the prompt or a line that cannot be written, breaks it off.
-/

namespace Console

open Log (Journal)

/-- Which of the streams of the program are terminals. -/
structure Terminals where
  input : Bool := false
  output : Bool := false
  error : Bool := false
  deriving Repr

/-- How the program ends before a session is started. -/
structure Leave where
  code : Nat
  out : String := ""
  err : String := ""
  deriving DecidableEq, Repr

def settingsFor (a : Arguments) (look : String → Host.Entry) : Except Failure Config :=
  match a.config with
  | none => .ok {}
  | some path => if path = "" then .ok {} else Config.load path (look path)

def journalSetup (a : Arguments) (c : Config) (t : Terminals) : Journal.Setup :=
  { level := (Log.levelOfName? (a.level.getD c.logging.level)).getD Log.warningLevel
    file := c.logging.logFile
    console := c.logging.consoleOutput.isOn
    terminal := t.error }

/-- A new session and journal, the first record of which tells of the start. -/
def start (a : Arguments) (c : Config) (t : Terminals) (openFault : String → Option Host.Fault) :
    Session × Journal × Option Failure :=
  match ({} : Journal).start openFault (journalSetup a c t) with
  | (journal, some failure) => ({}, journal, some failure)
  | (journal, none) =>
      let journal := journal.emit
        (.info "session" "Starting session" [("user", .value c.shell.user)])
      let (session, failure) := Session.ofConfig c
      ({ session with surface := .stream }, journal, failure)

/-- What a run of the program leaves. -/
structure Report where
  outcome : Except Failure Nat
  out : String := ""
  err : String := ""
  journal : Journal := {}

def record (s : Session) (j : Journal) : Session × Journal :=
  ({ s with log := [] }, j.emitAll s.log)

def report (t : Terminals) (s : Session) (j : Journal) (outcome : Except Failure Nat) : Report :=
  let (s, journal) := record s j
  { outcome, out := streamText t.output s.screen, journal }

/-- Settings for the arguments, or how the program ends without them. -/
def prepare (args : List String) (look : String → Host.Entry) :
    Except (Except Failure Leave) (Arguments × Config) :=
  match Request.ofArguments args with
  | .help => .error (.ok ⟨0, helpText, ""⟩)
  | .misuse message => .error (.ok ⟨2, "", misuseText message⟩)
  | .run a =>
      match settingsFor a look with
      | .ok c => .ok (a, c)
      | .error (.shell e) => .error (.ok ⟨1, "", "vshell: " ++ e.message ++ "\n"⟩)
      | .error failure => .error (.error failure)

/-- The program as a function of its arguments, the host and its input. -/
def runProgram (args : List String) (host : Host.View) (t : Terminals) (inputs : List Input) :
    Report :=
  match prepare args host.look with
  | .error (.error failure) => { outcome := .error failure }
  | .error (.ok leave) => { outcome := .ok leave.code, out := leave.out, err := leave.err }
  | .ok (a, c) =>
      match start a c t host.openFault with
      | (s, journal, some failure) => report t s journal (.error failure)
      | (s, journal, none) =>
          let (s, failure) := run t.input .standard s inputs
          report t s journal (failure.elim (.ok 0) .error)

end Console

end TreeShell
