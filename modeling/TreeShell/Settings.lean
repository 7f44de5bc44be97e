import TreeShell.Json.Basic
import TreeShell.Log.Journal
import TreeShell.Result
import TreeShell.Tree.Create

/-!
# Settings

The settings of the shell, of its tree and of its log, and how they are read.
-/

namespace TreeShell

/-!
## Settings

The settings of the shell, of its tree and of its log. A setting is kept as the value it was
given; what a value of an unexpected kind does shows where the setting is used.
-/

structure ShellSettings where
  user : Json := .text "guest"
  hostname : Json := .text "www.carlegbert.com"
  promptTemplate : Json := .text "\x7buser\x7d@\x7bhostname\x7d:\x7bpath\x7d$ "
  enableAutocomplete : Json := .bool true
  deriving Repr, Inhabited

def defaultSeed : List (String × Json) :=
  [("about.txt", .list
      [.text "Hi, I'm Carl.", .text "Type 'help' to see what this shell can do."]),
    ("contact.txt", .list
      [.text "email: carl@carlegbert.com", .text "github: github.com/carlegbert"]),
    ("projects", .object [("shell.txt", .list [.text "This website."])])]

structure FilesystemSettings where
  rootLabel : Json := .text "~"
  seed : List (String × Json) := defaultSeed
  deriving Repr, Inhabited

structure LoggingSettings where
  level : String := "WARNING"
  logFile : Json := .null
  consoleOutput : Json := .bool false
  deriving Repr, Inhabited

structure Config where
  shell : ShellSettings := {}
  filesystem : FilesystemSettings := {}
  logging : LoggingSettings := {}
  deriving Repr, Inhabited

/-!
## Reading settings

Settings are read from a JSON object with a section for the shell, one for the tree and one for
the log; what is missing has its default. The sections are checked in this order. The seed of
the tree and the level of the log are checked, all other settings are kept as they are.
-/

namespace Config

def invalid (message : String) : Failure := .shell (.invalidConfig message none)

/-- The fields of a section, if there is one. -/
def section? (fields : List (String × Json)) (name : String) :
    Except Failure (Option (List (String × Json))) :=
  match Json.field? name fields with
  | none => .ok none
  | some (.object inner) => .ok (some inner)
  | some _ => .error (invalid (name ++ " must be an object"))

def checkSeed (path : String) (v : Json) : Except Failure (List (String × Json)) :=
  match Seed.check path v, v with
  | .ok (), .object fields => .ok fields
  | .ok (), _ => .ok []
  | .error e, _ => .error (.shell e)

/-- The name of a level, in any case. -/
def checkLevel : Json → Except Failure String
  | .text name =>
      if (Log.levelOfName? name).isSome then .ok name
      else .error (invalid ("Unknown log level: " ++ name))
  | v => .error (.mismatch (.noMember v.kindName "upper"))

def readShell (fields : List (String × Json)) : ShellSettings :=
  let get (name : String) (usual : Json) := (Json.field? name fields).getD usual
  let usual : ShellSettings := {}
  { user := get "user" usual.user
    hostname := get "hostname" usual.hostname
    promptTemplate := get "prompt_template" usual.promptTemplate
    enableAutocomplete := get "enable_autocomplete" usual.enableAutocomplete }

def readFilesystem (fields : List (String × Json)) : Except Failure FilesystemSettings := do
  let usual : FilesystemSettings := {}
  let seed ← checkSeed "filesystem.seed" ((Json.field? "seed" fields).getD (.object usual.seed))
  pure { rootLabel := (Json.field? "root_label" fields).getD usual.rootLabel, seed }

def readLogging (fields : List (String × Json)) : Except Failure LoggingSettings := do
  let usual : LoggingSettings := {}
  let level ← checkLevel ((Json.field? "level" fields).getD (.text usual.level))
  pure
    { level
      logFile := (Json.field? "log_file" fields).getD usual.logFile
      consoleOutput := (Json.field? "console_output" fields).getD usual.consoleOutput }

/-- The settings that a value describes. -/
def ofJson : Json → Except Failure Config
  | .object fields => do
      let usual : Config := {}
      let shell := (← section? fields "shell").elim usual.shell readShell
      let filesystem ← match ← section? fields "filesystem" with
        | some inner => readFilesystem inner
        | none => pure usual.filesystem
      let logging ← match ← section? fields "logging" with
        | some inner => readLogging inner
        | none => pure usual.logging
      pure { shell, filesystem, logging }
  | _ => .error (invalid "Configuration root must be an object")

/-- The settings in a file of the host. -/
def load (path : String) (found : Host.Entry) : Except Failure Config :=
  let refuse (message : String) : Failure := .shell (.invalidConfig message (some path))
  match found with
  | .missing | .blocked => .error (refuse ("Configuration file not found: " ++ path))
  | .directory =>
      let reason := (Host.Fault.problem .isDirectory (Host.normal path)).message
      .error (refuse ("Cannot read configuration file: " ++ reason))
  | .failed f => .error (.host f)
  | .file content =>
      let text := Host.plainNewlines content
      match Json.read text with
      | .ok v => ofJson v
      | .error ⟨.longNumber digits, _⟩ => .error (.longNumber digits)
      | .error e => .error (refuse ("Invalid JSON in configuration file: " ++ e.message text))

end Config

end TreeShell
