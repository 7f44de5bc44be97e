import TreeShell.Json.Basic
import TreeShell.Number.Binary64

/-!
# Errors

What goes wrong has a kind, a message and a name under which it is reported.
-/

namespace TreeShell

/-!
## Values that do not fit

A setting holds a value of any kind. A use that its kind does not allow breaks off; the message
names the kinds that do not go together.
-/

inductive Mismatch where
  /-- Things of a kind have no member of this name. -/
  | noMember (kind name : String)
  /-- The kind has no items to go through. -/
  | noItems (kind : String)
  /-- The kind has no parts to take out. -/
  | noParts (kind : String)
  /-- The parts of an object have names and no order. -/
  | noRange
  /-- The two kinds cannot be added. -/
  | noSum (operator left right : String)
  /-- Nothing but a list can be added to a list. -/
  | noListSum (kind : String)
  /-- Only texts can be joined. -/
  | notText (index : Nat) (kind : String)
  /-- The kind does not stand for a whole number. -/
  | notWhole (kind : String)
  /-- The kind does not stand for a path. -/
  | notPath (kind : String)
  deriving DecidableEq, Repr

namespace Mismatch

def message : Mismatch → String
  | noMember kind name => "'" ++ kind ++ "' object has no attribute '" ++ name ++ "'"
  | noItems kind => "'" ++ kind ++ "' object is not iterable"
  | noParts kind => "'" ++ kind ++ "' object is not subscriptable"
  | noRange => "unhashable type: 'slice'"
  | noSum operator left right =>
      "unsupported operand type(s) for " ++ operator ++ ": '" ++ left ++ "' and '" ++ right ++ "'"
  | noListSum kind => "can only concatenate list (not \"" ++ kind ++ "\") to list"
  | notText index kind =>
      "sequence item " ++ Number.natText index ++ ": expected str instance, " ++ kind ++ " found"
  | notWhole kind => "'" ++ kind ++ "' object cannot be interpreted as an integer"
  | notPath kind => "expected str, bytes or os.PathLike object, not " ++ kind

def title : Mismatch → String
  | noMember _ _ => "AttributeError"
  | _ => "TypeError"

end Mismatch

/-!
## Errors of the shell

Every error has a message, the line that the user sees, a code and the values it is about. The
line is the message unless the error says otherwise.
-/

inductive ShellError where
  | commandNotFound (command : String)
  | directoryNotFound (path : String)
  | noSuchFile (path command : String)
  | isDirectory (name command : String)
  | missingTarget (operator : String)
  | invalidConfig (message : String) (path : Option String)
  | general (message : String) (line : Option String) (code : Json)
      (context : List (String × Json))
  deriving Repr, Inhabited

namespace ShellError

def name : ShellError → String
  | commandNotFound _ => "CommandNotFoundError"
  | directoryNotFound _ => "DirectoryNotFoundError"
  | noSuchFile _ _ => "NoSuchFileError"
  | isDirectory _ _ => "IsDirectoryError"
  | missingTarget _ => "RedirectSyntaxError"
  | invalidConfig _ _ => "ConfigValidationError"
  | general _ _ _ _ => "ShellException"

def message : ShellError → String
  | commandNotFound command => "Command not found: " ++ command
  | directoryNotFound path => "Directory not found: " ++ path
  | noSuchFile path _ => "No such file or directory: " ++ path
  | isDirectory name _ => "Is a directory: " ++ name
  | missingTarget operator => "Missing redirect target after '" ++ operator ++ "'"
  | invalidConfig message _ => message
  | general message _ _ _ => message

/-- The line shown to the user. -/
def line : ShellError → String
  | commandNotFound command => command ++ ": command not found"
  | directoryNotFound path => path ++ ": Directory not found"
  | noSuchFile path command => command ++ ": " ++ path ++ ": No such file or directory"
  | isDirectory name command => command ++ ": " ++ name ++ ": Is a directory"
  | missingTarget _ => "bash: syntax error near unexpected token \x60newline'"
  | invalidConfig message _ => message
  | general message line _ _ => line.getD message

/-- The code of an error; a code that is switched off stands for the general one. -/
def code : ShellError → Json
  | commandNotFound _ => .int 5001
  | directoryNotFound _ => .int 5002
  | noSuchFile _ _ => .int 5003
  | isDirectory _ _ => .int 5004
  | missingTarget _ => .int 5005
  | invalidConfig _ _ => .int 5100
  | general _ _ code _ => if code.isOn then code else .int 5000

def context : ShellError → List (String × Json)
  | commandNotFound command => [("command", .text command)]
  | directoryNotFound path => [("path", .text path)]
  | noSuchFile path _ => [("path", .text path)]
  | isDirectory name _ => [("name", .text name)]
  | missingTarget operator => [("operator", .text operator)]
  | invalidConfig _ path =>
      match path with
      | some p => if p = "" then [] else [("path", .text p)]
      | none => []
  | general _ _ _ context => context

/-- The message with its code and context. -/
def describe (e : ShellError) : String :=
  let head := "[Error " ++ e.code.plain ++ "] " ++ e.message
  match e.context with
  | [] => head
  | fields =>
      head ++ " (" ++ ", ".intercalate (fields.map fun (k, v) ↦ k ++ "=" ++ v.plain) ++ ")"

/-- The error as a term: its name, message and code. -/
def term (e : ShellError) : String :=
  e.name ++ "(message=" ++ Text.quoted e.message ++ ", error_code=" ++ e.code.plain ++ ")"

end ShellError

end TreeShell
