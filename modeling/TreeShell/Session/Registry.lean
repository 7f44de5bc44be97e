import TreeShell.Command
import TreeShell.Session.Basic

/-!
# The registry of commands

A registered command has a name, an action, the kinds of nodes its arguments name and a
description. The action is one of the shell's own or any function of the session and the command
line; such a function may change the session and then fail.
-/

namespace TreeShell

inductive Builtin where
  | clear
  | pwd
  | whoami
  | cd
  | ls
  | cat
  | touch
  | mkdir
  | echo
  | vi
  | help
  deriving DecidableEq, Repr

/-- A session after an action, with the result unless the action failed. -/
abbrev Outcome := Session × Except Failure (Result Place)

/-- What a command does. -/
abbrev Handler := Session → Command → Outcome

inductive Action where
  | builtin (b : Builtin)
  | custom (run : Handler)

structure Spec where
  name : String
  action : Action
  /-- The kinds of nodes that arguments name; all kinds if there is none. -/
  kinds : Option (List Kind) := none
  description : String := ""

/-- The registered commands in order; a name occurs once. -/
structure Registry where
  specs : List Spec := []

namespace Registry

def find? (r : Registry) (name : String) : Option Spec := r.specs.find? (·.name == name)

def names (r : Registry) : List String := r.specs.map Spec.name

/-- Puts a command in the place of one of its name, or after all others. -/
def put (spec : Spec) : List Spec → List Spec
  | [] => [spec]
  | other :: specs =>
      if other.name = spec.name then spec :: specs else other :: put spec specs

def register (r : Registry) (spec : Spec) : Registry := ⟨put spec r.specs⟩

def ofList (specs : List Spec) : Registry := specs.foldl register {}

/-- The kinds of nodes that a command's arguments name; all kinds for a command that is not
registered. -/
def kindsFor (r : Registry) (name : String) : Option (List Kind) := (r.find? name).bind Spec.kinds

/-- The commands with their descriptions, one on a line. -/
def listing (r : Registry) : List String :=
  r.specs.map fun spec ↦ "  " ++ Text.padEnd 8 spec.name ++ spec.description

end Registry

namespace Builtin

def all : List Builtin := [clear, pwd, whoami, cd, ls, cat, touch, mkdir, echo, vi, help]

def name : Builtin → String
  | clear => "clear"
  | pwd => "pwd"
  | whoami => "whoami"
  | cd => "cd"
  | ls => "ls"
  | cat => "cat"
  | touch => "touch"
  | mkdir => "mkdir"
  | echo => "echo"
  | vi => "vi"
  | help => "help"

def kinds : Builtin → Option (List Kind)
  | clear | pwd | whoami | help => some []
  | cd | ls | mkdir => some [.directory]
  | cat | touch | vi => some [.text]
  | echo => none

def description : Builtin → String
  | clear => "clear the screen"
  | pwd => "print the working directory"
  | whoami => "print the current user"
  | cd => "change directory"
  | ls => "list directory contents"
  | cat => "print file contents"
  | touch => "create a file or update its timestamp"
  | mkdir => "create a directory"
  | echo => "print arguments"
  | vi => "edit a text file"
  | help => "show this help"

def spec (b : Builtin) : Spec := ⟨b.name, .builtin b, b.kinds, b.description⟩

end Builtin

def Registry.standard : Registry := ⟨Builtin.all.map Builtin.spec⟩

end TreeShell
