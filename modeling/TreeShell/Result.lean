import TreeShell.Error
import TreeShell.Host
import TreeShell.Json.Reader
import TreeShell.Line
import TreeShell.Template.Fault

/-!
# Results and failures

A command that comes to an end leaves a result; an operation may be broken off by a failure.
-/

namespace TreeShell

/-!
## Results of commands

A command leaves lines for its output and for its errors, and perhaps the file it worked on.
-/

structure Result (α : Type) where
  out : List Line := []
  err : List Line := []
  data : Option α := none
  deriving DecidableEq, Repr

namespace Result

variable {α : Type}

def empty : Result α := {}

def ofLine (line : String) : Result α := { out := [.text line] }

def ofError (line : String) : Result α := { err := [.text line] }

/-- Both results in order; the later file counts. -/
def combine (r s : Result α) : Result α where
  out := r.out ++ s.out
  err := r.err ++ s.err
  data := s.data.or r.data

/-- The lines in the order in which they are shown. -/
def render (r : Result α) : List Line := r.out ++ r.err

theorem combine_assoc (r s t : Result α) :
    (r.combine s).combine t = r.combine (s.combine t) := by
  simp [combine, Option.or_assoc]

@[simp] theorem combine_empty (r : Result α) : r.combine empty = r := by
  simp [combine, empty]

@[simp] theorem empty_combine (r : Result α) : empty.combine r = r := by
  simp [combine, empty]

end Result

/-!
## Failures

What breaks an operation off: an error of the shell, a value that does not fit, a template that
cannot be filled in, a text that cannot be read, the host, or whatever a command of its own says.
-/

inductive Failure where
  | shell (e : ShellError)
  | mismatch (m : Mismatch)
  | template (f : Template.Fault)
  | host (f : Host.Fault)
  /-- A number with more digits than are read. -/
  | longNumber (digits : Nat)
  /-- A node that was made for another directory than the one at `path`. -/
  | stranger (name : String) (path : Json)
  | raised (title message : String)
  deriving Repr

namespace Failure

def message : Failure → String
  | shell e => e.describe
  | mismatch m => m.message
  | template f => f.message
  | host f => f.message
  | longNumber digits => Json.longNumberMessage digits
  | stranger name path => Text.quoted name ++ " was not created under " ++ path.literal
  | raised _ message => message

def title : Failure → String
  | shell e => e.name
  | mismatch m => m.title
  | template f => f.title
  | host f => f.title
  | longNumber _ | stranger _ _ => "ValueError"
  | raised title _ => title

end Failure

end TreeShell
