import TreeShell.Error
import TreeShell.Json.Basic
import TreeShell.Text.Pieces

/-!
# Lines

The lines of a file and of an output are texts, as a rule. A setting that holds a list gives its
items for lines, whatever they are; such a line can be kept and shown, but not every line can be
edited or written to a stream.

A line that is a list itself is not copied when it goes from a setting to a file or an editor: all
of them hold the same list and see it change. Marks tell which lines are the same list.
-/

namespace TreeShell

/-- Tells lists apart: by the value they are the items of, or by the edit that made them, and by
their index there. -/
structure Mark where
  group : Nat
  index : Nat := 0
  deriving DecidableEq, Repr

/-- A line: a text or the value that stands for one. Lists with one mark are one list. -/
inductive Line where
  | text (s : String)
  | list (mark : Mark) (items : List Json)
  | other (v : Json)
  deriving DecidableEq, Repr

namespace Line

def value : Line → Json
  | text s => .text s
  | list _ items => .list items
  | other v => v

/-- The line that a value is; the mark counts if it is a list. -/
def ofJson (mark : Mark) : Json → Line
  | .text s => text s
  | .list items => list mark items
  | v => other v

/-- The items of a value: the characters of a text, the items of a list, the names in an object.
The marks of the items are of the given group. -/
def items (group : Nat) : Json → Except Mismatch (List Line)
  | .text s => .ok (s.toList.map fun c ↦ text (String.singleton c))
  | .list vs => .ok (vs.mapIdx fun i v ↦ ofJson ⟨group, i⟩ v)
  | .object fields => .ok (fields.map fun f ↦ text f.1)
  | v => .error (.noItems v.kindName)

/-- The lines that a value stands for: one for a text, one for each item of any other value, none
for nothing. -/
def linesOf (group : Nat) : Json → Except Mismatch (List Line)
  | .null => .ok []
  | .text s => .ok [text s]
  | v => items group v

def isOn (l : Line) : Bool := l.value.isOn

/-- A line without its last character. A list loses its last item; what is left is a new list with
the mark `fresh`. -/
def dropLast (fresh : Mark) : Line → Except Mismatch Line
  | text s => .ok (text (Text.dropLast s))
  | list _ items => .ok (list fresh items.dropLast)
  | other (.object _) => .error .noRange
  | other v => .error (.noParts v.kindName)

/-- A line with a text behind it; to a list the characters are added one by one, and it stays the
same list. -/
def push (line : Line) (s : String) : Except Mismatch Line :=
  match line with
  | text t => .ok (text (t ++ s))
  | list mark items => .ok (list mark (items ++ s.toList.map fun c ↦ .text (String.singleton c)))
  | other v => .error (.noSum "+=" v.kindName "str")

/-- A line as it reads after the line `changed` was changed. -/
def after (changed : Line) (line : Line) : Line :=
  match changed, line with
  | list m items, list n _ => if m = n then list m items else line
  | _, _ => line

/-- A value whose items have marks of a group, as it reads after the line `changed` was changed. -/
def valueAfter (changed : Line) (group : Nat) (v : Json) : Json :=
  match changed, v with
  | list m items, .list vs => if m.group = group then .list (vs.set m.index (.list items)) else v
  | _, _ => v

/-- The text of a line with its line end, as it is written to a stream. -/
def ended : Line → Except Mismatch String
  | text s => .ok (s ++ "\n")
  | list _ _ => .error (.noListSum "str")
  | other v => .error (.noSum "+" v.kindName "str")

/-- The texts of lines from the `index`-th on. -/
def textsFrom (index : Nat) : List Line → Except Mismatch (List String)
  | [] => .ok []
  | text s :: lines => (textsFrom (index + 1) lines).map (s :: ·)
  | line :: _ => .error (.notText index line.value.kindName)

/-- Lines as one text with a separator between them; all of them have to be texts. -/
def joined (separator : String) (lines : List Line) : Except Mismatch String :=
  (textsFrom 0 lines).map separator.intercalate

theorem textsFrom_map_text (index : Nat) (ss : List String) :
    textsFrom index (ss.map text) = .ok ss := by
  induction ss generalizing index with
  | nil => rfl
  | cons s ss ih => simp [textsFrom, ih, Except.map]

/-- A change of a text shows nowhere else. -/
@[simp] theorem after_text (s : String) (line : Line) : after (text s) line = line := rfl

@[simp] theorem valueAfter_text (s : String) (group : Nat) (v : Json) :
    valueAfter (text s) group v = v := rfl

/-- A line that was changed reads as it was left. -/
@[simp] theorem after_self (line : Line) : after line line = line := by
  cases line <;> simp [after]

end Line

end TreeShell
