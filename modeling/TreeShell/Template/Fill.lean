import TreeShell.Template.Fault
import TreeShell.Template.Subject
import TreeShell.Text.Pieces

/-!
# Templates

A template is read item by item, and its fields are filled in with values.
-/

namespace TreeShell

/-!
## The items of a template

A template is text with fields between braces; a doubled brace stands for itself. A field has a
name, perhaps a conversion letter after `!`, and perhaps a layout after `:`, in which braces
nest. The items are read from the left, up to the first fault of the syntax.
-/

namespace Template

open Text (Step)

inductive Item where
  | literal (c : Char)
  | field (name : List Char) (conversion : Option Char) (layout : List Char)
  deriving DecidableEq, Repr

/-- The name of a field and the character that ends it. Between brackets, where `inside` is
true, every character belongs to the name. -/
def fieldName (inside : Bool) : (cs : List Char) → Except Fault (Step (List Char × Char) cs)
  | [] => .error .unclosedField
  | c :: cs =>
      if !inside && c == '\x7b' then .error .braceInName
      else if !inside && (c == '\x7d' || c == ':' || c == '!') then .ok ⟨([], c), cs, by simp⟩
      else do
        let r ← fieldName (if inside then c != ']' else c == '[') cs
        pure ((r.map fun (name, stop) ↦ (c :: name, stop)).after c)

/-- A layout up to the brace that closes the field, `depth` braces being open inside it. -/
def layoutPart (depth : Nat) : (cs : List Char) → Except Fault (Step (List Char) cs)
  | [] => .error .unclosedLayout
  | c :: cs =>
      if c = '\x7d' ∧ depth = 0 then .ok ⟨[], cs, by simp⟩
      else do
        let r ← layoutPart
          (if c = '\x7d' then depth - 1 else if c = '\x7b' then depth + 1 else depth) cs
        pure ((r.map (c :: ·)).after c)

/-- What follows the exclamation mark of a field. -/
def conversionPart (cs : List Char) : Except Fault (Step (Char × List Char) cs) :=
  match cs with
  | [] => .error .noConversion
  | [_] => .error .unclosedLayout
  | c :: '\x7d' :: rest => .ok ((Step.one (c, []) '\x7d' rest).after c)
  | c :: ':' :: rest => do
      let r ← layoutPart 0 rest
      pure (((r.map fun layout ↦ (c, layout)).after ':').after c)
  | _ => .error .noColonAfterConversion

/-- The field after an opening brace. -/
def fieldItem (cs : List Char) : Except Fault (Step Item cs) := do
  let ⟨(name, stop), rest, h⟩ ← fieldName false cs
  if stop = ':' then
    let r ← layoutPart 0 rest
    pure ((r.map fun layout ↦ .field name none layout).widen (Nat.le_of_lt h))
  else if stop = '!' then
    let r ← conversionPart rest
    pure ((r.map fun (c, layout) ↦ .field name (some c) layout).widen (Nat.le_of_lt h))
  else pure ⟨.field name none [], rest, h⟩

/-- The items up to the first fault of the syntax, and that fault. Every item takes at least one
of the characters, of which there are at most as many as the budget. -/
def itemsWithin : Nat → List Char → List Item × Option Fault
  | 0, _ => ([], none)
  | _, [] => ([], none)
  | budget + 1, c :: rest =>
      let plain (rest : List Char) : List Item × Option Fault :=
        let (more, fault) := itemsWithin budget rest
        (.literal c :: more, fault)
      if c = '\x7b' ∨ c = '\x7d' then
        match rest with
        | [] => ([], some (.loneBrace c))
        | d :: after =>
            if d = c then plain after
            else if c = '\x7d' then ([], some (.loneBrace c))
            else
              match fieldItem rest with
              | .error fault => ([], some fault)
              | .ok ⟨item, after, _⟩ =>
                  let (more, fault) := itemsWithin budget after
                  (item :: more, fault)
      else plain rest

def items (cs : List Char) : List Item × Option Fault := itemsWithin cs.length cs

end Template

/-!
## Filling in a template

The fields of a template are looked up by name among the given values. A name may be followed by
steps into the value, `[0]` or `[key]`; a layout may hold fields of its own, but no deeper ones.
The first fault from the left decides.
-/

namespace Template

/-- The characters of a name before its first step. -/
def isPlain (c : Char) : Bool := c != '.' && c != '['

/-- The first step and the text after it. -/
def access : (cs : List Char) → Except Fault (Access × List Char)
  | '.' :: cs =>
      match cs.takeWhile isPlain with
      | [] => .error .emptyStep
      | name => .ok (.member name, cs.dropWhile isPlain)
  | '[' :: cs =>
      let name := cs.takeWhile (· != ']')
      match cs.dropWhile (· != ']') with
      | [] => .error .unclosedIndex
      | _ :: rest => do
          let _ ← number? name
          if name = [] then throw .emptyStep
          pure (.index name, rest)
  | _ => .error .strayAfterIndex

/-- Follows the steps after a name; there are at most as many as there are characters. -/
def walk (s : Subject) (steps : List Char) : Nat → Except Fault Subject
  | 0 => .ok s
  | budget + 1 =>
      match steps with
      | [] => .ok s
      | steps => do
          let (step, rest) ← access steps
          walk (← s.follow step) rest budget

/-- What a field name stands for. There are no values without a name, so every number asks for one
too many. -/
def lookup (values : List (String × Json)) (name : List Char) : Except Fault Subject := do
  let first := name.takeWhile isPlain
  match ← number? first with
  | some n => throw (.positional n)
  | none =>
      if first = [] then throw (.positional 0)
      match Json.field? (String.ofList first) values with
      | none => throw (.unknownField (String.ofList first))
      | some v => walk (.value v) (name.dropWhile isPlain) name.length

/-- A layout with its own fields filled in by `inner`. -/
def fillLayout (inner : List Char → Except Fault (List Char)) (layout : List Char) :
    Except Fault (List Char) :=
  if '\x7b' ∈ layout then inner layout else .ok layout

/-- The items of a template filled in; `inner` fills in the fields of layouts. -/
def fillItems (values : List (String × Json)) (inner : List Char → Except Fault (List Char)) :
    List Item → Except Fault (List Char)
  | [] => .ok []
  | .literal c :: more => do
      let cs ← fillItems values inner more
      pure (c :: cs)
  | .field name conversion layout :: more => do
      let s ← lookup values name
      let s ← match conversion with
        | some c => s.convert c
        | none => pure s
      let shown ← s.present (← fillLayout inner layout)
      let cs ← fillItems values inner more
      pure (shown ++ cs)

/-- A template with its fields filled in; `depth` counts how deep templates may be nested. -/
def fillNested (values : List (String × Json)) : Nat → List Char → Except Fault (List Char)
  | 0, _ => .error .nestedTooDeep
  | depth + 1, cs => do
      let (parts, fault) := items cs
      let shown ← fillItems values (fillNested values depth) parts
      match fault with
      | some fault => throw fault
      | none => pure shown

def fill (values : List (String × Json)) (template : String) : Except Fault String :=
  (fillNested values 2 template.toList).map String.ofList

end Template

end TreeShell
