import TreeShell.Number.Binary64
import TreeShell.Text.Character

/-!
# JSON values

The values that settings and seeds are made of, when two of them are equal and how they are shown.
-/

namespace TreeShell

/-!
## JSON values

Objects keep their fields in the order of the text; a name occurs once.
-/

inductive Json where
  | null
  | bool (b : Bool)
  | int (n : Int)
  | real (x : Number.Binary64)
  | text (s : String)
  | list (items : List Json)
  | object (fields : List (String × Json))
  deriving Repr, Inhabited

namespace Json

def kindName : Json → String
  | null => "NoneType"
  | bool _ => "bool"
  | int _ => "int"
  | real _ => "float"
  | text _ => "str"
  | list _ => "list"
  | object _ => "dict"

/-- Whether a setting with this value counts as switched on: null, false, zero and everything
empty are off. -/
def isOn : Json → Bool
  | null => false
  | bool b => b
  | int n => n != 0
  | real (.finite _ mantissa _) => mantissa != 0
  | real _ => true
  | text s => s != ""
  | list items => !items.isEmpty
  | object fields => !fields.isEmpty

def text? : Json → Option String
  | text s => some s
  | _ => none

/-- The texts of a list that holds nothing else. -/
def texts? : List Json → Option (List String)
  | [] => some []
  | text s :: items => (texts? items).map (s :: ·)
  | _ :: _ => none

def field? (name : String) : List (String × Json) → Option Json
  | [] => none
  | (n, v) :: fields => if n = name then some v else field? name fields

/-- Sets the field `name`: in its old place, or at the end if it is new. -/
def setField (name : String) (value : Json) : List (String × Json) → List (String × Json)
  | [] => [(name, value)]
  | (n, v) :: fields =>
      if n = name then (n, value) :: fields else (n, v) :: setField name value fields

end Json

/-!
## Equality of values

Values are compared part by part. Two numbers of different kinds are different values.
-/

namespace Json

mutual

def same : Json → Json → Bool
  | null, null => true
  | bool a, bool b => a == b
  | int a, int b => a == b
  | real a, real b => a == b
  | text a, text b => a == b
  | list as, list bs => sameItems as bs
  | object fs, object gs => sameFields fs gs
  | _, _ => false

def sameItems : List Json → List Json → Bool
  | [], [] => true
  | v :: vs, w :: ws => same v w && sameItems vs ws
  | _, _ => false

def sameFields : List (String × Json) → List (String × Json) → Bool
  | [], [] => true
  | (m, v) :: fs, (n, w) :: gs => m == n && same v w && sameFields fs gs
  | _, _ => false

end

mutual

theorem same_iff : (v w : Json) → (same v w = true ↔ v = w)
  | null, w => by cases w <;> simp [same]
  | bool _, w => by cases w <;> simp [same]
  | int _, w => by cases w <;> simp [same]
  | real _, w => by cases w <;> simp [same]
  | text _, w => by cases w <;> simp [same]
  | list vs, w => by cases w <;> simp [same, sameItems_iff vs]
  | object fs, w => by cases w <;> simp [same, sameFields_iff fs]

theorem sameItems_iff : (vs ws : List Json) → (sameItems vs ws = true ↔ vs = ws)
  | [], ws => by cases ws <;> simp [sameItems]
  | v :: vs, ws => by cases ws <;> simp [sameItems, same_iff v, sameItems_iff vs]

theorem sameFields_iff :
    (fs gs : List (String × Json)) → (sameFields fs gs = true ↔ fs = gs)
  | [], gs => by cases gs <;> simp [sameFields]
  | (_, v) :: fs, gs => by
      rcases gs with _ | ⟨⟨_, _⟩, _⟩ <;>
        simp [sameFields, same_iff v, sameFields_iff fs]

end

instance : DecidableEq Json := fun v w ↦ decidable_of_iff _ (same_iff v w)

end Json

/-!
## Values shown in a text

`plain` is the form of a value in prompts, paths and log lines: a text stands as it is. Inside
lists and objects texts are quoted, which is the form `literal` gives.
-/

namespace Json

mutual

/-- The value with its texts in quotes, shown by `quote`. -/
def literalWith (quote : String → String) : Json → String
  | null => "None"
  | bool b => if b then "True" else "False"
  | int n => Number.intText n
  | real x => x.text
  | text s => quote s
  | list items => "[" ++ ", ".intercalate (literalsWith quote items) ++ "]"
  | object fields => "\x7b" ++ ", ".intercalate (fieldsWith quote fields) ++ "\x7d"

def literalsWith (quote : String → String) : List Json → List String
  | [] => []
  | v :: items => literalWith quote v :: literalsWith quote items

def fieldsWith (quote : String → String) : List (String × Json) → List String
  | [] => []
  | (name, v) :: fields => (quote name ++ ": " ++ literalWith quote v) :: fieldsWith quote fields

end

def literal (v : Json) : String := v.literalWith Text.quoted

def plain : Json → String
  | text s => s
  | v => v.literal

@[simp] theorem plain_text (s : String) : (text s).plain = s := rfl

end Json

end TreeShell
