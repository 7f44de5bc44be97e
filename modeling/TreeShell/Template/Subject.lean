import TreeShell.Json.Basic
import TreeShell.Template.Layout
import TreeShell.Template.Members

/-!
# What a field stands for

A field names a value, and steps lead from a value into its parts: the characters of a text, the
items of a list, the fields of an object, the parts of a number. Other steps lead to the kind of a
value and to the members of kinds.
-/

namespace TreeShell

namespace Template

inductive Subject where
  | value (v : Json)
  | kind (name : String)
  /-- A fixed row of kinds. -/
  | kinds (names : List String)
  /-- A fixed row of values. -/
  | values (vs : List Json)
  /-- A generic kind with what was given for the kind of its items. -/
  | generic (kind : String) (argument : Json)
  /-- A member of the values of a kind. -/
  | part (form : Form) (name owner : String)
  /-- A member of one value. -/
  | bound (form : Form) (name owner : String) (self : Subject)
  deriving Repr

/-- A step from a value into one of its parts. -/
inductive Access where
  | member (name : List Char)
  | index (name : List Char)
  deriving DecidableEq, Repr

/-- The number that an index or a field name stands for, if it consists of digits. -/
def number? (cs : List Char) : Except Fault (Option Nat) :=
  let ds := cs.takeWhile Text.isDigit
  if Nat.pow 2 63 ≤ Text.digitsValue ds then .error .tooManyDigits
  else .ok (if ds ≠ [] ∧ ds = cs then some (Text.digitsValue ds) else none)

namespace Subject

/-- The kind of a generic kind with its argument. -/
def genericName : String := "types.GenericAlias"

def kindName : Subject → String
  | value v => v.kindName
  | kind _ => "type"
  | kinds _ | values _ => "tuple"
  | generic _ _ => genericName
  | part form _ _ => form.kindName
  | bound form _ _ _ => form.boundName

def ofString (s : String) : Subject := value (.text s)

/-- The part of a number with a name. A truth value counts as zero or one. -/
def numberPart? (v : Json) (name : String) : Option Json :=
  let whole (n : Int) : Option Json :=
    match name with
    | "real" | "numerator" => some (.int n)
    | "imag" => some (.int 0)
    | "denominator" => some (.int 1)
    | _ => none
  match v with
  | .bool b => whole (if b then 1 else 0)
  | .int n => whole n
  | .real x =>
      match name with
      | "real" => some (.real x)
      | "imag" => some (.real (.ofInt 0))
      | _ => none
  | _ => none

/-- A member that the subject `s` has as a value of a kind. -/
def shared? (s : Subject) (k name : String) : Option Subject :=
  if name = "__doc__" then some (value ((about? k).elim .null .text))
  else if name = "__hash__" ∧ isUnhashable k then some (value .null)
  else
    match findMember? k name with
    | some (.maker, owner) => some (bound .maker name owner (kind k))
    | some (form, owner) => some (bound form name owner s)
    | none => none

/-- The name of a kind and the name of the module that it is in. -/
def splitName (k : String) : String × String :=
  if k = genericName then ("GenericAlias", "types") else (k, "builtins")

/-- What a kind tells of itself. -/
def kindPart? (k : String) : String → Option Subject
  | "__name__" | "__qualname__" => some (ofString (splitName k).1)
  | "__module__" => some (ofString (splitName k).2)
  | "__doc__" => some (value ((about? k).elim .null .text))
  | "__text_signature__" => some (value ((signature? k).elim .null .text))
  | "__base__" => some (((lineage k)[1]?).elim (value .null) kind)
  | "__bases__" => some (kinds ((lineage k).drop 1 |>.take 1))
  | "__mro__" => some (kinds (lineage k))
  | _ => none

/-- A member of a kind: what it tells of itself, what its values share, and last what it shares
with all kinds. -/
def kindMember (k name : String) : Except Fault Subject :=
  match kindPart? k name with
  | some s => .ok s
  | none =>
      if name = "__hash__" ∧ isUnhashable k then .ok (value .null)
      else
        match findMember? k name, findMember? "type" name with
        | some (.maker, owner), _ => .ok (bound .maker name owner (kind k))
        | some (form, owner), _ => .ok (part form name owner)
        | none, some (.operator, owner) => .ok (bound .operator name owner (kind k))
        | none, some (.method, owner) => .ok (bound .method name owner (kind k))
        | none, some (.maker, owner) => .ok (bound .maker name owner (kind k))
        | none, _ => .error (.noKindMember k name)

/-- What a generic kind tells of its argument. -/
def genericPart? (k : String) (argument : Json) : String → Option Subject
  | "__origin__" => some (kind k)
  | "__args__" => some (values [argument])
  | "__parameters__" => some (values [])
  | "__unpacked__" => some (value (.bool false))
  | "__typing_unpacked_tuple_args__" => some (value .null)
  | _ => none

/-- What a member tells of itself. -/
def partPart? (form : Form) (name owner : String) : String → Option Subject
  | "__name__" => some (ofString name)
  | "__qualname__" => some (ofString (owner ++ "." ++ name))
  | "__objclass__" => if form = .maker then none else some (kind owner)
  | _ => none

/-- What a member of one value tells of itself. -/
def boundPart? (form : Form) (name owner : String) (self : Subject) : String → Option Subject
  | "__name__" => some (ofString name)
  | "__qualname__" =>
      match form, self with
      | .operator, _ => some (ofString (owner ++ "." ++ name))
      | _, kind k => some (ofString (k ++ "." ++ name))
      | _, s => some (ofString (s.kindName ++ "." ++ name))
  | "__self__" => some self
  | "__objclass__" => if form = .operator then some (kind owner) else none
  | "__module__" => if form = .operator then none else some (value .null)
  | _ => none

def member (s : Subject) (name : String) : Except Fault Subject :=
  let known (found : Option Subject) : Except Fault Subject :=
    match found with
    | some m => .ok m
    | none => .error (.mismatch (.noMember s.kindName name))
  if name = "__class__" then .ok (kind s.kindName)
  else
    match s with
    | value v => known (((numberPart? v name).map value).or (s.shared? v.kindName name))
    | kind k => kindMember k name
    | kinds _ | values _ => known (s.shared? "tuple" name)
    | generic k argument =>
        match genericPart? k argument name with
        | some m => .ok m
        | none =>
            if name = "__copy__" ∨ name = "__deepcopy__" then known none else kindMember k name
    | part form n owner => known ((partPart? form n owner name).or (s.shared? s.kindName name))
    | bound form n owner self =>
        known ((boundPart? form n owner self name).or (s.shared? s.kindName name))

/-- The element of a list at an index. -/
def element {α : Type} (what : String) (as : List α) : Option Nat → Except Fault α
  | none => .error (.wordIndex what)
  | some n =>
      match as[n]? with
      | some a => .ok a
      | none => .error (.outOfRange what)

/-- A generic kind as it is shown. -/
def genericText (k : String) (argument : Json) : String := k ++ "[" ++ argument.literal ++ "]"

/-- The item of a subject with an index. -/
def item (s : Subject) (name : List Char) : Except Fault Subject := do
  let n ← number? name
  match s with
  | kinds names => kind <$> element "tuple" names n
  | values vs => value <$> element "tuple" vs n
  | kind k =>
      if isGeneric k then pure (generic k (n.elim (.text (String.ofList name)) fun n ↦ .int n))
      else throw (.kindNotIndexed k)
  | generic k argument => throw (.notGeneric (genericText k argument))
  | value (.text t) => (value ∘ .text ∘ String.singleton) <$> element "str" t.toList n
  | value (.list items) => value <$> element "list" items n
  | value (.object fields) =>
      match n with
      | some n => throw (.missingNumber n)
      | none =>
          match Json.field? (String.ofList name) fields with
          | some v => pure (value v)
          | none => throw (.missingKey (String.ofList name))
  | s => throw (.mismatch (.noParts s.kindName))

def follow (s : Subject) : Access → Except Fault Subject
  | .member name => s.member (String.ofList name)
  | .index name => s.item name

def kindText (k : String) : String := "<class '" ++ k ++ "'>"

/-- The texts of a row between parentheses; a comma follows a single one. -/
def rowText : List String → String
  | [one] => "(" ++ one ++ ",)"
  | texts => "(" ++ ", ".intercalate texts ++ ")"

/-- A member of one value as it is shown. Where the value lies is left out, since that differs
from run to run. -/
def boundText (form : Form) (name : String) (self : Subject) : String :=
  match form with
  | .operator => "<method-wrapper '" ++ name ++ "' of " ++ self.kindName ++ " object>"
  | _ => "<built-in method " ++ name ++ " of " ++ self.kindName ++ " object>"

/-- A subject as it is shown, texts in quotes. -/
def literalWith (quote : String → String) : Subject → String
  | value v => v.literalWith quote
  | kind k => kindText k
  | kinds names => rowText (names.map kindText)
  | values vs => rowText (vs.map (·.literalWith quote))
  | generic k argument => k ++ "[" ++ argument.literalWith quote ++ "]"
  | part form name owner => "<" ++ form.title ++ " '" ++ name ++ "' of '" ++ owner ++ "' objects>"
  | bound form name _ self => boundText form name self

def plain : Subject → String
  | value v => v.plain
  | s => s.literalWith Text.quoted

/-- The conversion asked for by a letter. -/
def convert (s : Subject) : Char → Except Fault Subject
  | '\x00' => .ok s
  | 's' => .ok (value (.text s.plain))
  | 'r' => .ok (value (.text (s.literalWith Text.quoted)))
  | 'a' => .ok (value (.text (s.literalWith Text.quotedAscii)))
  | c => .error (.unknownConversion c)

/-- The subject under a layout. -/
def present (s : Subject) (layout : List Char) : Except Fault (List Char) :=
  match s, layout with
  | value (.text t), layout => Layout.ofText t.toList layout
  | s, [] => .ok s.plain.toList
  | value (.int n), layout => Layout.ofInt "int" n layout
  | value (.bool b), layout => Layout.ofInt "bool" (if b then 1 else 0) layout
  | value (.real x), layout => Layout.ofReal x layout
  | s, _ => .error (.unsupported s.kindName)

end Subject

end Template

end TreeShell
