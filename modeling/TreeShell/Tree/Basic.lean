import TreeShell.Json.Basic
import TreeShell.Line
import TreeShell.Path

/-!
# Nodes and trees

A tree is made of nodes, which have places in it, and paths lead to them.
-/

namespace TreeShell

/-!
## Nodes

A directory holds its children in the order in which they were made; a text file holds lines.
A place is the list of child indexes that leads from a node to one below it.
-/

inductive Kind where
  | directory
  | text
  deriving DecidableEq, Repr

def Kind.code : Kind → String
  | directory => "dir"
  | text => "txt"

def Kind.title : Kind → String
  | directory => "Directory"
  | text => "TextFile"

/-- Nodes of a kind have no member of this name. -/
def Kind.lacks (k : Kind) (name : String) : Mismatch := .noMember k.title name

inductive Node where
  | directory (name : String) (children : List Node)
  /-- The stamp counts how often the modification time was set. -/
  | file (name : String) (lines : List Line) (stamp : Nat)
  deriving Repr, Inhabited

abbrev Place := List Nat

/-- The index of the last element with a property. -/
def lastIndex? {α : Type} (p : α → Bool) : List α → Option Nat
  | [] => none
  | a :: as =>
      match lastIndex? p as with
      | some i => some (i + 1)
      | none => if p a then some 0 else none

theorem getElem?_of_lastIndex? {α : Type} {p : α → Bool} {as : List α} {i : Nat}
    (h : lastIndex? p as = some i) : ∃ a, as[i]? = some a ∧ p a = true := by
  induction as generalizing i with
  | nil => simp [lastIndex?] at h
  | cons a as ih =>
      cases hl : lastIndex? p as with
      | some j =>
          simp only [lastIndex?, hl, Option.some.injEq] at h
          subst h
          simpa using ih hl
      | none =>
          by_cases hp : p a = true
          · simp only [lastIndex?, hl, hp, if_true, Option.some.injEq] at h
            subst h
            simp [hp]
          · simp [lastIndex?, hl, hp] at h

theorem lastIndex?_eq_none_iff {α : Type} {p : α → Bool} {as : List α} :
    lastIndex? p as = none ↔ ∀ a ∈ as, p a = false := by
  induction as with
  | nil => simp [lastIndex?]
  | cons a as ih =>
      cases hl : lastIndex? p as with
      | some i =>
          obtain ⟨b, hb, hp⟩ := getElem?_of_lastIndex? hl
          simp only [lastIndex?, hl, List.mem_cons]
          refine iff_of_false (by simp) fun h ↦ ?_
          have := h b (.inr (List.mem_of_getElem? hb))
          simp [hp] at this
      | none =>
          by_cases hp : p a = true
          · simp [lastIndex?, hl, hp]
          · simpa [lastIndex?, hl, hp] using ih.1 hl

namespace Node

def name : Node → String
  | directory name _ => name
  | file name _ _ => name

def kind : Node → Kind
  | directory _ _ => .directory
  | file _ _ _ => .text

def children : Node → List Node
  | directory _ children => children
  | file _ _ _ => []

def isDirectory : Node → Bool
  | directory _ _ => true
  | file _ _ _ => false

def lines? : Node → Option (List Line)
  | directory _ _ => none
  | file _ lines _ => some lines

def stamp? : Node → Option Nat
  | directory _ _ => none
  | file _ _ stamp => some stamp

/-- The name as it is listed: with a slash after it if it is a directory's. -/
def listed : Node → String
  | directory name _ => name ++ "/"
  | file name _ _ => name

/-- Whether a node has the name and, if one is asked for, the kind. -/
def answersTo (name : String) (kind? : Option Kind) (n : Node) : Bool :=
  n.name == name && (kind?.isNone || kind? == some n.kind)

def at? (n : Node) : Place → Option Node
  | [] => some n
  | i :: place => n.children[i]?.bind (·.at? place)

def modify (f : Node → Node) : Place → Node → Node
  | [], n => f n
  | i :: place, directory name children => directory name (children.modify i (modify f place))
  | _ :: _, file name lines stamp => file name lines stamp

/-- The names on the way to a place; places that lead nowhere add none. -/
def names (n : Node) : Place → List String
  | [] => []
  | i :: place =>
      match n.children[i]? with
      | some child => child.name :: child.names place
      | none => []

/-- Adds children after the ones that are there. -/
def extend (more : List Node) : Node → Node
  | directory name children => directory name (children ++ more)
  | file name lines stamp => file name lines stamp

/-- Replaces the lines of a text file. -/
def write (lines : List Line) : Node → Node
  | directory name children => directory name children
  | file name _ stamp => file name lines (stamp + 1)

/-- Adds lines to a text file. -/
def append (more : List Line) : Node → Node
  | directory name children => directory name children
  | file name lines stamp => file name (lines ++ more) (stamp + 1)

/-- Sets the modification time of a text file. -/
def touch : Node → Node
  | directory name children => directory name children
  | file name lines stamp => file name lines (stamp + 1)

mutual

/-- Changes the lines of the text files below and at a node; no file counts as touched. -/
def mapLines (f : Line → Line) : Node → Node
  | directory name children => directory name (mapLinesAll f children)
  | file name lines stamp => file name (lines.map f) stamp

def mapLinesAll (f : Line → Line) : List Node → List Node
  | [] => []
  | n :: ns => n.mapLines f :: mapLinesAll f ns

end

mutual

/-- The text files below and at a node, with their stamps; a directory's come in order. -/
def stamps (place : Place) : Node → List (Place × Nat)
  | directory _ children => stampsFrom place 0 children
  | file _ _ stamp => [(place, stamp)]

def stampsFrom (place : Place) (i : Nat) : List Node → List (Place × Nat)
  | [] => []
  | n :: ns => n.stamps (place ++ [i]) ++ stampsFrom place (i + 1) ns

end

mutual

/-- The paths of a node and of all below it, a directory before its children, with their kinds;
`base` is the path of the directory that holds the node. -/
def listing (base : String) : Node → List (String × Kind)
  | directory name children =>
      (base ++ "/" ++ name, .directory) :: listings (base ++ "/" ++ name) children
  | file name _ _ => [(base ++ "/" ++ name, .text)]

def listings (base : String) : List Node → List (String × Kind)
  | [] => []
  | n :: ns => n.listing base ++ listings base ns

end

@[simp] theorem at?_nil (n : Node) : n.at? [] = some n := by simp [at?]

theorem at?_cons (n : Node) (i : Nat) (place : Place) :
    n.at? (i :: place) = n.children[i]?.bind (·.at? place) := by simp [at?]

theorem mapLinesAll_eq_map (f : Line → Line) (ns : List Node) :
    mapLinesAll f ns = ns.map (mapLines f) := by
  induction ns with
  | nil => rfl
  | cons n ns ih => simp [mapLinesAll, ih]

@[simp] theorem name_mapLines (f : Line → Line) (n : Node) : (n.mapLines f).name = n.name := by
  cases n <;> rfl

@[simp] theorem kind_mapLines (f : Line → Line) (n : Node) : (n.mapLines f).kind = n.kind := by
  cases n <;> rfl

@[simp] theorem stamp?_mapLines (f : Line → Line) (n : Node) :
    (n.mapLines f).stamp? = n.stamp? := by
  cases n <;> rfl

@[simp] theorem children_mapLines (f : Line → Line) (n : Node) :
    (n.mapLines f).children = n.children.map (mapLines f) := by
  cases n <;> simp [mapLines, children, mapLinesAll_eq_map]

/-- Changing lines leaves every node at its place. -/
theorem at?_mapLines (f : Line → Line) (n : Node) (place : Place) :
    (n.mapLines f).at? place = (n.at? place).map (mapLines f) := by
  induction place generalizing n with
  | nil => simp
  | cons i place ih => cases h : n.children[i]? <;> simp [at?_cons, h, ih]

theorem at?_append (n : Node) (p q : Place) : n.at? (p ++ q) = (n.at? p).bind (·.at? q) := by
  induction p generalizing n with
  | nil => simp
  | cons i p ih =>
      cases h : n.children[i]? with
      | none => simp [at?_cons, h]
      | some c => simp [at?_cons, h, ih]

end Node

/-!
## The tree

The root is a directory without a name. It is shown by its label, with which every path begins.
-/

structure Tree where
  label : Json := .text "~"
  entries : List Node := []
  deriving Repr, Inhabited

namespace Tree

def root (t : Tree) : Node := .directory "" t.entries

def at? (t : Tree) (place : Place) : Option Node := t.root.at? place

/-- The children of the node at a place; a place that leads nowhere has none. -/
def children (t : Tree) (place : Place) : List Node := (t.at? place).elim [] Node.children

def isDirectory (t : Tree) (place : Place) : Bool := (t.at? place).elim false Node.isDirectory

def lines? (t : Tree) (place : Place) : Option (List Line) := (t.at? place).bind Node.lines?

/-- The path of a place. The label of the root stands for itself, whatever value it is. -/
def path (t : Tree) (place : Place) : Json :=
  match t.root.names place with
  | [] => t.label
  | names => .text (Path.join (t.label.plain :: names))

/-- Changes the node at a place; `f` keeps directories directories. -/
def modify (t : Tree) (place : Place) (f : Node → Node) : Tree :=
  { t with entries := (t.root.modify f place).children }

/-- Adds children to a directory. -/
def extend (t : Tree) (place : Place) (more : List Node) : Tree := t.modify place (.extend more)

def write (t : Tree) (place : Place) (lines : List Line) : Tree := t.modify place (.write lines)

def append (t : Tree) (place : Place) (lines : List Line) : Tree := t.modify place (.append lines)

def touch (t : Tree) (place : Place) : Tree := t.modify place .touch

/-- The group of the marks that the items of the label have. -/
def labelGroup : Nat := 0

/-- The tree as it reads after the line `changed` was changed. -/
def after (changed : Line) (t : Tree) : Tree where
  label := changed.valueAfter labelGroup t.label
  entries := Node.mapLinesAll changed.after t.entries

def listed (t : Tree) (place : Place) : List String := (t.children place).map Node.listed

/-- The children of a directory that have one of the given kinds. -/
def childrenOf (t : Tree) (place : Place) (kinds : Option (List Kind)) : List (Place × Node) :=
  let all := (t.children place).mapIdx fun i n ↦ (place ++ [i], n)
  match kinds with
  | none => all
  | some kinds => all.filter fun (_, n) ↦ n.kind ∈ kinds

/-- The place of the last child that has the name and, if one is asked for, the kind. -/
def child? (t : Tree) (place : Place) (name : String) (kind? : Option Kind) : Option Place :=
  (lastIndex? (Node.answersTo name kind?) (t.children place)).map fun i ↦ place ++ [i]

/-- The text files whose modification time was set since an earlier state of the tree. -/
def touchedSince (t earlier : Tree) : List Place :=
  (t.root.stamps []).filterMap fun (place, stamp) ↦
    if (earlier.at? place).bind Node.stamp? = some stamp then none else some place

end Tree

/-!
## Following a path

A path is followed segment by segment from a directory. `.` stays, `..` goes up and ends at the
root, `~` goes to the root; any other segment names a child. Every segment but the last has to
lead to a directory, the last one to a node of the kind that is asked for. An empty last segment
stands for the directory reached if a directory is asked for.
-/

namespace Tree

/-- Where one segment leads from a directory. -/
def hop (t : Tree) (place : Place) (segment : String) (kind? : Option Kind) : Option Place :=
  if segment = Path.here then some place
  else if segment = Path.above then some place.dropLast
  else if segment = Path.home then some []
  else t.child? place segment kind?

/-- Where the last segment of a path leads from a directory. -/
def lastHop (t : Tree) (place : Place) (segment : String) (kind? : Option Kind) : Option Place :=
  if segment = "" ∧ kind? = some .directory then some place else t.hop place segment kind?

/-- Where a path leads. No segments lead to the start if a directory is asked for. -/
def resolve (t : Tree) (start : Place) (segments : List String) (kind? : Option Kind) :
    Option Place :=
  match segments with
  | [] => if kind? = some .directory then some start else none
  | [segment] => if t.isDirectory start then t.lastHop start segment kind? else none
  | segment :: next :: more =>
      if t.isDirectory start then
        (t.hop start segment (some .directory)).bind fun place ↦
          t.resolve place (next :: more) kind?
      else none

def resolvePath (t : Tree) (start : Place) (path : String) (kind? : Option Kind) : Option Place :=
  t.resolve start (Path.split path) kind?

end Tree

end TreeShell
