import TreeShell.Text.Pieces

/-!
# Paths

A path is a sequence of segments with slashes between them. Segments are kept as they are
written, so empty ones occur.
-/

namespace TreeShell

namespace Path

def separator : Char := '/'

/-- The directory itself. -/
def here : String := "."

/-- The directory above. -/
def above : String := ".."

/-- The root of the tree. -/
def home : String := "~"

def split (path : String) : List String := Text.split separator path

def join (segments : List String) : String := Text.join separator segments

/-- The segments before the last one, and the last one; no segments count as one empty one. -/
def splitLast (segments : List String) : List String × String :=
  (segments.dropLast, segments.getLastD "")

/-- Whether a name is found by a path that consists of it alone. -/
def IsOrdinary (name : String) : Prop :=
  name ≠ "" ∧ separator ∉ name.toList ∧ name ≠ here ∧ name ≠ above ∧ name ≠ home

instance (name : String) : Decidable (IsOrdinary name) := by
  unfold IsOrdinary
  infer_instance

theorem join_split (path : String) : join (split path) = path := Text.join_split _ _

theorem split_ne_nil (path : String) : split path ≠ [] := by
  simpa [split, Text.split] using Text.pieces_ne_nil separator path.toList

theorem not_mem_of_mem_split {path segment : String} (h : segment ∈ split path) :
    separator ∉ segment.toList :=
  Text.not_mem_of_mem_split h

theorem split_of_not_mem {name : String} (h : separator ∉ name.toList) : split name = [name] := by
  rw [split, Text.split, Text.pieces_of_not_mem h]
  simp

theorem append_splitLast {segments : List String} (h : segments ≠ []) :
    (splitLast segments).1 ++ [(splitLast segments).2] = segments := by
  rw [splitLast, List.getLastD_eq_getLast?, List.getLast?_eq_some_getLast h]
  exact List.dropLast_concat_getLast h

theorem dropLast_split_eq_nil_iff {path : String} :
    (split path).dropLast = [] ↔ separator ∉ path.toList := by
  constructor
  · intro h
    have hsegment := append_splitLast (split_ne_nil path)
    rw [splitLast, h, List.nil_append] at hsegment
    generalize (split path).getLastD "" = segment at hsegment
    have hpath : join [segment] = path := by rw [hsegment, join_split]
    have hslash : separator ∉ segment.toList :=
      not_mem_of_mem_split (by rw [← hsegment]; exact List.mem_singleton.mpr rfl)
    rwa [← hpath, join, Text.join, List.map_singleton, Text.glue, String.ofList_toList]
  · intro h
    rw [split_of_not_mem h]
    rfl

end Path

/-- A path as the directory it starts from and the name it ends with. -/
structure ParsedPath where
  directory : List String
  name : String
  deriving DecidableEq, Repr

namespace ParsedPath

def ofString (path : String) : ParsedPath :=
  let (directory, name) := Path.splitLast (Path.split path)
  ⟨directory, name⟩

def toString (p : ParsedPath) : String := Path.join (p.directory ++ [p.name])

end ParsedPath

end TreeShell
