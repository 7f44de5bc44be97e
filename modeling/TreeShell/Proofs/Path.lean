import TreeShell.Path

/-!
# Paths and their segments

A path is its segments with separators between them, however many of them are empty. So cutting it
up loses nothing, and of all lists of segments without a separator in them it gives the one that the
path is put together from. There is always a last segment, the name behind the directory.
-/

namespace TreeShell

namespace Path

variable {path : String} {segments : List String}

/-- Segments that can be told apart again in a path: there is one, and none has a separator in
it. -/
structure Separable (segments : List String) : Prop where
  ne_nil : segments ≠ []
  free : ∀ segment ∈ segments, separator ∉ segment.toList

theorem split_eq_iff : split path = segments ↔ Separable segments ∧ join segments = path := by
  constructor
  · rintro rfl
    exact ⟨⟨split_ne_nil path, fun _ hmem ↦ not_mem_of_mem_split hmem⟩, join_split path⟩
  · rintro ⟨⟨hne, hfree⟩, rfl⟩
    exact Text.split_join hne hfree

end Path

namespace ParsedPath

theorem directory_append_name (path : String) :
    (ofString path).directory ++ [(ofString path).name] = Path.split path :=
  Path.append_splitLast (Path.split_ne_nil path)

theorem toString_ofString (path : String) : (ofString path).toString = path := by
  rw [toString, directory_append_name, Path.join_split]

end ParsedPath

namespace Path

/-- Cutting a path into segments and putting segments together undo each other, the directory and
the name of a path are its segments, and a path is written as it was read. -/
theorem paths_correspond_to_segments :
    (∀ path : String,
      let parsed := ParsedPath.ofString path
      join (split path) = path ∧ parsed.directory ++ [parsed.name] = split path ∧
        parsed.toString = path ∧ split path ≠ [] ∧
        ∀ segment ∈ split path, '/' ∉ segment.toList) ∧
      ∀ segments : List String, segments ≠ [] → (∀ segment ∈ segments, '/' ∉ segment.toList) →
        split (join segments) = segments := by
  constructor
  · intro path parsed
    obtain ⟨hseparable, hjoin⟩ := split_eq_iff.mp (rfl : split path = split path)
    exact ⟨hjoin, ParsedPath.directory_append_name path, ParsedPath.toString_ofString path,
      hseparable.ne_nil, hseparable.free⟩
  · intro segments hne hfree
    exact split_eq_iff.mpr ⟨⟨hne, hfree⟩, rfl⟩

/-- Empty segments at the front, at the end and in between are kept. -/
theorem empty_segments_are_kept :
    let segments := ["", "a", "", "b", ""]
    segments ≠ [] ∧ (∀ segment ∈ segments, '/' ∉ segment.toList) ∧
      join segments = "/a//b/" ∧ split "/a//b/" = segments := by
  intro segments
  have hne : segments ≠ [] := by decide
  have hfree : ∀ segment ∈ segments, '/' ∉ segment.toList := by decide
  have hjoin : join segments = "/a//b/" := by decide
  refine ⟨hne, hfree, hjoin, ?_⟩
  rw [← hjoin]
  exact paths_correspond_to_segments.2 segments hne hfree

end Path

end TreeShell
