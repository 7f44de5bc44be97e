/-!
# Pieces of a text

A text is cut into pieces at its separators, or something is read off its front.
-/

namespace TreeShell

/-!
## Cutting a text at a separator

`pieces` cuts at every separator and keeps empty pieces, `glue` puts the separator back.
They undo each other: `glue_pieces` holds for every text, `pieces_glue` for every nonempty
list of pieces that are free of the separator.
-/

namespace Text

/-- The pieces between the separators; there is always one more of them than separators. -/
def pieces (sep : Char) : List Char → List (List Char)
  | [] => [[]]
  | c :: cs =>
      if c = sep then [] :: pieces sep cs
      else (pieces sep cs).modifyHead (c :: ·)

def glue (sep : Char) : List (List Char) → List Char
  | [] => []
  | [p] => p
  | p :: q :: ps => p ++ sep :: glue sep (q :: ps)

@[simp] theorem pieces_nil (sep : Char) : pieces sep [] = [[]] := rfl

theorem pieces_ne_nil (sep : Char) (cs : List Char) : pieces sep cs ≠ [] := by
  induction cs with
  | nil => simp
  | cons c cs ih =>
      by_cases h : c = sep
      · simp [pieces, h]
      · cases hp : pieces sep cs with
        | nil => exact absurd hp ih
        | cons p ps => simp [pieces, h, hp]

theorem glue_cons_cons_head (sep c : Char) (p : List Char) (ps : List (List Char)) :
    glue sep ((c :: p) :: ps) = c :: glue sep (p :: ps) := by
  cases ps <;> simp [glue]

theorem glue_pieces (sep : Char) (cs : List Char) : glue sep (pieces sep cs) = cs := by
  induction cs with
  | nil => rfl
  | cons c cs ih =>
      cases hp : pieces sep cs with
      | nil => exact absurd hp (pieces_ne_nil sep cs)
      | cons p ps =>
          rw [hp] at ih
          by_cases h : c = sep
          · simp [pieces, h, hp, glue, ih]
          · simp [pieces, h, hp, glue_cons_cons_head, ih]

theorem not_mem_of_mem_pieces {sep : Char} {cs p : List Char} (hp : p ∈ pieces sep cs) :
    sep ∉ p := by
  induction cs generalizing p with
  | nil => simp_all
  | cons c cs ih =>
      cases hq : pieces sep cs with
      | nil => exact absurd hq (pieces_ne_nil sep cs)
      | cons q qs =>
          by_cases h : c = sep
          · simp only [pieces, h, if_true, List.mem_cons] at hp
            rcases hp with rfl | hp
            · simp
            · exact ih hp
          · simp only [pieces, h, if_false, hq, List.modifyHead_cons, List.mem_cons] at hp
            rcases hp with rfl | hp
            · have := ih (p := q) (by simp [hq])
              simp only [List.mem_cons, not_or]
              exact ⟨fun hs ↦ h hs.symm, this⟩
            · exact ih (by simp [hq, hp])

theorem pieces_of_not_mem {sep : Char} {p : List Char} (h : sep ∉ p) : pieces sep p = [p] := by
  induction p with
  | nil => rfl
  | cons c p ih =>
      simp only [List.mem_cons, not_or] at h
      simp [pieces, ih h.2, Ne.symm h.1]

theorem pieces_append_sep {sep : Char} {p : List Char} (h : sep ∉ p) (cs : List Char) :
    pieces sep (p ++ sep :: cs) = p :: pieces sep cs := by
  induction p with
  | nil => simp [pieces]
  | cons c p ih =>
      simp only [List.mem_cons, not_or] at h
      simp [pieces, ih h.2, Ne.symm h.1]

theorem pieces_glue {sep : Char} {ps : List (List Char)} (hne : ps ≠ [])
    (h : ∀ p ∈ ps, sep ∉ p) : pieces sep (glue sep ps) = ps := by
  induction ps with
  | nil => exact absurd rfl hne
  | cons p ps ih =>
      cases ps with
      | nil => simpa [glue] using pieces_of_not_mem (h p (by simp))
      | cons q qs =>
          rw [glue, pieces_append_sep (h p (by simp)),
            ih (by simp) fun r hr ↦ h r (List.mem_cons_of_mem p hr)]

def split (sep : Char) (s : String) : List String := (pieces sep s.toList).map String.ofList

/-- The strings with the separator between them. -/
def join (sep : Char) (ps : List String) : String := String.ofList (glue sep (ps.map String.toList))

theorem join_split (sep : Char) (s : String) : join sep (split sep s) = s := by
  simp [join, split, Function.comp_def, glue_pieces]

theorem split_join {sep : Char} {ps : List String} (hne : ps ≠ [])
    (h : ∀ p ∈ ps, sep ∉ p.toList) : split sep (join sep ps) = ps := by
  have hq : ∀ q ∈ ps.map String.toList, sep ∉ q := by simpa using h
  simp [join, split, pieces_glue (by simpa using hne) hq, Function.comp_def]

theorem not_mem_of_mem_split {sep : Char} {s p : String} (h : p ∈ split sep s) :
    sep ∉ p.toList := by
  obtain ⟨cs, hcs, rfl⟩ := List.mem_map.mp h
  rw [String.toList_ofList]
  exact not_mem_of_mem_pieces hcs

/-- The nonempty pieces between spaces. -/
def tokens (s : String) : List String := (split ' ' s).filter (· ≠ "")

theorem count_glue {sep c : Char} (h : c ≠ sep) (ps : List (List Char)) :
    (glue sep ps).count c = ps.flatten.count c := by
  induction ps with
  | nil => rfl
  | cons p ps ih =>
      cases ps with
      | nil => simp [glue]
      | cons q qs =>
          rw [glue, List.flatten_cons, List.count_append, List.count_append,
            List.count_cons_of_ne (Ne.symm h), ih]

theorem count_join {sep c : Char} (h : c ≠ sep) (ps : List String) :
    (join sep ps).toList.count c = (ps.flatMap String.toList).count c := by
  rw [join, String.toList_ofList, count_glue h, List.flatMap_def]

theorem count_split {sep c : Char} (h : c ≠ sep) (s : String) :
    ((split sep s).flatMap String.toList).count c = s.toList.count c := by
  rw [← count_join h, join_split]

/-- Tokens lose nothing but spaces. -/
theorem count_tokens {c : Char} (h : c ≠ ' ') (s : String) :
    ((tokens s).flatMap String.toList).count c = s.toList.count c := by
  rw [← count_split h s, tokens]
  induction split ' ' s with
  | nil => rfl
  | cons p ps ih =>
      by_cases hp : p = ""
      · simpa [hp] using ih
      · simpa [hp] using ih

def beginsWith (start s : String) : Bool := start.toList.isPrefixOf s.toList

/-- What follows the first `n` characters. -/
def dropFirst (n : Nat) (s : String) : String := String.ofList (s.toList.drop n)

/-- All but the last character. -/
def dropLast (s : String) : String := String.ofList s.toList.dropLast

end Text

/-!
## Reading from the front of a text

A reader takes something off the front of a text. Its result records that the text left over is
shorter, so that a reader may be run again on what another one has left.
-/

namespace Text

/-- A value read from the front of `before`, and the shorter text after it. -/
structure Step (α : Type) (before : List Char) where
  value : α
  rest : List Char
  shorter : rest.length < before.length

/-- The same step seen from a text that is at least as long. -/
def Step.widen {α : Type} {s t : List Char} (r : Step α s) (h : s.length ≤ t.length) : Step α t :=
  ⟨r.value, r.rest, Nat.lt_of_lt_of_le r.shorter h⟩

def Step.map {α β : Type} {s : List Char} (f : α → β) (r : Step α s) : Step β s :=
  ⟨f r.value, r.rest, r.shorter⟩

/-- The same step after one more character. -/
def Step.after {α : Type} {s : List Char} (r : Step α s) (c : Char) : Step α (c :: s) :=
  r.widen (by simp)

/-- The step that takes one character. -/
def Step.one {α : Type} (value : α) (c : Char) (rest : List Char) : Step α (c :: rest) :=
  ⟨value, rest, by simp⟩

end Text

end TreeShell
