import Mathlib.Tactic.SplitIfs
import TreeShell.Command

/-!
# The words of a line

Spaces only separate words, however many there are. A line without an operator is all body, and no
other line is.
-/

namespace TreeShell

namespace Text

theorem pieces_append (sep : Char) (xs ys : List Char) :
    pieces sep (xs ++ sep :: ys) = pieces sep xs ++ pieces sep ys := by
  induction xs with
  | nil => simp [pieces]
  | cons x xs ih =>
      by_cases hx : x = sep
      · simp [pieces, hx, ih]
      · cases hp : pieces sep xs with
        | nil => exact absurd hp (pieces_ne_nil sep xs)
        | cons p ps => simp [pieces, hx, ih, hp]

theorem tokens_append_space (a b : String) : tokens (a ++ " " ++ b) = tokens a ++ tokens b := by
  have hcut : (a ++ " " ++ b).toList = a.toList ++ ' ' :: b.toList := by simp
  rw [tokens, split, hcut, pieces_append, List.map_append, List.filter_append]
  rfl

theorem tokens_of_not_mem {w : String} (hne : w ≠ "") (h : ' ' ∉ w.toList) : tokens w = [w] := by
  simp [tokens, split, pieces_of_not_mem h, hne]

theorem tokens_append_single_space (a : String) : tokens (a ++ " ") = tokens a := by
  have h := tokens_append_space a ""
  rwa [String.append_empty, show tokens "" = [] by rfl, List.append_nil] at h

end Text

namespace Command

/-- A text that a line can have for an argument: one word, without an operator. -/
structure Argument (t : String) : Prop where
  ne : t ≠ ""
  one : ' ' ∉ t.toList
  plain : '>' ∉ t.toList

instance (t : String) : Decidable (Argument t) :=
  decidable_of_iff (t ≠ "" ∧ ' ' ∉ t.toList ∧ '>' ∉ t.toList)
    ⟨fun ⟨h₁, h₂, h₃⟩ ↦ ⟨h₁, h₂, h₃⟩, fun ⟨h₁, h₂, h₃⟩ ↦ ⟨h₁, h₂, h₃⟩⟩

theorem Argument.tokens {t : String} (h : Argument t) : Text.tokens t = [t] :=
  Text.tokens_of_not_mem h.ne h.one

/-- A text that names the target of a redirect: one word, without an operator or a blank end. -/
structure Word (t : String) : Prop where
  ne : t ≠ ""
  one : ' ' ∉ t.toList
  plain : '>' ∉ t.toList
  trimmed : Text.trim Text.isBlank t.toList = t.toList

instance (t : String) : Decidable (Word t) :=
  decidable_of_iff
    (t ≠ "" ∧ ' ' ∉ t.toList ∧ '>' ∉ t.toList ∧ Text.trim Text.isBlank t.toList = t.toList)
    ⟨fun ⟨h₁, h₂, h₃, h₄⟩ ↦ ⟨h₁, h₂, h₃, h₄⟩, fun ⟨h₁, h₂, h₃, h₄⟩ ↦ ⟨h₁, h₂, h₃, h₄⟩⟩

theorem Word.argument {t : String} (h : Word t) : Argument t := ⟨h.ne, h.one, h.plain⟩

theorem cut_eq_none {pattern cs : List Char} {c : Char} (h : cs.count c < pattern.count c) :
    cut pattern cs = none := by
  cases hc : cut pattern cs with
  | none => rfl
  | some parts =>
      have hcount := congrArg (List.count c) (eq_append_of_cut hc)
      simp only [List.count_append] at hcount
      omega

theorem cut_append {c : Char} {pattern before : List Char} (h : c ∉ before) (after : List Char) :
    cut (c :: pattern) (before ++ (c :: pattern) ++ after) = some (before, after) := by
  induction before with
  | nil => simp [cut]
  | cons b before ih =>
      rw [List.mem_cons, not_or] at h
      have hb : (c :: pattern).isPrefixOf (b :: (before ++ (c :: pattern) ++ after)) = false := by
        rw [List.isPrefixOf_cons_cons, beq_eq_false_iff_ne.mpr h.1, Bool.false_and]
      rw [List.cons_append, List.cons_append, cut, hb, ih h.2]
      rfl

theorem findOperator_eq_none {line : List Char} (h : '>' ∉ line) : findOperator line = none := by
  have hcount : line.count '>' = 0 := List.count_eq_zero.mpr h
  have happend : cut RedirectMode.append.operator.toList line = none :=
    cut_eq_none (c := '>') (by rw [hcount]; decide)
  have htruncate : cut RedirectMode.truncate.operator.toList line = none :=
    cut_eq_none (c := '>') (by rw [hcount]; decide)
  simp [findOperator, happend, htruncate]

theorem not_mem_of_cut_eq_none {c : Char} {cs : List Char} (h : cut [c] cs = none) : c ∉ cs := by
  induction cs with
  | nil => exact List.not_mem_nil
  | cons d ds ih =>
      rw [cut] at h
      split_ifs at h with hd
      rw [Option.map_eq_none_iff] at h
      rw [List.mem_cons, not_or]
      refine ⟨?_, ih h⟩
      rintro rfl
      simp at hd

theorem not_mem_of_findOperator_eq_none {line : List Char} (h : findOperator line = none) :
    '>' ∉ line := by
  unfold findOperator at h
  split at h
  · cases h
  · exact not_mem_of_cut_eq_none (Option.map_eq_none_iff.mp h)

theorem parse_of_not_mem {line : String} (h : '>' ∉ line.toList) :
    parse line = .ok (ofBody none line) := by
  rw [parse, findOperator_eq_none h]

theorem not_mem_of_parse {line : String} {cmd : Command} (h : parse line = .ok cmd)
    (hr : cmd.redirect = none) : '>' ∉ line.toList := by
  unfold parse at h
  split at h
  · rename_i hnone
    exact not_mem_of_findOperator_eq_none hnone
  · split at h
    · cases h
    · cases h
      rw [redirect_ofBody] at hr
      cases hr

end Command

end TreeShell
