import Mathlib.Data.List.DropRight
import Mathlib.Data.List.Infix
import Mathlib.Data.List.TakeWhile

/-!
# Lemmas on `Except` and lists

What is needed of these types besides the library: where a sequence of two steps has ended, and the
ends of a list.
-/

namespace Except

variable {ε α β : Type} {x : Except ε α} {f : α → Except ε β}

theorem exists_of_bind_eq_ok {b : β} (h : x.bind f = .ok b) : ∃ a, x = .ok a ∧ f a = .ok b := by
  cases x with
  | error e => cases h
  | ok a => exact ⟨a, rfl, h⟩

theorem bind_eq_error_iff {e : ε} :
    x.bind f = .error e ↔ x = .error e ∨ ∃ a, x = .ok a ∧ f a = .error e := by
  cases x <;> simp [Except.bind]

theorem exists_bind_ok_iff {f : α → β} :
    (∃ b, (x.bind fun a ↦ .ok (f a)) = .ok b) ↔ ∃ a, x = .ok a := by
  cases x <;> simp [Except.bind]

end Except

namespace List

variable {α : Type}

theorem forall_mem_of_forall_mem_dropWhile {p : α → Bool} {as : List α}
    (h : ∀ a ∈ as.dropWhile p, p a = true) : ∀ a ∈ as, p a = true := by
  induction as with
  | nil => exact fun a ha ↦ absurd ha List.not_mem_nil
  | cons b bs ih =>
      have hb : p b = true := by
        by_cases hb : p b = true
        · exact hb
        · rw [List.dropWhile_cons_of_neg hb] at h
          exact h b List.mem_cons_self
      rw [List.dropWhile_cons_of_pos hb] at h
      exact List.forall_mem_cons.mpr ⟨hb, ih h⟩

theorem dropWhile_eq_self_iff_head? {p : α → Bool} {as : List α} :
    as.dropWhile p = as ↔ ∀ a ∈ as.head?, p a = false := by
  rw [List.dropWhile_eq_self_iff]
  cases as <;> simp

/-- A pattern is not found in what stands in front if its first element is not found there. -/
theorem infix_of_infix_append {a : α} {pattern before rest : List α}
    (h : a :: pattern <:+: before ++ rest) (ha : a ∉ before) : a :: pattern <:+: rest := by
  induction before with
  | nil => exact h
  | cons b before ih =>
      rw [List.mem_cons, not_or] at ha
      rw [List.cons_append, List.infix_cons_iff, List.cons_prefix_cons] at h
      rcases h with ⟨heq, -⟩ | hrest
      · exact absurd heq ha.1
      · exact ih hrest ha.2

theorem length_rtake (as : List α) (n : Nat) : (as.rtake n).length = min n as.length := by
  rw [List.rtake, List.length_drop]
  omega

theorem rtake_rtake_succ (as : List α) (n : Nat) : (as.rtake (n + 1)).rtake n = as.rtake n := by
  simp [List.rtake_eq_reverse_take_reverse, List.take_take]

theorem rtake_rtake_concat {n : Nat} (h : 0 < n) (as : List α) (a : α) :
    (as.rtake n ++ [a]).rtake n = (as ++ [a]).rtake n := by
  obtain ⟨n, rfl⟩ := Nat.exists_eq_succ_of_ne_zero (Nat.ne_of_gt h)
  rw [List.rtake_concat_succ, List.rtake_concat_succ, rtake_rtake_succ]

theorem rtake_of_length_le {n : Nat} {as : List α} (h : as.length ≤ n) : as.rtake n = as := by
  rw [List.rtake, Nat.sub_eq_zero_of_le h, List.drop_zero]

end List
