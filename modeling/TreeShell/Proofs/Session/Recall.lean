import Mathlib.Data.List.GetD
import Mathlib.Data.List.Induction
import TreeShell.Proofs.Session.Typing

/-!
# Going through the history

The arrow keys walk along the history, from the oldest line to the place behind the newest, and stop
at both ends. Only a step that leads somewhere replaces the line being typed.
-/

namespace TreeShell

def Key.stride : Key → Int
  | .up => -1
  | .down => 1
  | _ => 0

namespace Session

def stepAlong (n : Nat) (i : Int) (k : KeyEvent) : Int := max 0 (min n (i + k.key.stride))

def walk (n : Nat) (i : Int) (ks : List KeyEvent) : Int := ks.foldl (stepAlong n) i

def Moves (n : Nat) (i : Int) (ks : List KeyEvent) : Prop :=
  ∃ before k after, ks = before ++ k :: after ∧ walk n i (before ++ [k]) ≠ walk n i before

variable {s s' : Session} {k : KeyEvent} {ks : List KeyEvent} {n : Nat} {i : Int}

theorem walk_concat (n : Nat) (i : Int) (ks : List KeyEvent) (k : KeyEvent) :
    walk n i (ks ++ [k]) = stepAlong n (walk n i ks) k := by
  simp [walk]

theorem not_moves_nil : ¬ Moves n i [] := by
  rintro ⟨before, k, after, h, -⟩
  simp at h

theorem moves_concat_iff :
    Moves n i (ks ++ [k]) ↔ Moves n i ks ∨ stepAlong n (walk n i ks) k ≠ walk n i ks := by
  constructor
  · rintro ⟨before, k', after, hks, hmoves⟩
    rcases List.eq_nil_or_concat' after with rfl | ⟨after, k'', rfl⟩
    · obtain ⟨rfl, hk⟩ := List.append_inj' hks rfl
      cases List.singleton_inj.mp hk
      exact .inr (by rwa [walk_concat] at hmoves)
    · rw [← List.cons_append, ← List.append_assoc] at hks
      exact .inl ⟨before, k', after, (List.append_inj' hks rfl).1, hmoves⟩
  · rintro (⟨before, k', after, rfl, hmoves⟩ | hmoves)
    · exact ⟨before, k', after ++ [k], by simp, hmoves⟩
    · exact ⟨ks, k, [], rfl, by rwa [walk_concat]⟩

theorem press_arrow (reg : Registry) (heditor : s.editor = none)
    (hcursor : s.cursor ≤ s.history.length) (hk : k.key = .up ∨ k.key = .down) :
    ∃ cursor ≤ s.history.length, (cursor : Int) = stepAlong s.history.length s.cursor k ∧
      s.press reg k = ({ s with
        cursor
        buffer := if cursor = s.cursor then s.buffer else s.history.getD cursor ""
        tabPending := false }, none) := by
  rcases hk with hk | hk
  · cases hc : s.cursor with
    | zero =>
        refine ⟨0, Nat.zero_le _, ?_, ?_⟩
        · simp only [stepAlong, hk, Key.stride]
          omega
        · rw [press_of_shell heditor]
          simp [shellKey, hk, older, hc]
    | succ i =>
        refine ⟨i, by omega, ?_, ?_⟩
        · simp only [stepAlong, hk, Key.stride]
          omega
        · rw [press_of_shell heditor]
          simp [shellKey, hk, older, hc]
  · by_cases hlast : s.cursor < s.history.length
    · refine ⟨s.cursor + 1, hlast, ?_, ?_⟩
      · simp only [stepAlong, hk, Key.stride]
        omega
      · rw [press_of_shell heditor]
        simp [shellKey, hk, newer, hlast]
    · refine ⟨s.cursor, hcursor, ?_, ?_⟩
      · simp only [stepAlong, hk, Key.stride]
        omega
      · rw [press_of_shell heditor]
        simp [shellKey, hk, newer, hlast]

/-- What arrow keys have made of a session: nothing but the position, the line being typed and a
pending tab are changed. -/
structure Recalls (s : Session) (ks : List KeyEvent) (s' : Session) : Prop where
  position : (s'.cursor : Int) = walk s.history.length s.cursor ks
  within : s'.cursor ≤ s.history.length
  moved : Moves s.history.length s.cursor ks → s'.buffer = s.history.getD s'.cursor ""
  still : ¬ Moves s.history.length s.cursor ks → s'.buffer = s.buffer
  rest : s' = { s with
    cursor := s'.cursor, buffer := s'.buffer, tabPending := s.tabPending && ks.isEmpty }

theorem recalls_nil (hcursor : s.cursor ≤ s.history.length) : s.Recalls [] s where
  position := rfl
  within := hcursor
  moved h := absurd h not_moves_nil
  still _ := rfl
  rest := by simp

theorem Recalls.concat (h : s.Recalls ks s') (reg : Registry) (heditor : s.editor = none)
    (hk : k.key = .up ∨ k.key = .down) :
    ∃ s'', s'.press reg k = (s'', none) ∧ s.Recalls (ks ++ [k]) s'' := by
  have heditor' : s'.editor = none := by
    rw [h.rest]
    exact heditor
  have hhistory : s'.history = s.history := by rw [h.rest]
  obtain ⟨cursor, hwithin, hstep, hpress⟩ :=
    press_arrow reg heditor' (hhistory ▸ h.within) hk
  rw [hhistory] at hwithin hstep hpress
  rw [h.position] at hstep
  have hstill : cursor = s'.cursor ↔
      stepAlong s.history.length (walk s.history.length s.cursor ks) k =
        walk s.history.length s.cursor ks := by
    rw [← hstep, ← h.position, Int.natCast_inj]
  refine ⟨_, hpress, ?_, hwithin, ?_, ?_, ?_⟩
  · rw [walk_concat, ← hstep]
  · intro hmoves
    dsimp only
    split_ifs with hcursor
    · -- The key leads nowhere, so one before it has moved.
      rw [hcursor]
      exact h.moved ((moves_concat_iff.mp hmoves).resolve_right (not_not.mpr (hstill.mp hcursor)))
    · rfl
  · intro hmoves
    obtain ⟨hbefore, hlast⟩ := not_or.mp (mt moves_concat_iff.mpr hmoves)
    rw [if_pos (hstill.mpr (not_not.mp hlast))]
    exact h.still hbefore
  · rw [h.rest]
    simp

theorem recalls_pressAll (reg : Registry) (heditor : s.editor = none)
    (hcursor : s.cursor ≤ s.history.length) (hks : ∀ k ∈ ks, k.key = .up ∨ k.key = .down) :
    ∃ s', s.pressAll reg ks = (s', none) ∧ s.Recalls ks s' := by
  induction ks using List.reverseRecOn with
  | nil => exact ⟨s, rfl, recalls_nil hcursor⟩
  | append_singleton ks k ih =>
      obtain ⟨s', hs', hrecalls⟩ := ih fun k' hk' ↦ hks k' (List.mem_append_left _ hk')
      obtain ⟨s'', hs'', hrecalls'⟩ :=
        hrecalls.concat reg heditor (hks k List.mem_concat_self)
      exact ⟨s'', by rw [pressAll_append hs', pressAll_singleton, hs''], hrecalls'⟩

/-- Arrow keys walk along the history and stop at its ends. If one of them has moved, the line being
typed is the one at the position reached, and empty behind the last; otherwise it is as it was. All
else, and the history with it, stays. -/
theorem arrows_walk_history (s : Session) (reg : Registry) (heditor : s.editor = none)
    (hcursor : s.cursor ≤ s.history.length) (ks : List KeyEvent)
    (hks : ∀ k ∈ ks, k.key = .up ∨ k.key = .down) :
    let n := s.history.length
    ∃ cursor buffer,
      s.pressAll reg ks =
        ({ s with cursor, buffer, tabPending := s.tabPending && ks.isEmpty }, none) ∧
      (cursor : Int) = walk n s.cursor ks ∧ cursor ≤ n ∧
      (Moves n s.cursor ks → (cursor < n → s.history[cursor]? = some buffer) ∧
        (cursor = n → buffer = "")) ∧
      (¬ Moves n s.cursor ks → buffer = s.buffer) := by
  intro n
  obtain ⟨s', hs', hrecalls⟩ := recalls_pressAll reg heditor hcursor hks
  refine ⟨s'.cursor, s'.buffer, ?_, hrecalls.position, hrecalls.within, ?_, hrecalls.still⟩
  · rw [hs', ← hrecalls.rest]
  · intro hmoves
    rw [hrecalls.moved hmoves]
    constructor
    · intro hlt
      rw [List.getD_eq_getElem _ _ hlt, List.getElem?_eq_getElem hlt]
    · intro hend
      exact List.getD_eq_default _ _ (Nat.le_of_eq hend.symm)

/-- From behind the newest of two lines: up past the oldest and down again, or down at the end. -/
theorem walk_past_both_ends :
    let s : Session := { history := ["echo a", "echo b"], cursor := 2, buffer := "ec" }
    let up : KeyEvent := .ofKey .up
    let down : KeyEvent := .ofKey .down
    let there := [up, up, up, down]
    s.editor = none ∧ s.cursor ≤ s.history.length ∧
      (∀ k ∈ there, k.key = .up ∨ k.key = .down) ∧ walk 2 2 there = 1 ∧ Moves 2 2 there ∧
      (s.pressAll .standard there).1.buffer = "echo b" ∧ ¬ Moves 2 2 [down] ∧
      (s.pressAll .standard [down]).1.buffer = "ec" := by
  intro s up down there
  have hcursor : s.cursor ≤ s.history.length := by decide
  have harrows : ∀ k ∈ there, k.key = .up ∨ k.key = .down := by decide
  have hwalk : walk 2 2 there = 1 := by decide
  have hmoves : Moves 2 2 there := ⟨[], up, [up, up, down], rfl, by decide⟩
  have hstays : ¬ Moves 2 2 [down] := by
    rw [← List.nil_append [down], moves_concat_iff]
    exact not_or.mpr ⟨not_moves_nil, by decide⟩
  obtain ⟨cursor, buffer, hpress, hposition, -, hmoved, -⟩ :=
    arrows_walk_history s .standard rfl hcursor there harrows
  obtain ⟨_, _, hpress', -, -, -, hstill⟩ :=
    arrows_walk_history s .standard rfl hcursor [down] (by decide)
  have hcursor' : (cursor : Int) = 1 := hposition.trans hwalk
  obtain rfl : cursor = 1 := by omega
  have hline : some "echo b" = some buffer := (hmoved hmoves).1 (by decide)
  refine ⟨rfl, hcursor, harrows, hwalk, hmoves, ?_, hstays, ?_⟩
  · rw [hpress]
    exact (Option.some.inj hline).symm
  · rw [hpress']
    exact hstill hstays

end Session

end TreeShell
