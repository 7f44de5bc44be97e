import TreeShell.Console.Start
import TreeShell.Proofs.Session.Frame

/-!
# The history

A line gets into the history in one way only: Enter submits it to the shell. No line is ever taken
out, and the cursor stays within the history, also where a line fails before it is emptied.
-/

namespace TreeShell

theorem Text.isEmptyLine_eq_false_iff {line : String} :
    isEmptyLine line = false ↔ ∃ c ∈ line.toList, c ≠ ' ' := by
  simp [isEmptyLine]

namespace Session

variable {s s' : Session} {reg : Registry}

def past (s : Session) : List String × Nat := (s.history, s.cursor)

/-- The history of a session goes on from that of another, and the cursor stays within it. -/
structure Continues (s s' : Session) : Prop where
  history : s.history <+: s'.history
  cursor : s.cursor ≤ s.history.length → s'.cursor ≤ s'.history.length

namespace Continues

theorem refl (s : Session) : s.Continues s := ⟨List.prefix_rfl, id⟩

theorem trans {s'' : Session} (h : s.Continues s') (h' : s'.Continues s'') : s.Continues s'' :=
  ⟨h.history.trans h'.history, fun hcursor ↦ h'.cursor (h.cursor hcursor)⟩

theorem of_past_eq (h : s'.past = s.past) : s.Continues s' := by
  obtain ⟨hhistory, hcursor⟩ := Prod.mk.inj h
  refine ⟨hhistory ▸ List.prefix_rfl, fun hle ↦ ?_⟩
  rwa [hhistory, hcursor]

end Continues

/-! ## Lines -/

theorem past_of_aside (h : s'.aside = s.aside) : s'.past = s.past := (congrArg past h :)

theorem past_of_beside (h : s'.beside = s.beside) : s'.past = s.past := (congrArg past h :)

theorem past_execute (hreg : reg.Keeps past) (line : String) (s : Session) :
    (s.execute reg line).1.past = s.past :=
  keeps_execute hreg (fun h ↦ past_of_aside (aside_of_offsite h)) line s

theorem past_complete (s : Session) : (s.complete reg).1.past = s.past := by
  obtain ⟨buffer, tabPending, screen, log, h⟩ := exists_complete reg s
  rw [h]
  rfl

theorem past_submit (hreg : reg.Keeps past) (s : Session) (prompt line : String) :
    (s.submit reg prompt line).1.past = (s.history ++ [line], s.cursor) :=
  keeps_submit hreg past_of_aside s prompt line

/-! ## Keys -/

/-- The history has become `lines`, and the cursor was not moved on unless to a place in it. -/
structure MovesTo (s : Session) (lines : List String) (s' : Session) : Prop where
  history : s'.history = lines
  cursor : s'.cursor ≤ max s.cursor lines.length

theorem movesTo_of_past_eq {lines : List String} (h : s'.past = (lines, s.cursor)) :
    s.MovesTo lines s' := by
  obtain ⟨hhistory, hcursor⟩ := Prod.mk.inj h
  exact ⟨hhistory, hcursor ▸ Nat.le_max_left _ _⟩

theorem movesTo_freshLine {lines : List String} (h : s'.history = lines) :
    s.MovesTo lines s'.freshLine := ⟨h, h ▸ Nat.le_max_right _ _⟩

theorem movesTo_shellKey_of_submits (hreg : reg.Keeps past) {k : KeyEvent} {prompt : String}
    (h : s.Submits k prompt) : s.MovesTo (s.history ++ [s.buffer]) (s.shellKey reg k).1 := by
  have hsubmit : (({ s with tabPending := false } : Session).submit reg prompt s.buffer).1.past =
      (s.history ++ [s.buffer], s.cursor) := past_submit hreg _ prompt s.buffer
  rw [shellKey_of_submits h]
  split
  · rename_i hs
    rw [hs] at hsubmit
    exact movesTo_freshLine (congrArg Prod.fst hsubmit)
  · rename_i hs
    rw [hs] at hsubmit
    exact movesTo_of_past_eq hsubmit

theorem movesTo_older (s : Session) : s.MovesTo s.history s.older := by
  unfold older
  split
  · exact movesTo_of_past_eq rfl
  · rename_i i hcursor
    have hback : i ≤ max s.cursor s.history.length := by omega
    exact ⟨rfl, hback⟩

theorem movesTo_newer (s : Session) : s.MovesTo s.history s.newer := by
  unfold newer
  split
  · rename_i hcursor
    have hon : s.cursor + 1 ≤ max s.cursor s.history.length := by omega
    exact ⟨rfl, hon⟩
  · exact movesTo_of_past_eq rfl

theorem movesTo_shellKey_of_not_submits {k : KeyEvent} (h : ∀ prompt, ¬ s.Submits k prompt) :
    s.MovesTo s.history (s.shellKey reg k).1 := by
  have hcomplete : (s.complete reg).1.past = s.past := past_complete s
  unfold shellKey
  split
  · rcases fst_tab reg s with htab | htab
    · exact movesTo_of_past_eq (congrArg past htab)
    · exact movesTo_of_past_eq ((congrArg past htab).trans hcomplete)
  · dsimp only
    split
    · rename_i hkey
      unfold enter
      split
      · exact movesTo_of_past_eq rfl
      · rename_i prompt hprompt
        split
        · exact movesTo_freshLine rfl
        · rename_i hline
          -- Here the line is submitted after all.
          exact absurd ⟨hkey, by simpa using hline, hprompt⟩ (h prompt)
    · exact movesTo_of_past_eq rfl
    · obtain ⟨hhistory, hcursor⟩ := movesTo_older { s with tabPending := false }
      exact ⟨hhistory, hcursor⟩
    · obtain ⟨hhistory, hcursor⟩ := movesTo_newer { s with tabPending := false }
      exact ⟨hhistory, hcursor⟩
    · exact movesTo_of_past_eq rfl

theorem movesTo_press (hreg : reg.Keeps past) (s : Session) (k : KeyEvent) :
    (∃ prompt, s.editor = none ∧ s.Submits k prompt ∧
      s.MovesTo (s.history ++ [s.buffer]) (s.press reg k).1) ∨
      s.MovesTo s.history (s.press reg k).1 := by
  unfold press
  split
  · rename_i e he
    exact .inr (movesTo_of_past_eq (past_of_beside (beside_editorKey s e k)))
  · rename_i he
    by_cases h : ∃ prompt, s.Submits k prompt
    · obtain ⟨prompt, hsubmits⟩ := h
      exact .inl ⟨prompt, he, hsubmits, movesTo_shellKey_of_submits hreg hsubmits⟩
    · exact .inr (movesTo_shellKey_of_not_submits (not_exists.mp h))

theorem MovesTo.continues {lines : List String} (h : s.MovesTo lines s')
    (hbegin : s.history <+: lines) : s.Continues s' := by
  obtain ⟨hhistory, hcursor⟩ := h
  have hlength := hbegin.length_le
  refine ⟨by rwa [hhistory], fun hle ↦ ?_⟩
  rw [hhistory]
  omega

theorem continues_press (hreg : reg.Keeps past) (s : Session) (k : KeyEvent) :
    s.Continues (s.press reg k).1 := by
  rcases movesTo_press hreg s k with ⟨-, -, -, hmoves⟩ | hmoves
  · exact hmoves.continues (List.prefix_append _ _)
  · exact hmoves.continues List.prefix_rfl

/-! ## Runs -/

theorem continues_step (hreg : reg.Keeps past) (s : Session) (x : Step) :
    s.Continues (s.step reg x) := by
  cases x with
  | execute line => exact .of_past_eq (past_execute hreg line s)
  | key k => exact continues_press hreg s k
  | feed line =>
      exact pressAll_preserves reg (I := s.Continues)
        (fun s' k hs ↦ hs.trans (continues_press hreg s' k)) (.refl s) _
  | complete => exact .of_past_eq (past_complete s)
  | ex command =>
      cases he : s.editor with
      | none =>
          rw [step, he]
          exact .refl s
      | some e =>
          rw [step, he]
          exact .of_past_eq (past_of_beside (beside_runEx s e command))
  | changeDirectory place => exact .of_past_eq rfl

theorem continues_endures (hreg : reg.Keeps past) (s : Session) : Endures reg s.Continues where
  step x hs := hs.trans (continues_step hreg _ x)
  raw _ hs := hs.trans (.of_past_eq rfl)
  emptied hs := hs.trans (.of_past_eq rfl)
  user _ hs := hs.trans (.of_past_eq rfl)
  configured _ _ _ hs := hs.trans (.of_past_eq rfl)

/-- Whatever happens to a new session, its cursor stays within the history and the history only
grows, unless commands of its own interfere. A key puts at most one line into it: Enter, pressed in
the shell, submits the line being typed if that has a character other than a space. -/
theorem history_grows (hreg : reg.Keeps past) (tree : Tree) (settings : ShellSettings)
    (surface : Surface) (events : List Event) :
    let s := events.foldl (undergo reg) { ofTree tree settings with surface }
    s.cursor ≤ s.history.length ∧
      (∀ event, s.history <+: (s.undergo reg event).history) ∧
      ∀ k, (s.press reg k).1.history = s.history ∨
        k.key = .enter ∧ s.editor = none ∧ (∃ c ∈ s.buffer.toList, c ≠ ' ') ∧
          (s.press reg k).1.history = s.history ++ [s.buffer] := by
  intro s
  have hrun : Continues { ofTree tree settings with surface } s :=
    (continues_endures hreg _).events events (.refl _)
  refine ⟨hrun.cursor (Nat.zero_le _), ?_, ?_⟩
  · intro event
    exact ((continues_endures hreg s).undergo event (.refl s)).history
  · intro k
    rcases movesTo_press hreg s k with ⟨prompt, heditor, hsubmits, hmoves⟩ | hmoves
    · exact .inr ⟨hsubmits.key, heditor, Text.isEmptyLine_eq_false_iff.mp hsubmits.line, hmoves.1⟩
    · exact .inl hmoves.1

/-- On a stream `whoami` fails for a user that is a number in a list, and so does Enter with a
prompt that cannot be filled in. -/
theorem history_after_failures :
    let events : List Event :=
      [.step (.feed "whoami"), .console true [.interrupt, .line "echo a\n"],
        .configure .null (.text "\x7buser") .null, .step (.key ⟨.up, ""⟩),
        .step (.key (.ofKey .enter))]
    let s := events.foldl (undergo .standard)
      { ofTree {} { user := .list [.int 5] } with surface := .stream }
    s.history = ["whoami", "echo a"] ∧ s.cursor = 1 ∧ s.cursor ≤ s.history.length ∧
      s.buffer = "echo a" := by
  intro events s
  have hkeeps : Registry.standard.Keeps past :=
    Registry.standard_ofBuiltins.keeps fun h ↦ (congrArg past h :)
  obtain ⟨hcursor, -, -⟩ := history_grows hkeeps {} { user := .list [.int 5] } .stream events
  have hhistory : s.history = ["whoami", "echo a"] := by decide +kernel
  have hlast : s.cursor = 1 := by decide +kernel
  have hbuffer : s.buffer = "echo a" := by decide +kernel
  exact ⟨hhistory, hlast, hcursor, hbuffer⟩

end Session

end TreeShell
