import TreeShell.Proofs.Session.Changes

/-!
# Typing a line

The keys that type a text put its characters behind the line being typed. A line that is entered as
a whole does the same as Enter behind that line.
-/

namespace TreeShell

namespace KeyEvent

/-- No character of a text is typed by a key with a meaning of its own. -/
abbrev Plain (text : String) : Prop :=
  '\t' ∉ text.toList ∧ '\n' ∉ text.toList ∧ '\x1b' ∉ text.toList

theorem ofChar_of_ne {c : Char} (htab : c ≠ '\t') (hend : c ≠ '\n') (hescape : c ≠ '\x1b') :
    ofChar c = ⟨.character, String.singleton c⟩ := by
  rw [ofChar, if_neg htab, if_neg hend, if_neg hescape]

theorem typing_append (a b : String) : typing (a ++ b) = typing a ++ typing b := by
  simp [typing]

theorem typing_append_end (line : String) : typing (line ++ "\n") = typing line ++ [ofKey .enter] :=
  typing_append line "\n"

end KeyEvent

namespace Session

open KeyEvent (Plain)

variable {s s' : Session} {reg : Registry}

/-! ## Keys in turn -/

theorem pressAll_singleton (s : Session) (k : KeyEvent) : s.pressAll reg [k] = s.press reg k := by
  rw [pressAll]
  split
  · rename_i h
    exact h.symm
  · rename_i h
    exact h.symm

theorem pressAll_cons {k : KeyEvent} (h : s.press reg k = (s', none)) (ks : List KeyEvent) :
    s.pressAll reg (k :: ks) = s'.pressAll reg ks := by
  rw [pressAll, h]

theorem pressAll_append {ks : List KeyEvent} (h : s.pressAll reg ks = (s', none))
    (ks' : List KeyEvent) : s.pressAll reg (ks ++ ks') = s'.pressAll reg ks' := by
  induction ks generalizing s with
  | nil =>
      cases h
      rfl
  | cons k ks ih =>
      rw [pressAll] at h
      rw [List.cons_append, pressAll]
      split at h
      · exact ih h
      · cases h

/-- Keys of which none fails are the steps of a run. -/
theorem run_of_pressAll {ks : List KeyEvent} (h : s.pressAll reg ks = (s', none)) :
    s.run reg (ks.map .key) = s' := by
  induction ks generalizing s with
  | nil =>
      cases h
      rfl
  | cons k ks ih =>
      rw [pressAll] at h
      rw [List.map_cons, run_cons, step]
      split at h
      · rename_i hk
        rw [hk]
        exact ih h
      · cases h

theorem press_of_text {e e' : Editor} {k : KeyEvent} {t : String} (hline : e'.line = .text t)
    (hpress : e.press ⟨s.freeGroup, 0⟩ k = .ok (e', none)) (he : s.editor = some e) :
    s.press reg k = ({ s with editor := some e' }, none) := by
  rw [press, he]
  simp [editorKey, hpress, hline]

theorem pressAll_map_ofChar (reg : Registry) (heditor : s.editor = none) {cs : List Char}
    (htab : '\t' ∉ cs) (hend : '\n' ∉ cs) (hescape : '\x1b' ∉ cs) :
    ∃ tabPending, s.pressAll reg (cs.map KeyEvent.ofChar) =
      ({ s with buffer := s.buffer ++ String.ofList cs, tabPending }, none) := by
  induction cs generalizing s with
  | nil => exact ⟨s.tabPending, by simp [pressAll]⟩
  | cons c cs ih =>
      simp only [List.mem_cons, not_or] at htab hend hescape
      have hkey : s.press reg (.ofChar c) =
          ({ s with buffer := s.buffer ++ String.singleton c, tabPending := false }, none) := by
        rw [press_of_shell heditor, KeyEvent.ofChar_of_ne (Ne.symm htab.1) (Ne.symm hend.1)
          (Ne.symm hescape.1)]
        rfl
      obtain ⟨tabPending, hrest⟩ := ih
        (s := { s with buffer := s.buffer ++ String.singleton c, tabPending := false }) heditor
        htab.2 hend.2 hescape.2
      refine ⟨tabPending, ?_⟩
      rw [List.map_cons, pressAll_cons hkey, hrest, String.append_assoc,
        String.singleton_eq_ofList, ← String.ofList_append]
      rfl

theorem pressAll_typing (reg : Registry) (heditor : s.editor = none) {text : String}
    (h : Plain text) :
    ∃ tabPending, s.pressAll reg (KeyEvent.typing text) =
      ({ s with buffer := s.buffer ++ text, tabPending }, none) := by
  obtain ⟨tabPending, hkeys⟩ := pressAll_map_ofChar reg heditor h.1 h.2.1 h.2.2
  refine ⟨tabPending, ?_⟩
  rwa [String.ofList_toList] at hkeys

theorem pressAll_typing_enter (heditor : s.editor = none) {text : String} (h : Plain text) :
    s.pressAll reg (KeyEvent.typing text ++ [.ofKey .enter]) =
      ({ s with buffer := s.buffer ++ text, tabPending := false } : Session).enter reg := by
  obtain ⟨tabPending, hkeys⟩ := pressAll_typing reg heditor h
  rw [pressAll_append hkeys, pressAll_singleton, press_of_enter _ rfl]
  exact heditor

theorem lineKeys_of_plain (heditor : s.editor = none) {line : String} (h : Plain line) :
    s.lineKeys line = KeyEvent.typing line ++ [.ofKey .enter] := by
  have hlast : line.toList.getLast? ≠ some '\t' := fun hlast ↦ h.1 (List.mem_of_getLast? hlast)
  simp [lineKeys, heditor, hlast]

theorem feedLine_eq_enter (heditor : s.editor = none) {line : String} (h : Plain line) :
    s.feedLine reg line =
      ({ s with buffer := s.buffer ++ line, tabPending := false } : Session).enter reg := by
  rw [feedLine, lineKeys_of_plain heditor h, pressAll_typing_enter heditor h]

theorem enter_of_execute {prompt : String} {result : Result Place} (hprompt : s.prompt = .ok prompt)
    (hline : Text.isEmptyLine s.buffer = false)
    (hexecute : Session.execute
      { s.print (prompt ++ s.buffer) with history := s.history ++ [s.buffer] } reg s.buffer =
        (s', .ok result))
    (hrender : result.render = []) : s.enter reg = (s'.freshLine, none) := by
  have hsubmit : s.submit reg prompt s.buffer = (s', none) := by
    rw [submit_eq_shown, hexecute, shown, hrender]
    rfl
  rw [enter, hprompt]
  dsimp only
  rw [if_neg (by simp [hline]), hsubmit]

theorem exists_freshLine_of_enter (h : s.enter reg = (s', none)) :
    ∃ after : Session, s' = after.freshLine := by
  unfold enter at h
  split at h
  · cases h
  · split at h
    · cases h
      exact ⟨_, rfl⟩
    · split at h
      · cases h
        exact ⟨_, rfl⟩
      · cases h

end Session

end TreeShell
