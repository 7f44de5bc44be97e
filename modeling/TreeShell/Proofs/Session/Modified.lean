import TreeShell.Proofs.Session.Saving

/-!
# The text and its file

An editor opens a file without lines as one empty line, and no file at all as well. Unless the text
was modified, it is the one that the file has in this sense: keys that change the text say so, and
what a save leaves is what it has written. So the editor can be quit without losing anything
whenever it lets itself be quit.
-/

namespace TreeShell

namespace Editor

variable {t : Tree} {fresh : Mark} {e e' : Editor} {k : KeyEvent}

/-- The text of an editor that opens lines: there is at least one. -/
def textOf (lines : List Line) : List Line := if lines = [] then [.text ""] else lines

def stored (t : Tree) (e : Editor) : List Line := (e.file.bind t.lines?).getD []

theorem textOf_of_ne_nil {lines : List Line} (h : lines ≠ []) : textOf lines = lines := if_neg h

theorem lines_ofLines_eq (segments : List String) (home : Place) (file : Option Place)
    (lines : List Line) : (ofLines segments home file lines).lines = textOf lines := by
  by_cases h : lines = []
  · subst h
    rfl
  · rw [lines_ofLines segments home file h, textOf_of_ne_nil h]

/-- An empty line is no list, so it stays as it is when one is changed. -/
theorem textOf_map_after (changed : Line) (lines : List Line) :
    textOf (lines.map changed.after) = (textOf lines).map changed.after := by
  by_cases h : lines = []
  · subst h
    cases changed <;> rfl
  · rw [textOf_of_ne_nil h, textOf_of_ne_nil (by simpa using h)]

/-- The file of an editor is a text file, and a text that was not modified is the one of it. -/
structure InStep (t : Tree) (e : Editor) : Prop where
  file : ∀ place, e.file = some place → t.Has .text place
  lines : e.modified = false → e.lines = textOf (e.stored t)

theorem InStep.congr (h : e.InStep t) (hfile : e'.file = e.file) (hlines : e'.lines = e.lines)
    (hmodified : e'.modified = e.modified) : e'.InStep t where
  file := hfile ▸ h.file
  lines := by rw [hmodified, hlines, stored, hfile]; exact h.lines

theorem inStep_ofLines {file : Option Place}
    (hfile : ∀ place, file = some place → t.Has .text place) (segments : List String)
    (home : Place) :
    (ofLines segments home file ((file.bind t.lines?).getD [])).InStep t where
  file := hfile
  lines := fun _ ↦ lines_ofLines_eq ..

/-! ## Keys -/

theorem modified_or_same_of_press {command : Option String}
    (h : e.press fresh k = .ok (e', command)) :
    e'.modified = true ∨ e'.lines = e.lines ∧ e'.modified = e.modified := by
  cases takes_press h with
  | aside mode command => exact .inr ⟨rfl, rfl⟩
  | _ => exact .inl rfl

theorem InStep.press {command : Option String} (h : e.InStep t)
    (hk : e.press fresh k = .ok (e', command)) : e'.InStep t := by
  have hfile : e'.file = e.file := congrArg Prod.snd (work_press hk)
  rcases modified_or_same_of_press hk with hmodified | ⟨hlines, hmodified⟩
  · refine ⟨hfile ▸ h.file, fun hnot ↦ ?_⟩
    cases hmodified.symm.trans hnot
  · exact h.congr hfile hlines hmodified

theorem InStep.after (h : e.InStep t) (changed : Line) :
    (e.after changed).InStep (t.after changed) where
  file := fun place hplace ↦ (Tree.sameNodes_after changed t).has (h.file place hplace)
  lines := by
    intro hmodified
    have hstored : (e.after changed).stored (t.after changed) =
        (e.stored t).map changed.after := by
      cases hfile : e.file with
      | none => simp [stored, Editor.after, hfile]
      | some place =>
          obtain ⟨old, hold⟩ := Tree.has_text_iff.mp (h.file place hfile)
          simp [stored, Editor.after, hfile, hold, Tree.lines?_after]
    rw [lines_after, hstored, textOf_map_after, h.lines hmodified]

end Editor

namespace Session

variable {s : Session} {reg : Registry} {e e' : Editor} {k : KeyEvent} {command : String}

theorem inStep_runEx (h : e.InStep s.tree) (he' : (s.runEx e command).1.editor = some e') :
    e'.InStep (s.runEx e command).1.tree := by
  rcases runEx_open he' with ⟨status, rfl, htree⟩ | ⟨t, place, hd, rfl, htree⟩ <;> rw [htree]
  · exact h.congr rfl rfl rfl
  · have hwritten := Tree.written_of_destination h.file hd e.lines
    refine ⟨?_, fun _ ↦ ?_⟩
    · rintro _ ⟨rfl⟩
      exact Tree.has_text_iff.mpr ⟨_, hwritten.lines⟩
    · -- What was written is what is read now, and a text has at least one line.
      change e.lines = Editor.textOf (((t.write place e.lines).lines? place).getD [])
      rw [hwritten.lines, Option.getD_some, Editor.textOf_of_ne_nil e.lines_ne_nil]

theorem inStep_editorKey (he : s.editor = some e) (h : e.InStep s.tree)
    (he' : (s.editorKey e k).1.editor = some e') : e'.InStep (s.editorKey e k).1.tree := by
  unfold editorKey at he' ⊢
  split at he'
  · rename_i e₁ hpress
    have hkey := h.press hpress
    rcases share_cases { s with editor := some e₁ } e₁.line with hsame | ⟨htree, heditor⟩
    · rw [hsame] at he' ⊢
      cases he'
      exact hkey
    · cases heditor.symm.trans he'
      change (e₁.after e₁.line).InStep (({ s with editor := some e₁ } : Session).share e₁.line).tree
      rw [htree]
      exact hkey.after e₁.line
  · rename_i e₁ text hpress
    exact inStep_runEx (h.press hpress) he'
  · cases he.symm.trans he'
    exact h

theorem inStep_step {x : Step} (hx : x.Edits) (he : s.editor = some e) (h : e.InStep s.tree)
    (he' : (s.step reg x).editor = some e') : e'.InStep (s.step reg x).tree := by
  rcases hx.step_eq reg he with ⟨text, hs⟩ | ⟨k, -, hs⟩ | ⟨place, hs⟩ <;>
    rw [hs] at he' ⊢
  · exact inStep_runEx h he'
  · exact inStep_editorKey he h he'
  · cases he.symm.trans he'
    exact h

theorem inStep_run {steps : List Step} (hopen : s.KeepsEditing reg steps)
    (he : s.editor = some e) (h : e.InStep s.tree) :
    ∃ e', (s.run reg steps).editor = some e' ∧ e'.InStep (s.run reg steps).tree :=
  hopen.run (I := fun s e ↦ e.InStep s.tree) inStep_step he h

theorem runEx_of_quit (h : ExCommand.ofString command = .quit) :
    (s.runEx e command).1.tree = s.tree ∧
      ((s.runEx e command).1.editor = none ↔ e.modified = false) := by
  refine ⟨(runEx_of_not_saves (by rw [h]; rfl)).1, ?_⟩
  unfold runEx
  rw [h]
  dsimp only
  split_ifs with hmodified
  · simp [hmodified]
  · exact iff_of_true (editor_closeEditor s) (by simpa using hmodified)

/-- An editor is opened on a text file or on none, and as long as it stays open keys and commands
are given to it. Its text always has a line. If it is not marked as modified, it is the text of the
lines that the file has by then; no lines and no file count as one empty line. A command to quit
closes the editor exactly if it is not marked, and so loses nothing. -/
theorem quitting_loses_nothing (reg : Registry) (s : Session) (segments : List String)
    (file : Option Place) (hfile : ∀ place, file = some place → s.tree.Has .text place)
    (steps : List Step) (hopen : (s.openEditor segments file).KeepsEditing reg steps) :
    let s' := (s.openEditor segments file).run reg steps
    ∃ e, s'.editor = some e ∧ e.lines ≠ [] ∧
      (e.modified = false → e.lines = Editor.textOf (e.stored s'.tree)) ∧
      ∀ x, x.Gives e .quit →
        let s'' := s'.step reg x
        (s''.editor = none ↔ e.modified = false) ∧
          (s''.editor = none → e.lines = Editor.textOf (e.stored s''.tree)) := by
  intro s'
  obtain ⟨e, he, hstep⟩ := inStep_run hopen rfl (Editor.inStep_ofLines hfile segments s.cwd)
  refine ⟨e, he, e.lines_ne_nil, hstep.lines, ?_⟩
  intro x hx s''
  obtain ⟨typed, text, hcommand, hs''⟩ := exists_runEx_of_gives reg he hx
  obtain ⟨htree, hclosed⟩ := runEx_of_quit (s := s') (e := { e with command := typed }) hcommand
  have hnone : s''.editor = none ↔ e.modified = false := by
    change (s'.step reg x).editor = none ↔ _
    rw [hs'']
    exact hclosed
  refine ⟨hnone, fun hquit ↦ ?_⟩
  have hkept : s''.tree = s'.tree := by
    change (s'.step reg x).tree = _
    rw [hs'']
    exact htree
  rw [hkept]
  exact hstep.lines (hnone.mp hquit)

/-- A file without lines is opened, two lines are typed and saved, and `:q` closes the editor. -/
theorem saved_text_is_kept :
    let s := ofTree { entries := [.file "f" [] 1] } {}
    let steps := (KeyEvent.typing "a\nb\x1b:w\n:q").map .key
    let s' := (s.openEditor ["f"] (some [0])).run .standard steps
    let s'' := s'.step .standard (.key (.ofKey .enter))
    s.tree.Has .text [0] ∧ (s.openEditor ["f"] (some [0])).KeepsEditing .standard steps ∧
      s'.editor.map Editor.modified = some false ∧ s''.editor = none ∧
      Editor.textOf ((s''.tree.lines? [0]).getD []) = [.text "a", .text "b"] := by
  intro s steps s' s''
  have hfile : s.tree.Has .text [0] := Tree.has_text_iff.mpr ⟨[], rfl⟩
  have hopen : (s.openEditor ["f"] (some [0])).KeepsEditing .standard steps := by decide +kernel
  obtain ⟨e, he, -, -, hquit⟩ := quitting_loses_nothing .standard s ["f"] (some [0])
    (fun _ hplace ↦ Option.some.inj hplace ▸ hfile) steps hopen
  have hstate : s'.editor.map (fun e ↦ ((e.lines, e.file), e.modified, e.mode, e.command)) =
      some (([.text "a", .text "b"], some [0]), false, .command, ":q") := by decide +kernel
  rw [he] at hstate
  simp only [Option.map_some, Option.some.injEq, Prod.mk.injEq] at hstate
  obtain ⟨⟨hlines, hplace⟩, hmodified, hmode, hcommand⟩ := hstate
  obtain ⟨hclosed, hkept⟩ := hquit (.key (.ofKey .enter)) ⟨rfl, hmode, by rw [hcommand]; decide⟩
  have hnone : s''.editor = none := hclosed.mpr hmodified
  have hread := hkept hnone
  rw [hlines, Editor.stored, hplace] at hread
  exact ⟨hfile, hopen, by decide +kernel, hnone, hread.symm⟩

end Session

end TreeShell
