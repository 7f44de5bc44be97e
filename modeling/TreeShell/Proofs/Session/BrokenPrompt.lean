import TreeShell.Proofs.Session.Saving
import TreeShell.Proofs.Session.Takeover

/-!
# A prompt that cannot be shown

The prompt is shown in three places: by Enter, by a second tab at several candidates and by an
editor that closes. The first two ask for it before they do anything, so that nothing has happened
if there is none. The editor asks for it last, when the text is saved and the editor is closed.
-/

namespace TreeShell

open TreeShell.Tree (Changes)

namespace Session

variable {s : Session} {reg : Registry} {e : Editor} {k : KeyEvent} {failure : Failure}
  {text : String}

/-! ## Keys for the line -/

theorem press_enter_of_error (hprompt : s.prompt = .error failure) (heditor : s.editor = none)
    (hk : k.key = .enter) : s.press reg k = ({ s with tabPending := false }, some failure) := by
  have hstart : ({ s with tabPending := false } : Session).prompt = .error failure := hprompt
  rw [press_of_enter heditor hk, enter, hstart]

theorem complete_eq_error_iff :
    (s.complete reg).2 = .error failure ↔
      s.prompt = .error failure ∧ s.tabPending = true ∧
        2 ≤ (s.candidates reg s.buffer).names.length := by
  unfold complete
  dsimp only
  split
  · rename_i h
    simp [h]
  · rename_i h
    simp [h]
  · rename_i hnone hone
    have hseveral : 2 ≤ (s.candidates reg s.buffer).names.length := by
      rcases h : (s.candidates reg s.buffer).names with _ | ⟨a, _ | ⟨b, names⟩⟩
      · exact absurd h hnone
      · exact absurd h (hone a)
      · simp
    split_ifs with hpending
    · cases s.prompt <;> simp [hpending, hseveral]
    · simp [hpending]

theorem fst_complete_of_error (h : (s.complete reg).2 = .error failure) :
    (s.complete reg).1 = s := by
  unfold complete at h ⊢
  dsimp only at h ⊢
  split at h
  · cases h
  · cases h
  · split_ifs at h ⊢
    cases hprompt : s.prompt with
    | ok prompt =>
        rw [hprompt] at h
        cases h
    | error failure => rfl

theorem tab_eq_some_iff :
    (s.tab reg).2 = some failure ↔
      s.settings.enableAutocomplete.isOn = true ∧ (s.complete reg).2 = .error failure := by
  unfold tab
  split_ifs with hon
  · rcases s.complete reg with ⟨s', found | completion⟩ <;> simp [hon]
  · simp [hon]

theorem fst_press_of_tab (hk : k.key = .tab) (h : (s.press reg k).2 = some failure) :
    (s.press reg k).1 = s := by
  cases he : s.editor with
  | none =>
      rw [press_of_shell he, shellKey, hk] at h ⊢
      obtain ⟨hon, hcomplete⟩ := tab_eq_some_iff.mp h
      exact (fst_tab_of_isOn reg hon).trans (fst_complete_of_error hcomplete)
  | some e =>
      rw [press, he] at h ⊢
      dsimp only at h ⊢
      unfold editorKey at h ⊢
      split at h
      · cases h
      · -- Only Enter submits a command.
        rename_i hpress
        obtain ⟨-, henter, -⟩ := Editor.press_eq_ok_some hpress
        cases hk.symm.trans henter
      · rfl

/-! ## Closing the editor -/

theorem closeEditor_of_error (hprompt : s.prompt = .error failure) :
    s.closeEditor = ({ s with editor := none }, some failure) := by
  have hclosed : ({ s with editor := none } : Session).prompt = .error failure := hprompt
  unfold closeEditor
  dsimp only
  rw [hclosed]

theorem prompt_save (hat : (s.tree.at? s.cwd).isSome = true) (e : Editor) :
    (s.save e).1.prompt = s.prompt := by
  -- Saving makes at most a new node, which leaves the path of the current directory alone.
  have hchanges : Changes (fun _ _ _ _ ↦ True) (fun _ ↦ False) s.tree (s.save e).1.tree :=
    changes_save s e fun _ ↦ trivial
  have hapart := apart_save s e
  have hcwd : (s.save e).1.cwd = s.cwd := (congrArg Session.cwd hapart :)
  have hsettings : (s.save e).1.settings = s.settings := (congrArg Session.settings hapart :)
  rw [prompt, prompt, hsettings, hcwd, hchanges.path hat]

/-- The editor `e` of a session is told to save and quit: by a call, or with Enter behind the
command. -/
inductive SavesAndQuits (reg : Registry) (s : Session) (e : Editor) :
    Session × Option Failure → Prop
  | call {text : String} (h : ExCommand.ofString text = .writeQuit) :
      SavesAndQuits reg s e (s.runEx e text)
  | enter {k : KeyEvent} (hk : k.key = .enter) (hmode : e.mode = .command)
      (h : ExCommand.ofString e.command = .writeQuit) : SavesAndQuits reg s e (s.press reg k)

theorem SavesAndQuits.exists_runEx {o : Session × Option Failure} (h : s.SavesAndQuits reg e o)
    (he : s.editor = some e) :
    ∃ typed text, ExCommand.ofString text = .writeQuit ∧
      o = s.runEx { e with command := typed } text := by
  cases h with
  | @call text h => exact ⟨e.command, text, h, rfl⟩
  | @enter k hk hmode h =>
      refine ⟨"", e.command, h, ?_⟩
      rw [press, he]
      exact editorKey_of_enter s hk hmode

theorem runEx_of_writeQuit (hprompt : s.prompt = .error failure)
    (hat : (s.tree.at? s.cwd).isSome = true) (htext : ExCommand.ofString text = .writeQuit)
    {t : Tree} {place : Place} (hd : s.tree.destination e.home e.segments e.file = .ok (t, place)) :
    ∃ log, s.runEx e text =
      ({ s with tree := t.write place e.lines, editor := none, log }, some failure) := by
  obtain ⟨log, hsave⟩ := save_of_destination hd
  have hkept := prompt_save hat e
  rw [hsave] at hkept
  refine ⟨log, ?_⟩
  rw [runEx, htext]
  simp only [hsave]
  exact closeEditor_of_error (hkept.trans hprompt)

/-- While the prompt cannot be shown, Enter in the shell fails and leaves all but a pending tab as
it is. A tab that would show the prompt fails and leaves everything as it is. An editor that is
told to save and quit writes its text to its file and is closed, all else is as it was, and the
failure comes after that; if there is no file to write to, it stays open with its text. The places
that the session keeps are in its tree. -/
theorem broken_prompt_loses_nothing (reg : Registry) (s : Session)
    (hprompt : s.prompt = .error failure) :
    (∀ k, k.key = .enter → s.editor = none →
      s.press reg k = ({ s with tabPending := false }, some failure)) ∧
    (∀ k, k.key = .tab →
      (s.editor = none →
        ((s.press reg k).2 = some failure ↔
          s.settings.enableAutocomplete.isOn = true ∧ s.tabPending = true ∧
            2 ≤ (s.candidates reg s.buffer).names.length)) ∧
      ((s.press reg k).2 ≠ none → (s.press reg k).1 = s)) ∧
    ∀ e, s.editor = some e → (s.tree.at? s.cwd).isSome = true →
      (∀ q, e.file = some q → s.tree.Has .text q) → ∀ o, s.SavesAndQuits reg e o →
        match s.tree.destination e.home e.segments e.file with
        | .ok (t, place) =>
            let t' := t.write place e.lines
            s.tree.Written t' place e.lines ∧
              (∃ log, o = ({ s with tree := t', editor := none, log }, some failure)) ∧
              ∀ k, o.1.press reg k = o.1.shellKey reg k
        | .error _ =>
            ∃ typed status,
              o.1 = { s with editor := some { e with command := typed, status } } := by
  refine ⟨fun k hk heditor ↦ press_enter_of_error hprompt heditor hk, fun k hk ↦ ⟨?_, ?_⟩, ?_⟩
  · intro heditor
    rw [press_of_shell heditor, shellKey, hk]
    simp only [tab_eq_some_iff, complete_eq_error_iff, hprompt, true_and]
  · intro hfails
    obtain ⟨f, hf⟩ := Option.ne_none_iff_exists'.mp hfails
    exact fst_press_of_tab hk hf
  · intro e he hat hfile o ho
    obtain ⟨typed, text, htext, rfl⟩ := ho.exists_runEx he
    cases hd : s.tree.destination e.home e.segments e.file with
    | ok made =>
        obtain ⟨t, place⟩ := made
        obtain ⟨log, hclosed⟩ :=
          runEx_of_writeQuit (e := { e with command := typed }) hprompt hat htext hd
        refine ⟨Tree.written_of_destination hfile hd e.lines, ⟨log, hclosed⟩, fun k ↦ ?_⟩
        rw [hclosed]
        rfl
    | error refusal =>
        have hsaves : (ExCommand.ofString text).saves = true := by rw [htext]; rfl
        obtain ⟨status, hkept⟩ := runEx_of_refused (e := { e with command := typed }) hsaves hd
        exact ⟨typed, status, hkept⟩

/-- A prompt with an unknown field: Enter behind `touch g`, a second tab at the empty line, and
`:wq` in an editor whose text was changed. -/
theorem unknown_field_in_prompt :
    let failure : Failure := .template (.unknownField "nope")
    let s := ofTree { entries := [.file "f" [.text "x"] 0] }
      { promptTemplate := .text "\x7bnope\x7d" }
    let typed : Session := { s with buffer := "touch g" }
    let pending : Session := { s with tabPending := true }
    let e := (Editor.ofLines ["f"] [] (some [0]) [.text "x"]).withLine (.text "xy")
    let editing : Session := { s with editor := some e }
    let closed := editing.runEx e ":wq"
    typed.press .standard (.ofKey .enter) = (typed, some failure) ∧
      pending.press .standard (.ofKey .tab) = (pending, some failure) ∧
      closed.2 = some failure ∧ closed.1.editor = none ∧
      closed.1.tree.lines? [0] = some [.text "xy"] := by
  intro failure s typed pending e editing closed
  have hprompt : s.prompt = .error failure := rfl
  have htyped := broken_prompt_loses_nothing .standard typed hprompt
  have hpending := broken_prompt_loses_nothing .standard pending hprompt
  have hediting := broken_prompt_loses_nothing .standard editing hprompt
  have hkey := hpending.2.1 (.ofKey .tab) rfl
  have hfails : (pending.press .standard (.ofKey .tab)).2 = some failure :=
    (hkey.1 rfl).mpr ⟨rfl, rfl, by decide⟩
  have hfile : ∀ q, e.file = some q → editing.tree.Has .text q := by
    rintro _ ⟨rfl⟩
    exact ⟨"f", rfl⟩
  obtain ⟨hwritten, ⟨log, hclosed⟩, -⟩ :=
    hediting.2.2 e rfl rfl hfile closed (.call (by decide))
  refine ⟨htyped.1 _ rfl rfl, Prod.ext (hkey.2 ?_) hfails, ?_, ?_, hwritten.lines⟩
  · rw [hfails]
    exact nofun
  · rw [hclosed]
  · rw [hclosed]

end Session

end TreeShell
