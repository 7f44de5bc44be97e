import TreeShell.Proofs.Session.Concordance
import TreeShell.Proofs.Session.Saving
import TreeShell.Proofs.Session.Typing

/-!
# Keys for the editor

Keys make up a command for the editor, or they go into the text, where Backspace takes them back.
-/

namespace TreeShell

/-!
## Typing a command to the editor

Escape leads to an empty command line from either mode, and characters go behind what is on that
line already; only an `i` on an empty line does something else. Every key lets all that holds the
last line of the text see it, which shows nowhere if everything has seen it before.
-/

namespace Session

open KeyEvent (Plain)

variable {s : Session} {reg : Registry} {e : Editor}

def commanding (s : Session) (e : Editor) (command : String) : Session :=
  { s with editor := some { e with mode := .command, command } }

/-- Everything has seen the last line of an editor. -/
def Seen (s : Session) (e : Editor) : Prop :=
  ∀ command, (s.commanding e command).share e.line = s.commanding e command

theorem seen_of_text {t : String} (hline : e.line = .text t) : s.Seen e := by
  intro command
  rw [hline, share_text]

theorem press_escape (he : s.editor = some e) (hseen : s.Seen e) :
    s.press reg (.ofKey .escape) = (s.commanding e "", none) := by
  have hkey : e.press ⟨s.freeGroup, 0⟩ (.ofKey .escape) =
      .ok ({ e with mode := .command, command := "" }, none) := by
    unfold Editor.press
    split
    · rfl
    · rename_i hmode
      rw [← hmode]
      rfl
  rw [press, he]
  dsimp only
  rw [editorKey, hkey]
  exact congrArg (·, none) (hseen "")

theorem press_commanding (hseen : s.Seen e) {command c : String} (hc : c ≠ "i" ∨ command ≠ "") :
    (s.commanding e command).press reg ⟨.character, c⟩ =
      (s.commanding e (command ++ c), none) := by
  have hkey : ({ e with mode := .command, command } : Editor).press ⟨s.freeGroup, 0⟩
      ⟨.character, c⟩ = .ok ({ e with mode := .command, command := command ++ c }, none) := by
    rw [Editor.press, Editor.commandKey, if_neg (not_and_or.mpr hc)]
  have hshare := hseen (command ++ c)
  rw [press, commanding]
  dsimp only
  rw [editorKey, hkey]
  exact congrArg (·, none) hshare

theorem pressAll_map_commanding (reg : Registry) (hseen : s.Seen e) {command : String}
    (hne : command ≠ "") {cs : List Char} (htab : '\t' ∉ cs) (hend : '\n' ∉ cs)
    (hescape : '\x1b' ∉ cs) :
    (s.commanding e command).pressAll reg (cs.map KeyEvent.ofChar) =
      (s.commanding e (command ++ String.ofList cs), none) := by
  induction cs generalizing command with
  | nil => simp [pressAll]
  | cons c cs ih =>
      simp only [List.mem_cons, not_or] at htab hend hescape
      have hkey : (s.commanding e command).press reg (.ofChar c) =
          (s.commanding e (command ++ String.singleton c), none) := by
        rw [KeyEvent.ofChar_of_ne (Ne.symm htab.1) (Ne.symm hend.1) (Ne.symm hescape.1)]
        exact press_commanding hseen (.inr hne)
      have hmore : command ++ String.singleton c ≠ "" := by simp
      rw [List.map_cons, pressAll_cons hkey, ih hmore htab.2 hend.2 hescape.2,
        String.append_assoc, String.singleton_eq_ofList, ← String.ofList_append]
      rfl

theorem press_enter_commanding (s : Session) (e : Editor) (command : String) :
    (s.commanding e command).press reg (.ofKey .enter) =
      (s.commanding e command).runEx { e with mode := .command, command := "" } command := rfl

/-- Escape, a line that begins with a colon and Enter run the line as a command. -/
theorem pressAll_colon (reg : Registry) (he : s.editor = some e) (hseen : s.Seen e) {c : String}
    (hplain : Plain c) :
    s.pressAll reg (.ofKey .escape :: KeyEvent.typing (":" ++ c) ++ [.ofKey .enter]) =
      (s.commanding e (":" ++ c)).runEx { e with mode := .command, command := "" } (":" ++ c) := by
  have hcolon : (s.commanding e "").press reg (.ofChar ':') = (s.commanding e ":", none) :=
    press_commanding hseen (.inl (by decide))
  have hline : (s.commanding e ":").pressAll reg (KeyEvent.typing c) =
      (s.commanding e (":" ++ c), none) := by
    rw [KeyEvent.typing, pressAll_map_commanding reg hseen (by decide) hplain.1 hplain.2.1
      hplain.2.2, String.ofList_toList]
  rw [KeyEvent.typing_append, List.cons_append, pressAll_cons (press_escape he hseen),
    List.append_assoc]
  change (s.commanding e "").pressAll reg (.ofChar ':' :: (KeyEvent.typing c ++ _)) = _
  rw [pressAll_cons hcolon, pressAll_append hline, pressAll_singleton, press_enter_commanding]

end Session

/-!
## Backspace

Backspace takes back the key before: it removes the last character of the last line, or that line
if it is empty. So as many of them as keys were pressed take back a whole text, line ends included.
The text is then marked as modified, and nothing else tells that anything was typed.
-/

namespace Editor

variable {e : Editor} {t : String} {c : Char} {fresh : Mark}

theorem press_of_insert (hmode : e.mode = .insert) (k : KeyEvent) :
    e.press fresh k = (e.insertKey fresh k).map (·, none) := by
  simp [press, hmode]

/-- A line that was begun is removed, and the one before it is the last again. -/
theorem erase_begun (e : Editor) (fresh : Mark) :
    ({ e with earlier := e.lines, line := .text "", modified := true } : Editor).erase fresh =
      .ok { e with modified := true } := by
  simp [erase, Line.isOn, Line.value, Json.isOn, lines]

theorem erase_pushed (hline : e.line = .text t) (c : Char) (fresh : Mark) :
    (e.withLine (.text (t ++ String.singleton c))).erase fresh =
      .ok { e with modified := true } := by
  have hshorter : Text.dropLast (t ++ String.singleton c) = t := by simp [Text.dropLast]
  have hon : (Line.text (t ++ String.singleton c)).isOn = true := by
    simp [Line.isOn, Line.value, Json.isOn]
  rw [erase, withLine, if_pos hon, Line.dropLast, hshorter, ← hline]
  rfl

/-- What a key types into a text, Backspace takes from it. -/
theorem exists_press_ofChar (hmode : e.mode = .insert) (hline : e.line = .text t) (htab : c ≠ '\t')
    (hescape : c ≠ '\x1b') (fresh : Mark) :
    ∃ e' t', e'.mode = .insert ∧ e'.line = .text t' ∧ e'.modified = true ∧
      e.press fresh (.ofChar c) = .ok (e', none) ∧
      e'.press fresh (.ofKey .backspace) = .ok ({ e with modified := true }, none) := by
  have hback {e' : Editor} (hmode' : e'.mode = .insert)
      (herase : e'.erase fresh = .ok { e with modified := true }) :
      e'.press fresh (.ofKey .backspace) = .ok ({ e with modified := true }, none) := by
    rw [press_of_insert hmode', insertKey, KeyEvent.ofKey]
    dsimp only
    rw [herase]
    rfl
  by_cases hend : c = '\n'
  · subst hend
    refine ⟨{ e with earlier := e.lines, line := .text "", modified := true }, "", hmode, rfl, rfl,
      ?_, hback hmode (erase_begun e fresh)⟩
    rw [press_of_insert hmode]
    rfl
  · refine ⟨e.withLine (.text (t ++ String.singleton c)), _, hmode, rfl, rfl, ?_,
      hback hmode (erase_pushed hline c fresh)⟩
    rw [press_of_insert hmode, KeyEvent.ofChar_of_ne htab hend hescape]
    simp [insertKey, hline, Line.push, Except.map]

end Editor

namespace Session

variable {s : Session} {reg : Registry} {e : Editor} {t : String}

theorem pressAll_undone (reg : Registry) (he : s.editor = some e) (hmode : e.mode = .insert)
    (hline : e.line = .text t) {cs : List Char} (htab : '\t' ∉ cs) (hescape : '\x1b' ∉ cs) :
    s.pressAll reg (cs.map .ofChar ++ List.replicate cs.length (.ofKey .backspace)) =
      ({ s with editor := some { e with modified := e.modified || !cs.isEmpty } }, none) := by
  induction cs generalizing s e t with
  | nil => simp [pressAll, ← he]
  | cons c cs ih =>
      simp only [List.mem_cons, not_or] at htab hescape
      obtain ⟨e', t', hmode', hline', hmodified, htyped, herased⟩ :=
        Editor.exists_press_ofChar hmode hline (Ne.symm htab.1) (Ne.symm hescape.1)
          ⟨s.freeGroup, 0⟩
      let typed : Session := { s with editor := some e' }
      have hkey : s.press reg (.ofChar c) = (typed, none) := press_of_text hline' htyped he
      -- What was typed after the first key is gone when its own Backspace is pressed.
      have hrest := ih (s := typed) rfl hmode' hline' htab.2 hescape.2
      rw [hmodified, Bool.true_or, ← hmodified] at hrest
      have hback : typed.press reg (.ofKey .backspace) =
          ({ s with editor := some { e with modified := true } }, none) :=
        press_of_text (s := typed) hline herased rfl
      rw [List.length_cons, List.replicate_succ', List.map_cons, List.cons_append,
        pressAll_cons hkey, ← List.append_assoc, pressAll_append hrest, pressAll_singleton]
      simpa using hback

/-- A text without tabs and escapes is typed into an editor whose last line is a text, and as many
Backspaces follow as it has characters. No key fails, and all is as it was, except that the text is
marked as modified if anything was typed. -/
theorem backspaces_undo_typing (reg : Registry) (s : Session) (e : Editor) (t text : String)
    (he : s.editor = some e) (hmode : e.mode = .insert) (hline : e.line = .text t)
    (htab : '\t' ∉ text.toList) (hescape : '\x1b' ∉ text.toList) :
    s.pressAll reg (KeyEvent.typing text ++ List.replicate text.length (.ofKey .backspace)) =
      ({ s with editor := some { e with modified := e.modified || text != "" } }, none) := by
  have hempty : (!text.toList.isEmpty) = (text != "") := by
    rw [Bool.eq_iff_iff]
    simp
  rw [KeyEvent.typing, ← String.length_toList, pressAll_undone reg he hmode hline htab hescape,
    hempty]

/-- Two lines are begun behind an empty one, with a character on each side. -/
theorem lines_are_taken_back :
    let s := (ofTree { entries := [.file "f" [.text "x", .text ""] 1] } {}).openEditor ["f"]
      (some [0])
    let text := "a\n\nb"
    let o := s.pressAll .standard
      (KeyEvent.typing text ++ List.replicate text.length (.ofKey .backspace))
    o.2 = none ∧ o.1.editor.map Editor.lines = some [.text "x", .text ""] ∧
      o.1.editor.map Editor.modified = some true ∧ o.1.tree = s.tree := by
  intro s text o
  let e := Editor.ofLines ["f"] [] (some [0]) [.text "x", .text ""]
  have ho : o = ({ s with editor := some { e with modified := e.modified || text != "" } }, none) :=
    backspaces_undo_typing .standard s e "" text rfl rfl rfl (by decide) (by decide)
  rw [ho]
  exact ⟨rfl, rfl, by decide, rfl⟩

/-- The user is a list with a list in it, which becomes the only line of a file. A character that is
typed goes into that list, also in the file. Backspace makes another list. -/
theorem typed_character_stays_in_file :
    let s := (ofConfig { shell := { user := .list [.list [.text "a"]] }
                         filesystem := { seed := [] } }).1.run .standard
      [.execute "whoami > f", .execute "vi f"]
    let o := s.pressAll .standard (KeyEvent.typing "b" ++ [.ofKey .backspace])
    s.editor.map (fun e ↦ (e.mode, e.lines.map Line.value)) =
        some (.insert, [.list [.text "a"]]) ∧
      s.tree.lines? [0] = some [.list ⟨1, 0⟩ [.text "a"]] ∧ o.2 = none ∧
      o.1.tree.lines? [0] = some [.list ⟨1, 0⟩ [.text "a", .text "b"]] := by
  decide +kernel

end Session

/-!
## Lines that begin with a colon

While the editor is open, a line that begins with a colon is a command for it, whatever mode it is
in and whatever was typed on its command line. The keys that stand for the line leave no trace of
their own: nothing of the line gets into the text.
-/

namespace Session

open KeyEvent (Plain)

variable {s : Session} {reg : Registry} {e : Editor} {c : String}

/-! ### The editor of the session while a command is run -/

theorem save_of_editor (s : Session) (editor : Option Editor) (e : Editor) :
    ({ s with editor } : Session).save e = s.save e := by
  unfold save fileFor create
  cases e.file with
  | some place => rfl
  | none =>
      dsimp only
      rcases s.tree.create e.home e.segments .text with (refusal | _) | _ <;> rfl

theorem runEx_of_editor (s : Session) (editor : Option Editor) (e : Editor) (command : String) :
    ({ s with editor } : Session).runEx e command = s.runEx e command := by
  unfold runEx
  rw [save_of_editor]
  rfl

/-! ### Lines -/

theorem concordant_commanding (h : s.Concordant) (he : s.editor = some e) (command : String) :
    (s.commanding e command).Concordant := by
  obtain ⟨contents, h⟩ := h
  have hlines := h.holds.editor e he
  exact ⟨contents, h.marks.congr rfl, holds_of_editor h.holds.toSourcesAre hlines, h.shown⟩

theorem Concordant.seen (h : s.Concordant) (he : s.editor = some e) : s.Seen e :=
  fun command ↦ (concordant_commanding h he command).share_eq
    (e := { e with mode := .command, command }) rfl

theorem lineKeys_of_colon (heditor : s.editor.isSome = true) (hplain : Plain c) :
    s.lineKeys (":" ++ c) =
      .ofKey .escape :: KeyEvent.typing (":" ++ c) ++ [.ofKey .enter] := by
  have hcolon : Text.beginsWith ":" (":" ++ c) = true := by simp [Text.beginsWith]
  have hlast : (":" ++ c).toList.getLast? ≠ some '\t' := by
    intro hlast
    have hmem := List.mem_of_getLast? hlast
    simp [hplain.1] at hmem
  rw [lineKeys, if_pos ⟨heditor, hcolon⟩, if_neg hlast]
  rfl

/-- A line that begins with a colon does, with all that it leaves and whether it fails, what the
command does in an editor that is in command mode without a command. If the editor stays open after
it, its text is what it was and no command is left over. -/
theorem colon_line_runs_command (reg : Registry) (s : Session) (hs : s.Concordant)
    (he : s.editor = some e) (hplain : Plain c) :
    let o := s.feedLine reg (":" ++ c)
    o = (s.commanding e "").runEx { e with mode := .command, command := "" } (":" ++ c) ∧
      ∀ e', o.1.editor = some e' →
        e'.lines = e.lines ∧ e'.mode = .command ∧ e'.command = "" := by
  intro o
  have heditor : s.editor.isSome = true := by rw [he]; rfl
  have ho : o =
      (s.commanding e "").runEx { e with mode := .command, command := "" } (":" ++ c) := by
    change s.feedLine reg (":" ++ c) = _
    rw [feedLine, lineKeys_of_colon heditor hplain, pressAll_colon reg he (hs.seen he) hplain]
    exact (runEx_of_editor s _ _ _).trans (runEx_of_editor s _ _ _).symm
  refine ⟨ho, fun e' he' ↦ ?_⟩
  rw [ho] at he'
  rcases runEx_open he' with ⟨status, rfl, -⟩ | ⟨t, place, -, rfl, -⟩
  · exact ⟨rfl, rfl, rfl⟩
  · exact ⟨rfl, rfl, rfl⟩

/-- The user is a list with the list `["a"]` in it, which is on the screen, in the file `f` and in
the editor. A key adds to it everywhere, half a command is typed, and then `:wq` is entered. -/
theorem colon_line_saves_shown_list :
    let config : Config :=
      { shell := { user := .list [.list [.text "a"]] }, filesystem := { seed := [] } }
    let s := (ofConfig config).1.run .standard
      ((KeyEvent.typing "whoami\nwhoami > f\nvi f\nb\x1b:i").map .key)
    s.Concordant ∧ Plain "wq" ∧
      ∃ e, s.editor = some e ∧ e.command = ":i" ∧ e.lines = [.list ⟨1, 0⟩ [.text "a", .text "b"]] ∧
        s.feedLine .standard (":" ++ "wq") =
          (s.commanding e "").runEx { e with mode := .command, command := "" } (":" ++ "wq") ∧
        (s.feedLine .standard (":" ++ "wq")).1.tree.lines? [0] = some e.lines := by
  intro config s
  have hs : s.Concordant :=
    concordant_run Registry.standard_ofBuiltins _ (concordant_ofConfig config)
  have hplain : Plain "wq" := by decide
  have hopen : s.editor.map (fun e ↦ (e.command, e.lines)) =
      some (":i", [.list ⟨1, 0⟩ [.text "a", .text "b"]]) := by decide +kernel
  obtain ⟨e, he, hwork⟩ := Option.map_eq_some_iff.mp hopen
  obtain ⟨hcommand, hlines⟩ := Prod.mk.inj hwork
  have hsaved : (s.feedLine .standard (":" ++ "wq")).1.tree.lines? [0] =
      some [.list ⟨1, 0⟩ [.text "a", .text "b"]] := by decide +kernel
  refine ⟨hs, hplain, e, he, hcommand, hlines, ?_, hlines ▸ hsaved⟩
  exact (colon_line_runs_command .standard s hs he hplain).1

end Session

end TreeShell
