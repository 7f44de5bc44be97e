import TreeShell.Proofs.Session.EditorKeys
import TreeShell.Proofs.Session.Frame
import TreeShell.Proofs.Tree.Contents

/-!
# Editing a file

A file is opened, text is typed at its end and the file is saved. All of this is done with keys, so
it goes through the shell, the two modes of the editor and the tree. The text in the editor is what
its lines read as when they are joined, and every key in insert mode adds to the end of that.
-/

namespace TreeShell

open KeyEvent (Plain)

/-- A text as the editor takes it in: a tab types nothing. -/
def untabbed (cs : List Char) : String := String.ofList (cs.filter (· ≠ '\t'))

theorem untabbed_append (cs ds : List Char) : untabbed (cs ++ ds) = untabbed cs ++ untabbed ds := by
  simp [untabbed]

namespace Editor

variable {e : Editor} {place : Place} {content : String}

structure Inserts (e : Editor) (place : Place) (content : String) : Prop where
  mode : e.mode = .insert
  file : e.file = some place
  content : Line.joined "\n" e.lines = .ok content

theorem Inserts.exists_lines (h : e.Inserts place content) :
    ∃ ss t, e.earlier = ss.map .text ∧ e.line = .text t ∧
      "\n".intercalate (ss ++ [t]) = content := by
  obtain ⟨all, hall, hcontent⟩ := Line.exists_map_text_of_joined h.content
  rcases List.eq_nil_or_concat all with rfl | ⟨ss, t, rfl⟩
  · exact absurd hall e.lines_ne_nil
  · have happend : e.earlier ++ [e.line] = ss.map .text ++ [.text t] := by
      rw [← Editor.lines, hall]
      simp
    obtain ⟨hearlier, hline⟩ := List.append_inj' happend rfl
    refine ⟨ss, t, hearlier, List.singleton_inj.mp hline, ?_⟩
    rwa [List.concat_eq_append] at hcontent

theorem inserts_ofLines (segments : List String) (home : Place) {lines : List Line}
    (h : Line.joined "\n" lines = .ok content) :
    (ofLines segments home (some place) lines).Inserts place content where
  mode := rfl
  file := rfl
  content := by
    by_cases hne : lines = []
    · subst hne
      exact h
    · rw [lines_ofLines segments home (some place) hne]
      exact h

theorem intercalate_append_last (ss : List String) (t u : String) :
    "\n".intercalate (ss ++ [t ++ u]) = "\n".intercalate (ss ++ [t]) ++ u := by
  by_cases hne : ss = []
  · simp [hne]
  · rw [String.intercalate_append_of_ne_nil hne (by simp),
      String.intercalate_append_of_ne_nil hne (by simp)]
    simp [String.append_assoc]

theorem inserts_insertKey (h : e.Inserts place content) {c : Char} (hescape : c ≠ '\x1b')
    (fresh : Mark) :
    ∃ e', e.insertKey fresh (.ofChar c) = .ok e' ∧ e'.Inserts place (content ++ untabbed [c]) := by
  obtain ⟨ss, t, hearlier, hline, hcontent⟩ := h.exists_lines
  have hlines : e.lines = (ss ++ [t]).map .text := by simp [lines, hearlier, hline]
  by_cases htab : c = '\t'
  · subst htab
    exact ⟨e, rfl, by simpa [untabbed] using h⟩
  · by_cases hend : c = '\n'
    · subst hend
      refine ⟨{ e with earlier := e.lines, line := .text "", modified := true }, rfl, ?_⟩
      refine ⟨h.mode, h.file, ?_⟩
      -- The new line is empty, so joining it to the others adds just the line end.
      have hmore : e.lines ++ [.text ""] = (ss ++ [t] ++ [""]).map .text := by simp [hlines]
      change Line.joined "\n" (e.lines ++ [.text ""]) = _
      rw [hmore, Line.joined_map_text, String.intercalate_append_of_ne_nil (by simp) (by simp),
        hcontent]
      simp [untabbed]
    · refine ⟨e.withLine (.text (t ++ String.singleton c)), ?_, h.mode, h.file, ?_⟩
      · rw [KeyEvent.ofChar_of_ne htab hend hescape]
        simp [insertKey, hline, Line.push, Except.map]
      · -- Only the last line grows, and the text ends in it.
        have hmore : e.earlier ++ [.text (t ++ String.singleton c)] =
            (ss ++ [t ++ String.singleton c]).map .text := by simp [hearlier]
        change Line.joined "\n" (e.earlier ++ [.text (t ++ String.singleton c)]) = _
        rw [hmore, Line.joined_map_text, intercalate_append_last, hcontent]
        simp [untabbed, htab]

end Editor

namespace Session

variable {s : Session} {reg : Registry} {e : Editor} {spec : Spec} {p prompt content : String}
  {place : Place}

/-! ## Opening -/

theorem execute_vi (hspec : reg.find? "vi" = some spec) (hvi : spec.action = .builtin .vi)
    (hne : p ≠ "") (hone : ' ' ∉ p.toList) (hoperator : '>' ∉ p.toList) (s : Session) :
    ∃ log data, s.execute reg ("vi " ++ p) =
      ({ s with editor := some (s.editorAt p), log }, .ok { data }) := by
  have hline : '>' ∉ ("vi " ++ p).toList := by simp [hoperator]
  have hwords : Text.tokens ("vi" ++ " " ++ p) = ["vi", p] := by
    rw [Text.tokens_append_space, Text.tokens_of_not_mem hne hone]
    rfl
  have hparse : Command.parse ("vi " ++ p) = .ok ⟨"vi", [p], none, "vi " ++ p⟩ := by
    rw [Command.parse_of_not_mem hline]
    exact congrArg Except.ok (Command.ofBody_of_tokens hwords none)
  have hdispatch : s.dispatch reg ⟨"vi", [p], none, "vi " ++ p⟩ =
      settle ⟨"vi", [p], none, "vi " ++ p⟩
        ((s.note (dispatchRecord ⟨"vi", [p], none, "vi " ++ p⟩)).vi [p]) := by
    rw [dispatch, if_neg (by simp [Command.isEmpty])]
    simp only [hspec, hvi]
    rfl
  rw [execute_of_plain hparse rfl, hdispatch]
  exact ⟨_, _, rfl⟩

theorem pressAll_vi (hspec : reg.find? "vi" = some spec) (hvi : spec.action = .builtin .vi)
    (heditor : s.editor = none) (hbuffer : s.buffer = "") (hprompt : s.prompt = .ok prompt)
    (hplain : Plain p) (hne : p ≠ "") (hone : ' ' ∉ p.toList) (hoperator : '>' ∉ p.toList) :
    ∃ screen cursor log, s.pressAll reg (KeyEvent.typing ("vi " ++ p ++ "\n")) =
      ({ s with
          screen, cursor, log, buffer := "", tabPending := false
          history := s.history ++ ["vi " ++ p]
          editor := some (s.editorAt p) }, none) := by
  have hkeys : Plain ("vi " ++ p) := by simpa [Plain] using hplain
  have hline : Text.isEmptyLine ("vi " ++ p) = false := by simp [Text.isEmptyLine]
  let start : Session := { s with buffer := "vi " ++ p, tabPending := false }
  have hstart : start.prompt = .ok prompt := hprompt
  obtain ⟨log, data, hexecute⟩ := execute_vi hspec hvi hne hone hoperator
    { start.print (prompt ++ ("vi " ++ p)) with history := s.history ++ ["vi " ++ p] }
  have henter := enter_of_execute (s := start) hstart hline hexecute rfl
  rw [KeyEvent.typing_append_end, pressAll_typing_enter heditor hkeys, hbuffer,
    String.empty_append]
  exact ⟨_, _, _, henter⟩

/-! ## Typing -/

theorem press_insert (reg : Registry) (he : s.editor = some e) (h : e.Inserts place content)
    {c : Char} (hescape : c ≠ '\x1b') :
    ∃ e', s.press reg (.ofChar c) = ({ s with editor := some e' }, none) ∧
      e'.Inserts place (content ++ untabbed [c]) := by
  obtain ⟨e', hkey, hinserts⟩ := Editor.inserts_insertKey h hescape ⟨s.freeGroup, 0⟩
  obtain ⟨ss, t, -, hline, -⟩ := hinserts.exists_lines
  have hpress : e.press ⟨s.freeGroup, 0⟩ (.ofChar c) = .ok (e', none) := by
    simp [Editor.press, h.mode, hkey, Except.map]
  exact ⟨e', press_of_text hline hpress he, hinserts⟩

theorem pressAll_insert (reg : Registry) (he : s.editor = some e) (h : e.Inserts place content)
    {cs : List Char} (hescape : '\x1b' ∉ cs) :
    ∃ e', s.pressAll reg (cs.map .ofChar) = ({ s with editor := some e' }, none) ∧
      e'.Inserts place (content ++ untabbed cs) := by
  induction cs generalizing s e content with
  | nil =>
      refine ⟨e, ?_, by simpa [untabbed] using h⟩
      rw [← he]
      rfl
  | cons c cs ih =>
      rw [List.mem_cons, not_or] at hescape
      obtain ⟨e', hkey, hinserts⟩ := press_insert reg he h (Ne.symm hescape.1)
      obtain ⟨e'', hrest, hlast⟩ := ih (s := { s with editor := some e' }) rfl hinserts hescape.2
      refine ⟨e'', ?_, ?_⟩
      · rw [List.map_cons, pressAll_cons hkey, hrest]
      · rwa [String.append_assoc, ← untabbed_append] at hlast

/-! ## Saving -/

theorem exists_closeEditor (h : s.prompt = .ok prompt) :
    ∃ screen log, s.closeEditor = ({ s with editor := none, screen, log }, none) := by
  have hclosed : ({ s with editor := none } : Session).prompt = .ok prompt := h
  unfold closeEditor
  dsimp only
  rw [hclosed]
  exact ⟨_, _, rfl⟩

theorem runEx_wq (hfile : e.file = some place) (hprompt : s.prompt = .ok prompt) :
    ∃ screen log, s.runEx e ":wq" =
      ({ s with tree := s.tree.write place e.lines, editor := none, screen, log }, none) := by
  have hpath : (s.tree.write place e.lines).path s.cwd = s.tree.path s.cwd :=
    (Tree.sameNodes_write s.tree place e.lines).path rfl s.cwd
  have hkept : ({ s with tree := s.tree.write place e.lines } : Session).prompt = .ok prompt := by
    rw [← hprompt, Session.prompt, Session.prompt, hpath]
  let saved : Session :=
    ({ s with
        tree := s.tree.write place e.lines
        editor := some (e.saved place) } : Session).note
      (.debug "editor" "Saved" [("path", .value (s.tree.path place))])
  have hsave : s.save e = (saved, .ok true) := by
    simp only [save, fileFor, hfile]
    rfl
  obtain ⟨screen, log, hclose⟩ := exists_closeEditor (s := saved) hkept
  refine ⟨screen, log, ?_⟩
  have hcommand : ExCommand.ofString ":wq" = .writeQuit := by decide
  rw [runEx, hcommand]
  simp only [hsave, hclose]
  rfl

theorem pressAll_wq (reg : Registry) (he : s.editor = some e) (h : e.Inserts place content)
    (hprompt : s.prompt = .ok prompt) :
    ∃ screen log, s.pressAll reg (KeyEvent.typing "\x1b:wq\n") =
      ({ s with tree := s.tree.write place e.lines, editor := none, screen, log }, none) := by
  obtain ⟨-, t, -, hline, -⟩ := h.exists_lines
  have hkeys : KeyEvent.typing "\x1b:wq\n" =
      .ofKey .escape :: KeyEvent.typing (":" ++ "wq") ++ [.ofKey .enter] := by decide
  obtain ⟨screen, log, hsave⟩ := runEx_wq (s := s.commanding e ":wq")
    (e := { e with mode := .command, command := "" }) h.file hprompt
  refine ⟨screen, log, ?_⟩
  rw [hkeys, pressAll_colon reg he (seen_of_text hline) (by decide)]
  exact hsave

/-! ## From the prompt to the prompt -/

theorem inserts_editorAt (hplace : s.tree.resolvePath s.cwd p (some .text) = some place)
    (hcontent : (s.tree.lines? place).map (Line.joined "\n") = some (.ok content)) :
    (s.editorAt p).Inserts place content := by
  obtain ⟨lines, hlines, hjoined⟩ := Option.map_eq_some_iff.mp hcontent
  have hfile : s.fileAt p = some place := by
    simp [fileAt, hplace, Tree.not_isDirectory_of_lines? hlines]
  rw [editorAt, hfile, Option.bind_some, hlines]
  exact Editor.inserts_ofLines _ _ hjoined

/-- A text file is opened with `vi`, a text is typed and saved with `:wq`. Then the file holds the
text behind what it held before, without tabs, and the shell is where it was. -/
theorem edit_and_save (hspec : reg.find? "vi" = some spec) (hvi : spec.action = .builtin .vi)
    (heditor : s.editor = none) (hbuffer : s.buffer = "") (hprompt : s.prompt = .ok prompt)
    (hplain : Plain p) (hne : p ≠ "") (hone : ' ' ∉ p.toList) (hoperator : '>' ∉ p.toList)
    (hplace : s.tree.resolvePath s.cwd p (some .text) = some place)
    (hcontent : (s.tree.lines? place).map (Line.joined "\n") = some (.ok content))
    (text : String) (hescape : '\x1b' ∉ text.toList) :
    let o := s.pressAll reg (KeyEvent.typing ("vi " ++ p ++ "\n" ++ text ++ "\x1b:wq\n"))
    o.2 = none ∧ o.1.editor = none ∧
      (o.1.tree.lines? place).map (Line.joined "\n") =
        some (.ok (content ++ untabbed text.toList)) ∧
      (∀ q ≠ place, (o.1.tree.at? q).map Node.own = (s.tree.at? q).map Node.own) ∧
      o.1.cwd = s.cwd ∧ o.1.history = s.history ++ ["vi " ++ p] ∧ o.1.buffer = "" := by
  intro o
  obtain ⟨screen, cursor, log, hopen⟩ :=
    pressAll_vi hspec hvi heditor hbuffer hprompt hplain hne hone hoperator
  have hstart := inserts_editorAt hplace hcontent
  let opened : Session :=
    { s with
      screen, cursor, log, buffer := "", tabPending := false
      history := s.history ++ ["vi " ++ p]
      editor := some (s.editorAt p) }
  obtain ⟨e, htyped, hinserts⟩ := pressAll_insert (s := opened) reg rfl hstart hescape
  obtain ⟨screen', log', hsave⟩ :=
    pressAll_wq (s := { opened with editor := some e }) reg rfl hinserts hprompt
  have ho : o =
      ({ opened with
        tree := s.tree.write place e.lines, editor := none, screen := screen', log := log' },
      none) := by
    have hboth : s.pressAll reg (KeyEvent.typing ("vi " ++ p ++ "\n") ++ KeyEvent.typing text) =
        ({ opened with editor := some e }, none) := by
      rw [pressAll_append hopen]
      exact htyped
    change s.pressAll reg (KeyEvent.typing ("vi " ++ p ++ "\n" ++ text ++ "\x1b:wq\n")) = _
    rw [KeyEvent.typing_append, KeyEvent.typing_append, pressAll_append hboth]
    exact hsave
  obtain ⟨before, hbefore, -⟩ := Option.map_eq_some_iff.mp hcontent
  have hfile : (s.tree.write place e.lines).lines? place = some e.lines := by
    rw [Tree.lines?_write_self, hbefore]
    rfl
  rw [ho]
  refine ⟨rfl, rfl, ?_, ?_, rfl, rfl, rfl⟩
  · change ((s.tree.write place e.lines).lines? place).map _ = _
    rw [hfile, Option.map_some, hinserts.content]
  · intro q hq
    exact Tree.own_write_of_ne s.tree hq e.lines

/-- A file that has a line with a line end in it gains half a line and another one. -/
theorem file_gains_line :
    let s := ofTree { entries := [.file "f" [.text "a\nb", .text "c"] 0] } {}
    let o := s.pressAll .standard
      (KeyEvent.typing ("vi " ++ "f" ++ "\n" ++ "d\t\ne" ++ "\x1b:wq\n"))
    o.1.editor = none ∧ o.1.history = ["vi f"] ∧ o.1.buffer = "" ∧
      (o.1.tree.lines? [0]).map (Line.joined "\n") = some (.ok "a\nb\ncd\ne") := by
  intro s o
  obtain ⟨prompt, hprompt⟩ : ∃ prompt, s.prompt = .ok prompt := ⟨_, rfl⟩
  have hplace : s.tree.resolvePath s.cwd "f" (some .text) = some [0] := by decide +kernel
  have hcontent : (s.tree.lines? [0]).map (Line.joined "\n") = some (.ok "a\nb\nc") := rfl
  obtain ⟨-, heditor, hlines, -, -, hhistory, hbuffer⟩ :=
    edit_and_save (Registry.find?_standard .vi) rfl rfl rfl hprompt (by decide) (by decide)
      (by decide) (by decide) hplace hcontent "d\t\ne" (by decide)
  exact ⟨heditor, hhistory, hbuffer, hlines⟩

end Session

end TreeShell
