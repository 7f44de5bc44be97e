import TreeShell.Proofs.Session.Coherence
import TreeShell.Proofs.Session.Modified

/-!
# Saving what was not edited

An editor that is opened on a file has the lines of the file, and as long as no key changes the text
it has them still. A save then writes what is there already, with one exception: a file without
lines is opened as one empty line, and so it is saved as one.

A key that leaves the text alone changes no list either, so the lines of the file stay as they are
until then. This takes it that lines with one mark have one content, as they do in every session
that is run.
-/

namespace TreeShell

/-- A list that loses an item is another line, whatever its mark. -/
theorem Line.list_dropLast_ne {mark old : Mark} {items : List Json}
    (hon : (Line.list old items).isOn = true) :
    Line.list mark items.dropLast ≠ .list old items := by
  intro hsame
  have hitems : items ≠ [] := by
    rintro rfl
    simp [isOn, value, Json.isOn] at hon
  have hlength := congrArg List.length (Line.list.inj hsame).2
  have hpos := List.length_pos_of_ne_nil hitems
  rw [List.length_dropLast] at hlength
  omega

namespace Editor

variable {t : Tree} {fresh : Mark} {e e' : Editor} {k : KeyEvent} {place : Place}
  {lines : List Line}

/-- A key comes through and leaves another text. One that fails alters nothing. -/
def Alters (e : Editor) (k : KeyEvent) : Prop :=
  ∃ fresh e' submitted, e.press fresh k = .ok (e', submitted) ∧ e'.lines ≠ e.lines

theorem exists_erase_ne {mark : Mark} (h : e.erase mark = .ok e') (hlines : e'.lines ≠ e.lines)
    (fresh : Mark) : ∃ e', e.erase fresh = .ok e' ∧ e'.lines ≠ e.lines := by
  unfold erase at h ⊢
  split_ifs at h ⊢ with hon
  · cases hline : e.line with
    | text t =>
        rw [hline] at h
        exact ⟨e', h, hlines⟩
    | list old items =>
        refine ⟨e.withLine (.list fresh items.dropLast), rfl, fun hsame ↦ ?_⟩
        have hlast : Line.list fresh items.dropLast = .list old items := by
          simpa [lines, withLine, hline] using hsame
        exact Line.list_dropLast_ne (hline ▸ hon) hlast
    | other v =>
        rw [hline] at h
        cases v <;> cases h
  · exact ⟨e', h, hlines⟩

/-- Whether a key changes the text does not depend on the mark of a list that it makes. -/
theorem Alters.press (h : e.Alters k) (fresh : Mark) :
    ∃ e' submitted, e.press fresh k = .ok (e', submitted) ∧ e'.lines ≠ e.lines := by
  obtain ⟨mark, e', submitted, hpress, hlines⟩ := h
  unfold Editor.press at hpress ⊢
  cases hmode : e.mode with
  | command => exact ⟨e', submitted, by simpa [hmode] using hpress, hlines⟩
  | insert =>
      rw [hmode] at hpress
      unfold insertKey at hpress ⊢
      cases hkey : k.key with
      | backspace =>
          rw [hkey] at hpress
          cases herase : e.erase mark with
          | error m => simp [herase, Except.map] at hpress
          | ok made =>
              simp only [herase, Except.map] at hpress
              cases hpress
              obtain ⟨e'', herase', hlines'⟩ := exists_erase_ne herase hlines fresh
              exact ⟨e'', none, by simp [herase', Except.map], hlines'⟩
      | _ =>
          -- No other key makes a list.
          rw [hkey] at hpress
          exact ⟨e', submitted, hpress, hlines⟩

theorem lines_of_not_alters {submitted : Option String} (hk : ¬ e.Alters k)
    (h : e.press fresh k = .ok (e', submitted)) : e'.lines = e.lines :=
  by_contra fun hlines ↦ hk ⟨fresh, e', submitted, h, hlines⟩

instance (e : Editor) (k : KeyEvent) : Decidable (e.Alters k) :=
  decidable_of_iff (∃ r ∈ (e.press ⟨0, 0⟩ k).toOption, r.1.lines ≠ e.lines) <| by
    constructor
    · rintro ⟨⟨e', submitted⟩, hpress, hlines⟩
      cases h : e.press ⟨0, 0⟩ k with
      | error m => simp [h, Except.toOption] at hpress
      | ok r =>
          rw [h] at hpress
          cases hpress
          exact ⟨⟨0, 0⟩, e', submitted, h, hlines⟩
    · intro h
      obtain ⟨e', submitted, hpress, hlines⟩ := h.press ⟨0, 0⟩
      exact ⟨(e', submitted), by rw [hpress]; rfl, hlines⟩

/-- The text is the one of the lines that its file had, and the file has these lines or the text. -/
structure Mirrors (place : Place) (lines : List Line) (t : Tree) (e : Editor) : Prop where
  file : e.file = some place
  text : e.lines = textOf lines
  stored : t.lines? place = some lines ∨ t.lines? place = some (textOf lines)

theorem Mirrors.congr {t' : Tree} (h : e.Mirrors place lines t) (hfile : e'.file = e.file)
    (hlines : e'.lines = e.lines) (hstored : t'.lines? place = t.lines? place) :
    e'.Mirrors place lines t' where
  file := hfile.trans h.file
  text := hlines.trans h.text
  stored := hstored ▸ h.stored

theorem Mirrors.destination (h : e.Mirrors place lines t) :
    t.destination e.home e.segments e.file = .ok (t, place) := by
  rw [h.file]
  rfl

theorem Mirrors.lines?_write (h : e.Mirrors place lines t) :
    (t.write place e.lines).lines? place = some (textOf lines) := by
  have hfile : t.Has .text place := Tree.has_text_iff.mpr (h.stored.elim (⟨_, ·⟩) (⟨_, ·⟩))
  rw [(Tree.written_write hfile e.lines).lines, h.text]

end Editor

namespace Session

variable {s : Session} {reg : Registry} {e e' : Editor} {k : KeyEvent} {place : Place}
  {lines : List Line} {command : String}

/-- A step is one for the editor `e` that leaves its text alone, or it moves the session. -/
def Step.Spares (e : Editor) : Step → Prop
  | .ex _ | .changeDirectory _ => True
  | .key k => ¬ e.Alters k
  | _ => False

instance decidableSpares (e : Editor) : (x : Step) → Decidable (x.Spares e)
  | .ex _ | .changeDirectory _ => .isTrue trivial
  | .key k => inferInstanceAs (Decidable (¬ e.Alters k))
  | .execute _ | .feed _ | .complete => .isFalse not_false

theorem Step.Spares.edits {x : Step} (h : x.Spares e) : x.Edits := by
  cases x <;> trivial

/-- A line that reads as it did is shared without any effect on files and texts. -/
theorem Coherent.share (h : s.Coherent) (he : s.editor = some e) :
    (∀ place, (s.share e.line).tree.lines? place = s.tree.lines? place) ∧
      ∃ e', (s.share e.line).editor = some e' ∧ e'.file = e.file ∧ e'.lines = e.lines := by
  obtain ⟨contents, hholds⟩ := h
  have hlines := hholds.editor e he
  have hline : e.line.Agrees contents s.freeGroup := hlines e.line (by simp [Editor.lines])
  have hsame {lines : List Line} (hl : ∀ l ∈ lines, l.Agrees contents s.freeGroup) :
      lines.map e.line.after = lines :=
    (List.map_congr_left fun l hmem ↦ (hl l hmem).after_eq hline).trans lines.map_id
  rcases share_cases s e.line with hkept | ⟨htree, heditor⟩
  · rw [hkept]
    exact ⟨fun _ ↦ rfl, e, he, rfl, rfl⟩
  · rw [htree, heditor, he]
    refine ⟨fun place ↦ ?_, _, rfl, rfl, ?_⟩
    · rw [Tree.lines?_after]
      cases hold : s.tree.lines? place with
      | none => rfl
      | some lines => rw [Option.map_some, hsame (hholds.files.of_lines? hold)]
    · rw [Editor.lines_after, hsame hlines]

theorem mirrors_runEx (h : e.Mirrors place lines s.tree)
    (he' : (s.runEx e command).1.editor = some e') :
    e'.Mirrors place lines (s.runEx e command).1.tree := by
  rcases runEx_open he' with ⟨status, rfl, htree⟩ | ⟨t, q, hd, rfl, htree⟩ <;> rw [htree]
  · exact h.congr rfl rfl rfl
  · cases h.destination.symm.trans hd
    exact ⟨rfl, h.text, .inr h.lines?_write⟩

theorem mirrors_editorKey (hk : ¬ e.Alters k) (hs : s.Coherent) (he : s.editor = some e)
    (h : e.Mirrors place lines s.tree) (he' : (s.editorKey e k).1.editor = some e') :
    e'.Mirrors place lines (s.editorKey e k).1.tree := by
  unfold editorKey at he' ⊢
  split at he'
  · rename_i e₁ hpress
    have hlines := Editor.lines_of_not_alters hk hpress
    have hfile : e₁.file = e.file := (Prod.mk.inj (Editor.work_press hpress)).2
    have hs₁ : Coherent { s with editor := some e₁ } := by
      refine hs.congr rfl rfl rfl rfl ?_
      rintro _ ⟨rfl⟩
      exact ⟨e, he, hlines⟩
    obtain ⟨htree, e₂, he₂, hfile₂, hlines₂⟩ := hs₁.share rfl
    cases he₂.symm.trans he'
    exact h.congr (hfile₂.trans hfile) (hlines₂.trans hlines) (htree place)
  · rename_i e₁ text hpress
    have hlines := Editor.lines_of_not_alters hk hpress
    have hfile : e₁.file = e.file := (Prod.mk.inj (Editor.work_press hpress)).2
    exact mirrors_runEx (h.congr hfile hlines rfl) he'
  · cases he.symm.trans he'
    exact h

theorem mirrors_step {x : Step} (hx : x.Spares e) (he : s.editor = some e)
    (h : s.Coherent ∧ e.Mirrors place lines s.tree) (he' : (s.step reg x).editor = some e') :
    (s.step reg x).Coherent ∧ e'.Mirrors place lines (s.step reg x).tree := by
  obtain ⟨hs, hmirrors⟩ := h
  rcases hx.edits.step_eq reg he with ⟨text, hstep⟩ | ⟨k, rfl, hstep⟩ | ⟨place, hstep⟩ <;>
    rw [hstep] at he' ⊢
  · exact ⟨coherent_runEx he rfl text hs, mirrors_runEx hmirrors he'⟩
  · exact ⟨coherent_editorKey he k hs, mirrors_editorKey hx hs he hmirrors he'⟩
  · cases he.symm.trans he'
    exact ⟨coherent_changeDirectory place hs, hmirrors⟩

/-- In a coherent session, as all are that are run, a text file is opened, and keys and commands are
given to the editor that leave the text alone. A command that saves leaves the file with the lines
that it had at the start. If it had none, it has one empty line. -/
theorem saving_unaltered_text (reg : Registry) (s : Session) (hs : s.Coherent) (p : String)
    (more : List String) (place : Place) (lines : List Line)
    (hplace : s.tree.resolvePath s.cwd p (some .text) = some place)
    (hlines : s.tree.lines? place = some lines) (steps : List Step)
    (hopen : (s.vi (p :: more)).1.KeepsOpen reg Step.Spares steps) :
    let s' := (s.vi (p :: more)).1.run reg steps
    ∃ e, s'.editor = some e ∧
      ∀ x command, x.Gives e command → command.saves = true →
        (s'.step reg x).tree.lines? place = some (if lines = [] then [.text ""] else lines) := by
  intro s'
  have hfile : s.fileAt p = some place := by
    simp [fileAt, hplace, Tree.not_isDirectory_of_lines? hlines]
  have hstart : (s.vi (p :: more)).1.editor = some (s.editorAt p) := rfl
  have hmirrors : (s.editorAt p).Mirrors place lines s.tree := by
    refine ⟨hfile, ?_, .inl hlines⟩
    rw [editorAt, hfile, Option.bind_some, hlines]
    exact Editor.lines_ofLines_eq ..
  obtain ⟨e, he, -, hkept⟩ := hopen.run
    (I := fun s e ↦ s.Coherent ∧ e.Mirrors place lines s.tree) mirrors_step hstart
    ⟨coherent_vi p more hs, hmirrors⟩
  refine ⟨e, he, ?_⟩
  intro x command hx hsaves
  obtain ⟨typed, text, hcommand, hstep⟩ := exists_runEx_of_gives reg he hx
  rw [← hcommand] at hsaves
  have hmirrors : ({ e with command := typed } : Editor).Mirrors place lines s'.tree :=
    hkept.congr rfl rfl rfl
  rw [hstep, (runEx_of_destination hsaves hmirrors.destination).1]
  exact hmirrors.lines?_write

/-- A file with a list and an empty line is saved twice, the second time to close the editor. -/
theorem list_and_empty_line_stay :
    let s := (ofConfig { shell := { user := .list [.list [.text "a"]] }
                         filesystem := { seed := [] } }).1.run .standard
      [.execute "whoami > f", .execute "echo >> f"]
    let lines := [Line.list ⟨1, 0⟩ [.text "a"], .text ""]
    let steps := (KeyEvent.typing "\x1b:w\ni\x1b:wq").map .key
    let s' := (s.vi ["f"]).1.run .standard steps
    s.Coherent ∧ s.tree.lines? [0] = some lines ∧
      (s.vi ["f"]).1.KeepsOpen .standard Step.Spares steps ∧
      (s'.step .standard (.key (.ofKey .enter))).tree.lines? [0] = some lines := by
  intro s lines steps s'
  have hs : s.Coherent := coherent_run Registry.standard_ofBuiltins _ (coherent_ofConfig _)
  have hlines : s.tree.lines? [0] = some lines := by decide +kernel
  have hopen : (s.vi ["f"]).1.KeepsOpen .standard Step.Spares steps := by decide +kernel
  obtain ⟨e, he, hsave⟩ := saving_unaltered_text .standard s hs "f" [] [0] lines
    (by decide +kernel) hlines steps hopen
  have hstate : s'.editor.map (fun e ↦ (e.mode, e.command)) = some (.command, ":wq") := by
    decide +kernel
  rw [he] at hstate
  simp only [Option.map_some, Option.some.injEq, Prod.mk.injEq] at hstate
  obtain ⟨hmode, hcommand⟩ := hstate
  have hsaved := hsave (.key (.ofKey .enter)) .writeQuit ⟨rfl, hmode, by rw [hcommand]; decide⟩ rfl
  exact ⟨hs, hlines, hopen, hsaved⟩

/-- A file without lines is opened and saved. -/
theorem empty_file_gains_line :
    let s := (ofConfig { filesystem := { seed := [("f", .list [])] } }).1
    s.tree.lines? [0] = some [] ∧
      ((s.vi ["f"]).1.step .standard (.ex ":w")).tree.lines? [0] = some [.text ""] := by
  decide +kernel

end Session

end TreeShell
