import TreeShell.Proofs.Session.Frame
import TreeShell.Proofs.Session.Output
import TreeShell.Proofs.Tree.Seed

/-!
# Sessions without lists for lines

Only a setting whose items are lists themselves gives lines that are lists. A session that has no
such setting, and no such line yet, never gets one: commands put out lines of files and settings
and new texts, and the editor makes no list of a text.
-/

namespace TreeShell

namespace Editor

variable {e : Editor}

def Flat (e : Editor) : Prop := ∀ l ∈ e.lines, l.Flat

theorem flat_iff : e.Flat ↔ (∀ l ∈ e.earlier, l.Flat) ∧ e.line.Flat := by
  simp [Flat, lines, or_imp, forall_and]

end Editor

namespace Editor

variable {M : Mark → Prop} {fresh : Mark} {e e' : Editor} {k : KeyEvent}

def Within (M : Mark → Prop) (e : Editor) : Prop := ∀ l ∈ e.lines, l.Within M

theorem within_iff : e.Within M ↔ (∀ l ∈ e.earlier, l.Within M) ∧ e.line.Within M := by
  simp [Within, lines, or_imp, forall_and]

theorem flat_iff_within : e.Flat ↔ e.Within fun _ ↦ False := Iff.rfl

theorem Within.after (h : e.Within M) (changed : Line) : (e.after changed).Within M := by
  obtain ⟨hearlier, hline⟩ := within_iff.mp h
  refine within_iff.mpr ⟨?_, hline.after changed⟩
  intro l hl
  obtain ⟨old, hold, rfl⟩ := List.mem_map.mp hl
  exact (hearlier old hold).after changed

/-- A key brings no list into the text but a new one in the place of a list. -/
theorem within_press {command : Option String} (h : e.Within M)
    (hfresh : ∀ mark, M mark → M fresh) (he : e.press fresh k = .ok (e', command)) :
    e'.Within M := by
  obtain ⟨hearlier, hlast⟩ := within_iff.mp h
  cases takes_press he with
  | aside mode command => exact h
  | begin => exact within_iff.mpr ⟨h, nofun⟩
  | erase _ _ hline => exact within_iff.mpr ⟨hearlier, hlast.dropLast hfresh hline⟩
  | join _ _ hline =>
      refine within_iff.mpr ⟨fun l hl ↦ hearlier l (List.dropLast_subset _ hl), ?_⟩
      exact hearlier _ (List.mem_of_getLast? hline)
  | push _ _ _ hline => exact within_iff.mpr ⟨hearlier, hlast.push hline⟩

theorem flat_press {command : Option String} (h : e.Flat)
    (he : e.press fresh k = .ok (e', command)) : e'.Flat :=
  flat_iff_within.mpr (within_press (flat_iff_within.mp h) (fun _ hm ↦ hm) he)

end Editor

theorem Json.flat_iff_linesIn {group : Nat} {v : Json} : v.Flat ↔ v.LinesIn Line.Flat group := by
  constructor
  · intro h out hout
    exact h.linesOf hout
  · rintro h items rfl item hitem vs rfl
    obtain ⟨i, hi, hget⟩ := List.mem_iff_getElem.mp hitem
    have hline : Line.list ⟨group, i⟩ vs ∈ items.mapIdx fun i v ↦ Line.ofJson ⟨group, i⟩ v :=
      List.mem_mapIdx.mpr ⟨i, hi, by rw [hget]; rfl⟩
    exact h _ rfl _ hline _ _ rfl

/-- No line that a session holds is a list, and none of its settings gives one. -/
structure Session.Flat (s : Session) : Prop where
  files : s.tree.LinesAre Line.Flat
  label : s.tree.label.Flat
  user : s.settings.user.Flat
  editor : ∀ e, s.editor = some e → e.Flat

namespace Session

theorem flat_ofConfig {config : Config} (hu : config.shell.user.Flat)
    (hl : config.filesystem.rootLabel.Flat) : (ofConfig config).1.Flat where
  files := Tree.linesAre_flat_ofSeed _ _
  label := by
    change (Tree.ofSeed _ _).1.label.Flat
    rwa [Tree.ofSeed_eq]
  user := hu
  editor := nofun

variable {s s' : Session} {reg : Registry}

theorem flat_iff_holds : s.Flat ↔ s.Holds Line.Flat := by
  constructor
  · rintro ⟨files, label, user, editor⟩
    exact ⟨⟨Line.flat_text, files, Json.flat_iff_linesIn.mp label, Json.flat_iff_linesIn.mp user⟩,
      editor⟩
  · rintro ⟨⟨-, files, label, user⟩, editor⟩
    exact ⟨files, Json.flat_iff_linesIn.mpr label, Json.flat_iff_linesIn.mpr user, editor⟩

theorem flat_execute (hreg : reg.OfBuiltins) (line : String) (h : s.Flat) :
    (s.execute reg line).1.Flat :=
  flat_iff_holds.mpr (holds_execute hreg line (flat_iff_holds.mp h))

theorem flat_runEx {e : Editor} (h : s.Flat) (he : e.Flat) (command : String) :
    (s.runEx e command).1.Flat :=
  flat_iff_holds.mpr (holds_runEx (flat_iff_holds.mp h).toSourcesAre he command)

/-! ## Keys -/

theorem share_eq_self {changed : Line} (h : changed.Flat) : s.share changed = s := by
  cases changed with
  | text t => rfl
  | list mark items => exact absurd rfl (h mark items)
  | other v => rfl

theorem flat_editorKey {e : Editor} (h : s.Flat) (he : e.Flat) (k : KeyEvent) :
    (s.editorKey e k).1.Flat := by
  unfold editorKey
  split
  · rename_i e' hpress
    have he' := Editor.flat_press he hpress
    rw [share_eq_self (Editor.flat_iff.mp he').2]
    exact ⟨h.files, h.label, h.user, fun _ hst ↦ Option.some.inj hst ▸ he'⟩
  · rename_i e' command hpress
    exact flat_runEx h (Editor.flat_press he hpress) command
  · exact h

theorem flat_of_core (hcore : s'.core = s.core) (h : s.Flat) : s'.Flat :=
  flat_iff_holds.mpr (holds_of_core hcore (flat_iff_holds.mp h))

theorem flat_press (hreg : reg.OfBuiltins) (h : s.Flat) (k : KeyEvent) :
    (s.press reg k).1.Flat := by
  unfold press
  split
  · rename_i e he
    exact flat_editorKey h (h.editor e he) k
  · exact shellKey_preserves flat_of_core (flat_execute hreg) k h

theorem flat_step (hreg : reg.OfBuiltins) (h : s.Flat) (x : Step) : (s.step reg x).Flat := by
  refine step_preserves flat_of_core (flat_execute hreg) (fun k hs ↦ flat_press hreg hs k) ?_ x ?_ h
  · intro s e he command hs
    exact flat_runEx hs (hs.editor e he) command
  · intro place _
    exact ⟨h.files, h.label, h.user, h.editor⟩

theorem flat_run (hreg : reg.OfBuiltins) (h : s.Flat) (steps : List Step) :
    (s.run reg steps).Flat :=
  run_preserves reg (I := Flat) (fun _ x _ hs ↦ flat_step hreg hs x) h

end Session

end TreeShell
