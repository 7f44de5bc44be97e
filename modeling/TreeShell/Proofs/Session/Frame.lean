import TreeShell.Proofs.Session.Changes

/-!
# What a line leaves alone

The shell's own commands work on the tree, the current directory and the screen, and `vi` opens the
editor. Redirects write to the tree. The settings, the surface, the history and the line being typed
are not touched by any of them. The editor in turn leaves the current directory and all that has to
do with lines to the shell.
-/

namespace TreeShell

namespace Session

variable {s : Session} {reg : Registry}

def offsite (s : Session) : Session := { s with tree := {}, cwd := [], log := [] }

/-- A session without what commands other than `vi` work on. -/
def aside (s : Session) : Session := { s with tree := {}, cwd := [], screen := [], log := [] }

/-- A session without what commands work on. -/
def frame (s : Session) : Session := { s.aside with editor := none }

theorem aside_of_offsite {s' : Session} (h : s'.offsite = s.offsite) : s'.aside = s.aside :=
  (congrArg aside h :)

theorem editor_of_aside {s' : Session} (h : s'.aside = s.aside) : s'.editor = s.editor :=
  (congrArg Session.editor h :)

theorem offsite_create {s' : Session} {start place : Place} {segments : List String} {kind : Kind}
    (h : s.create start segments kind = .ok (s', place)) : s'.offsite = s.offsite := by
  obtain ⟨t, -, rfl⟩ := create_eq_ok_iff.mp h
  rfl

theorem offsite_make (s : Session) (segments : List String) (kind : Kind) :
    (s.make segments kind).1.offsite = s.offsite := by
  unfold make
  split
  · rename_i hc
    exact offsite_create hc
  · rfl
  · rfl

theorem offsite_showValue (s : Session) (group : Nat) (v : Json) :
    (s.showValue group v).1.offsite = s.offsite := by
  unfold showValue
  split <;> rfl

theorem offsite_listOne (several : Bool) (s : Session) (path : String) :
    (s.listOne several path).1.offsite = s.offsite := by
  unfold listOne
  split <;> rfl

theorem offsite_touchOne (s : Session) (path : String) :
    (s.touchOne path).1.offsite = s.offsite := by
  unfold touchOne
  split
  · exact offsite_make s _ _
  · split <;> rfl

theorem offsite_mkdirOne (s : Session) (path : String) :
    (s.mkdirOne path).1.offsite = s.offsite := by
  unfold mkdirOne
  split
  · rfl
  · exact offsite_make s _ _

theorem offsite_run {b : Builtin} (hvi : b ≠ .vi) (hclear : b ≠ .clear) (listing : List String)
    (s : Session) (cmd : Command) : (b.run listing s cmd).1.offsite = s.offsite := by
  cases b with
  | vi => exact absurd rfl hvi
  | clear => exact absurd rfl hclear
  | echo => rfl
  | help => rfl
  | pwd => exact offsite_showValue s _ _
  | whoami => exact offsite_showValue s _ _
  | cd =>
      simp only [Builtin.run, cd]
      split
      · rfl
      · split <;> rfl
  | ls =>
      simp only [Builtin.run, ls]
      split
      · split <;> rfl
      · exact each_keeps offsite (offsite_listOne _) s _
  | cat => exact each_keeps offsite (fun _ _ ↦ rfl) s _
  | touch => exact each_keeps offsite offsite_touchOne s _
  | mkdir => exact each_keeps offsite offsite_mkdirOne s _

theorem aside_run {b : Builtin} (hvi : b ≠ .vi) (listing : List String) (s : Session)
    (cmd : Command) : (b.run listing s cmd).1.aside = s.aside := by
  by_cases hclear : b = .clear
  · subst hclear
    rfl
  · exact aside_of_offsite (offsite_run hvi hclear listing s cmd)

theorem frame_run (b : Builtin) (listing : List String) (s : Session) (cmd : Command) :
    (b.run listing s cmd).1.frame = s.frame := by
  by_cases hvi : b = .vi
  · subst hvi
    simp only [Builtin.run, vi]
    split <;> rfl
  · rw [frame, frame, aside_run hvi]

end Session

namespace Registry

/-- Every command leaves as it is what `f` tells of a session. -/
def Keeps {α : Type} (reg : Registry) (f : Session → α) : Prop :=
  ∀ spec ∈ reg.specs, ∀ listing s cmd, f (spec.action.run listing s cmd).1 = f s

theorem OfBuiltins.keeps {α : Type} {reg : Registry} (hreg : reg.OfBuiltins) {f : Session → α}
    (hf : ∀ {s s' : Session}, s'.frame = s.frame → f s' = f s) : reg.Keeps f := by
  intro spec hspec listing s cmd
  obtain ⟨b, hb⟩ := hreg spec hspec
  rw [hb]
  exact hf (Session.frame_run b listing s cmd)

end Registry

namespace Session

variable {s : Session} {reg : Registry}

theorem offsite_settle (cmd : Command) (o : Outcome) :
    (settle cmd o).1.offsite = o.1.offsite := by
  unfold settle
  split <;> rfl

theorem offsite_redirectTarget (s : Session) (target : String) :
    (s.redirectTarget target).1.offsite = s.offsite := by
  unfold redirectTarget
  split
  · rfl
  · split
    · rfl
    · split
      · rename_i hc
        exact offsite_create hc
      · rfl
      · rfl

theorem offsite_redirect (s : Session) (r : Redirect) (inner : Result Place) :
    (s.redirect r inner).1.offsite = s.offsite := by
  have htarget := offsite_redirectTarget s r.target
  unfold redirect
  split
  · rename_i hs
    rw [hs] at htarget
    rw [← htarget]
    cases r.mode <;> rfl
  · rename_i hs
    rwa [hs] at htarget
  · rename_i hs
    rwa [hs] at htarget

/-- What all commands keep and what does not depend on what lines write is kept by lines. -/
theorem keeps_execute {α : Type} {f : Session → α} (hreg : reg.Keeps f)
    (hf : ∀ {s s' : Session}, s'.offsite = s.offsite → f s' = f s) (line : String) (s : Session) :
    f (s.execute reg line).1 = f s := by
  refine execute_preserves (I := fun o ↦ f o.1 = f s) ?_ ?_ ?_ line
  · intro line error
    exact hf rfl
  · intro cmd
    unfold dispatch
    split
    · rfl
    · split
      · exact hf rfl
      · rename_i spec hspec
        have hrun := hreg spec (List.mem_of_find?_eq_some hspec) reg.listing
          (s.note (dispatchRecord cmd)) cmd
        exact ((hf (offsite_settle _ _)).trans hrun).trans (hf rfl)
  · intro s' r inner hinner
    exact (hf (offsite_redirect s' r inner)).trans hinner

theorem aside_shown (o : Outcome) : (shown o).1.aside = o.1.aside := by
  obtain ⟨lines, h⟩ := exists_shown o
  rw [h]
  rfl

theorem keeps_submit {α : Type} {f : Session → α} (hreg : reg.Keeps f)
    (hf : ∀ {s s' : Session}, s'.aside = s.aside → f s' = f s) (s : Session)
    (prompt line : String) :
    f (s.submit reg prompt line).1 = f { s with history := s.history ++ [line] } := by
  rw [submit_eq_shown, hf (aside_shown _), keeps_execute hreg fun h ↦ hf (aside_of_offsite h)]
  exact hf rfl

theorem frame_of_aside {s' : Session} (h : s'.aside = s.aside) : s'.frame = s.frame := by
  rw [frame, frame, h]

theorem frame_execute (hreg : reg.OfBuiltins) (line : String) (s : Session) :
    (s.execute reg line).1.frame = s.frame :=
  keeps_execute (hreg.keeps fun h ↦ h) (fun h ↦ frame_of_aside (aside_of_offsite h)) line s

/-! ## Opening the editor -/

def fileAt (s : Session) (path : String) : Option Place :=
  (s.tree.resolvePath s.cwd path (some .text)).filter fun place ↦ !s.tree.isDirectory place

def editorAt (s : Session) (path : String) : Editor :=
  .ofLines (Path.split path) s.cwd (s.fileAt path) (((s.fileAt path).bind s.tree.lines?).getD [])

theorem editor_run (b : Builtin) (listing : List String) (s : Session) (cmd : Command) :
    (b.run listing s cmd).1.editor = s.editor ∨
      ∃ path, (b.run listing s cmd).1.editor = some (s.editorAt path) := by
  by_cases hvi : b = .vi
  · subst hvi
    simp only [Builtin.run, vi]
    split
    · exact .inl rfl
    · rename_i path _ _
      exact .inr ⟨path, rfl⟩
  · exact .inl (editor_of_aside (aside_run hvi listing s cmd))

theorem editor_execute (hreg : reg.OfBuiltins) (line : String) (s : Session) :
    (s.execute reg line).1.editor = s.editor ∨
      ∃ path, (s.execute reg line).1.editor = some (s.editorAt path) := by
  refine execute_preserves
    (I := fun o ↦ o.1.editor = s.editor ∨ ∃ path, o.1.editor = some (s.editorAt path))
    ?_ ?_ ?_ line
  · intro line error
    exact .inl rfl
  · intro cmd
    unfold dispatch
    split
    · exact .inl rfl
    · split
      · exact .inl rfl
      · rename_i spec hspec
        obtain ⟨b, hb⟩ := hreg spec (List.mem_of_find?_eq_some hspec)
        have hsettle (o : Outcome) : (settle cmd o).1.editor = o.1.editor :=
          editor_of_aside (aside_of_offsite (offsite_settle cmd o))
        simp only [hb, done, hsettle]
        exact editor_run b reg.listing (s.note _) cmd
  · intro s' r inner hinner
    have hkept : (s'.redirect r inner).1.editor = s'.editor :=
      editor_of_aside (aside_of_offsite (offsite_redirect s' r inner))
    rwa [hkept]

/-! ## Keys for the editor -/

/-- A session without what saving works on. -/
def apart (s : Session) : Session := { s with tree := {}, editor := none, log := [] }

theorem apart_save (s : Session) (e : Editor) : (s.save e).1.apart = s.apart := by
  unfold save
  split
  · rfl
  · rfl
  · rename_i s' place hfile
    unfold fileFor at hfile
    split at hfile
    · cases hfile
      rfl
    · obtain ⟨t, -, rfl⟩ := create_eq_ok_iff.mp hfile
      rfl

theorem exists_editor_save (s : Session) (e : Editor) :
    ∃ e', (s.save e).1.editor = some e' ∧ e'.lines = e.lines := by
  unfold save
  split
  · exact ⟨_, rfl, rfl⟩
  · exact ⟨_, rfl, rfl⟩
  · exact ⟨_, rfl, rfl⟩

/-- A command leaves the editor open with its text, or it closes the editor in the end. -/
theorem runEx_cases (s : Session) (e : Editor) (command : String) :
    (∃ e', (s.runEx e command).1.editor = some e' ∧ e'.lines = e.lines ∧
      (s.runEx e command).1.apart = s.apart) ∨
      ∃ s' : Session, s.runEx e command = s'.closeEditor ∧ s'.apart = s.apart := by
  have hapart := apart_save s e
  obtain ⟨e', heditor, hlines⟩ := exists_editor_save s e
  unfold runEx
  split
  · refine .inl ⟨e', ?_⟩
    split <;> (rename_i hs; rw [hs] at hapart heditor; exact ⟨heditor, hlines, hapart⟩)
  · split
    · rename_i s' hs
      rw [hs] at hapart
      exact .inr ⟨s', rfl, hapart⟩
    · rename_i hs
      rw [hs] at hapart heditor
      exact .inl ⟨e', heditor, hlines, hapart⟩
    · rename_i hs
      rw [hs] at hapart heditor
      exact .inl ⟨e', heditor, hlines, hapart⟩
  · split
    · exact .inl ⟨_, rfl, rfl, rfl⟩
    · exact .inr ⟨s, rfl, rfl⟩
  · exact .inr ⟨s, rfl, rfl⟩
  · exact .inl ⟨_, rfl, rfl, rfl⟩

/-- A session without what the editor works on. A list that it changes may be the user, a line on
the screen or the label of the tree. -/
def beside (s : Session) : Session :=
  { s.apart with settings := {}, freeGroup := 0, screen := [] }

theorem beside_of_apart {s' : Session} (h : s'.apart = s.apart) : s'.beside = s.beside := by
  rw [beside, beside, h]

theorem beside_share (s : Session) (changed : Line) : (s.share changed).beside = s.beside := by
  cases changed <;> rfl

theorem beside_closeEditor (s : Session) : s.closeEditor.1.beside = s.beside := by
  unfold closeEditor
  dsimp only
  split <;> rfl

theorem beside_runEx (s : Session) (e : Editor) (command : String) :
    (s.runEx e command).1.beside = s.beside := by
  rcases runEx_cases s e command with ⟨-, -, -, hapart⟩ | ⟨s', hclosed, hapart⟩
  · exact beside_of_apart hapart
  · rw [hclosed]
    exact (beside_closeEditor s').trans (beside_of_apart hapart)

theorem beside_editorKey (s : Session) (e : Editor) (k : KeyEvent) :
    (s.editorKey e k).1.beside = s.beside := by
  unfold editorKey
  split
  · exact beside_share _ _
  · exact beside_runEx s _ _
  · rfl

end Session

end TreeShell
