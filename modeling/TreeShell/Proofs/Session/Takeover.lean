import TreeShell.Proofs.Session.References

/-!
# While the editor is open

An open editor takes all keys. Until it closes it leaves to the shell what belongs to the shell, and
the key that closes it adds nothing but the prompt to the screen. A line that was shown can change
only if it is a list: the editor may hold that same list.
-/

namespace TreeShell

open TreeShell.Tree (Changes)

inductive Drawing.Persists : Drawing → Drawing → Prop
  | line {l l' : Line} (h : l.Persists (fun _ ↦ True) l') : Persists (.line l) (.line l')
  | same (d : Drawing) : Persists d d

namespace Drawing

theorem Persists.trans {d d' d'' : Drawing} (h : d.Persists d') (h' : d'.Persists d'') :
    d.Persists d'' := by
  cases h with
  | same => exact h'
  | line hl =>
      cases h' with
      | same => exact .line hl
      | line hl' => exact .line (hl.trans hl')

theorem persists_after (changed : Line) (d : Drawing) : d.Persists (d.after changed) := by
  cases d with
  | line l => exact .line (Line.persists_after (fun _ _ _ ↦ trivial) l)
  | _ => exact .same _

theorem after_eq {changed : Line} {d : Drawing} (h : ∀ l, d = .line l → changed.after l = l) :
    d.after changed = d := by
  cases d with
  | line l => exact congrArg line (h l rfl)
  | _ => rfl

theorem forall₂_persists_trans {ds ds' ds'' : List Drawing} (h : List.Forall₂ Persists ds ds')
    (h' : List.Forall₂ Persists ds' ds'') : List.Forall₂ Persists ds ds'' := by
  induction h generalizing ds'' with
  | nil => exact h'
  | cons hd _ ih =>
      cases h' with
      | cons hd' hrest => exact .cons (hd.trans hd') (ih hrest)

end Drawing

/-! ## Paths in growing trees -/

theorem Node.Grows.names {M : Mark → Prop} {n n' m : Node} {place : Place} (h : n.Grows M n')
    (hm : n.at? place = some m) : n'.names place = n.names place := by
  induction place generalizing n n' with
  | nil => rfl
  | cons i place ih =>
      rw [at?_cons] at hm
      obtain ⟨c, hc, hm⟩ := Option.bind_eq_some_iff.mp hm
      obtain ⟨c', hc', hp⟩ := h [i] c (by simp [at?_cons, hc])
      have hchild : n'.children[i]? = some c' := by
        rw [at?_cons] at hc'
        simpa using hc'
      have hgrows : c.Grows M c' := by
        intro p m hm
        simpa [at?_cons, hchild] using h (i :: p) m (by simp [at?_cons, hc, hm])
      have hname : c'.name = c.name := congrArg Prod.fst hp.signature_eq
      simp [Node.names, hc, hchild, hname, ih hgrows hm]

namespace Tree

variable {P : Tree → Place → List String → Kind → Prop} {t t' : Tree} {place : Place}

theorem Changes.path (h : Changes P (fun _ ↦ False) t t') (hat : (t.at? place).isSome = true) :
    t'.path place = t.path place := by
  obtain ⟨m, hm⟩ := Option.isSome_iff_exists.mp hat
  have hnames : t'.root.names place = t.root.names place := h.grows.names hm
  rw [Tree.path, Tree.path, hnames, h.label]

theorem Changes.isSome_at? {M : Mark → Prop} (h : Changes P M t t')
    (hat : (t.at? place).isSome = true) : (t'.at? place).isSome = true := by
  obtain ⟨m, hm⟩ := Option.isSome_iff_exists.mp hat
  obtain ⟨m', hm', -⟩ := h.grows place m hm
  exact Option.isSome_iff_exists.mpr ⟨m', hm'⟩

end Tree

namespace Session

variable {s : Session} {reg : Registry} {e : Editor} {k : KeyEvent}

/-! ## Keys -/

theorem screen_share (s : Session) (changed : Line) :
    (s.share changed).screen = s.screen.map (Drawing.after changed) := by
  have hid (h : ∀ l, changed.after l = l) : Drawing.after changed = id :=
    funext fun _ ↦ Drawing.after_eq fun l _ ↦ h l
  cases changed with
  | list mark items => rfl
  | text t =>
      rw [hid fun _ ↦ rfl, List.map_id]
      rfl
  | other v =>
      rw [hid fun _ ↦ rfl, List.map_id]
      rfl

theorem editorKey_cases (he : s.editor = some e) (k : KeyEvent) :
    (∃ e', (s.editorKey e k).1.editor = some e' ∧
      List.Forall₂ Drawing.Persists s.screen (s.editorKey e k).1.screen ∧
      (e.Flat → e'.Flat ∧ (s.editorKey e k).1.apart = s.apart)) ∨
      ∃ s' : Session, s.editorKey e k = s'.closeEditor ∧ s'.apart = s.apart := by
  have hsame {s' : Session} (h : s'.apart = s.apart) :
      List.Forall₂ Drawing.Persists s.screen s'.screen := by
    have hscreen := congrArg Session.screen h
    change s'.screen = s.screen at hscreen
    rw [hscreen, List.forall₂_same]
    exact fun d _ ↦ .same d
  unfold editorKey
  split
  · rename_i e' hpress
    have hflat (hf : e.Flat) : e'.Flat := Editor.flat_press hf hpress
    -- Only a list can be shared: without one nothing but the editor changes.
    have hshare (hf : e.Flat) : ({ s with editor := some e' } : Session).share e'.line =
        { s with editor := some e' } := share_eq_self (Editor.flat_iff.mp (hflat hf)).2
    have hscreen := screen_share { s with editor := some e' } e'.line
    have hopen : ∃ e'', (({ s with editor := some e' } : Session).share e'.line).editor =
        some e'' := by
      rcases editor_share { s with editor := some e' } e'.line with h | h <;> exact ⟨_, h⟩
    generalize ({ s with editor := some e' } : Session).share e'.line = s' at hshare hscreen hopen
    obtain ⟨e'', heditor⟩ := hopen
    refine .inl ⟨e'', heditor, ?_, fun hf ↦ ?_⟩
    · rw [hscreen, List.forall₂_map_right_iff, List.forall₂_same]
      exact fun d _ ↦ Drawing.persists_after e'.line d
    · rw [hshare hf] at heditor ⊢
      cases heditor
      exact ⟨hflat hf, rfl⟩
  · rename_i e' command hpress
    have hflat (hf : e.Flat) : e'.Flat := Editor.flat_press hf hpress
    rcases runEx_cases s e' command with ⟨e'', heditor, hlines, hapart⟩ | hclosed
    · refine .inl ⟨e'', heditor, hsame hapart, fun hf ↦ ⟨?_, hapart⟩⟩
      rw [Editor.Flat, hlines]
      exact hflat hf
    · exact .inr hclosed
  · exact .inl ⟨e, he, hsame rfl, fun hf ↦ ⟨hf, rfl⟩⟩

theorem closeEditor_of_prompt {prompt : String} (h : s.closeEditor.1.prompt = .ok prompt) :
    s.closeEditor.2 = none ∧ s.closeEditor.1.screen = s.screen ++ [.line (.text prompt)] := by
  unfold closeEditor at h ⊢
  dsimp only at h ⊢
  split at h
  · rename_i failure hfailure
    cases hfailure.symm.trans h
  · rename_i shown hshown
    cases hshown.symm.trans h
    exact ⟨rfl, rfl⟩

theorem settings_closeEditor (s : Session) : s.closeEditor.1.settings = s.settings := by
  unfold closeEditor
  dsimp only
  split <;> rfl

theorem prompt_editorKey (he : s.editor = some e) (hflat : e.Flat)
    (hat : (s.tree.at? s.cwd).isSome = true) (k : KeyEvent) :
    ((s.editorKey e k).1.tree.at? (s.editorKey e k).1.cwd).isSome = true ∧
      (s.editorKey e k).1.prompt = s.prompt := by
  have hchanges : Changes (fun _ _ _ _ ↦ True) (fun _ ↦ False) s.tree (s.editorKey e k).1.tree := by
    refine changes_editorKey s e k (fun _ _ _ _ ↦ trivial) fun e' hpress ↦ ?_
    exact (Editor.flat_iff.mp (Editor.flat_press hflat hpress)).2.within _
  have hcwd : (s.editorKey e k).1.cwd = s.cwd := cwd_editorKey s e k
  have hsettings : (s.editorKey e k).1.settings = s.settings := by
    rcases editorKey_cases he k with ⟨e', -, -, hopen⟩ | ⟨s', hclosed, hapart⟩
    · exact (congrArg Session.settings (hopen hflat).2 :)
    · rw [hclosed, settings_closeEditor]
      exact (congrArg Session.settings hapart :)
  have hpath : (s.editorKey e k).1.tree.path s.cwd = s.tree.path s.cwd := hchanges.path hat
  refine ⟨?_, ?_⟩
  · rw [hcwd]
    exact hchanges.isSome_at? hat
  · rw [prompt, prompt, hsettings, hcwd, hpath]

/-! ## While it is open -/

def EditsFlat (s : Session) : Prop := ∀ e, s.editor = some e → e.Flat

/-- What a session may have become by keys that left the editor open. -/
structure Edited (s s' : Session) : Prop where
  beside : s'.beside = s.beside
  screen : List.Forall₂ Drawing.Persists s.screen s'.screen
  flat : s.EditsFlat → s'.EditsFlat ∧ s'.screen = s.screen
  prompt : s.EditsFlat → (s.tree.at? s.cwd).isSome = true →
    (s'.tree.at? s'.cwd).isSome = true ∧ s'.prompt = s.prompt

theorem Edited.refl (s : Session) : s.Edited s where
  beside := rfl
  screen := List.forall₂_same.mpr fun d _ ↦ .same d
  flat := fun hf ↦ ⟨hf, rfl⟩
  prompt := fun _ hat ↦ ⟨hat, rfl⟩

theorem Edited.trans {s' s'' : Session} (h : s.Edited s') (h' : s'.Edited s'') : s.Edited s'' where
  beside := h'.beside.trans h.beside
  screen := Drawing.forall₂_persists_trans h.screen h'.screen
  flat := by
    intro hf
    obtain ⟨hf', hscreen⟩ := h.flat hf
    obtain ⟨hf'', hscreen'⟩ := h'.flat hf'
    exact ⟨hf'', hscreen'.trans hscreen⟩
  prompt := by
    intro hf hat
    obtain ⟨hat', hprompt⟩ := h.prompt hf hat
    obtain ⟨hat'', hprompt'⟩ := h'.prompt (h.flat hf).1 hat'
    exact ⟨hat'', hprompt'.trans hprompt⟩

theorem edited_press (he : s.editor = some e) (k : KeyEvent)
    (hopen : (s.press reg k).1.editor.isSome = true) : s.Edited (s.press reg k).1 := by
  have hpress : s.press reg k = s.editorKey e k := by rw [press, he]
  rw [hpress] at hopen ⊢
  rcases editorKey_cases he k with ⟨e', heditor, hscreen, hflat⟩ | ⟨s', hclosed, -⟩
  · refine ⟨beside_editorKey s e k, hscreen, fun hf ↦ ?_, fun hf hat ↦ ?_⟩
    · obtain ⟨hflat', hapart⟩ := hflat (hf e he)
      refine ⟨fun e'' he'' ↦ ?_, ?_⟩
      · cases heditor.symm.trans he''
        exact hflat'
      · exact (congrArg Session.screen hapart :)
    · exact prompt_editorKey he (hf e he) hat k
  · rw [hclosed, editor_closeEditor] at hopen
    cases hopen

/-- The editor stays open while keys are pressed, whether or not some of them fail. -/
def StaysOpen (reg : Registry) (s : Session) : List KeyEvent → Prop
  | [] => s.editor.isSome = true
  | k :: ks => s.editor.isSome = true ∧ StaysOpen reg (s.press reg k).1 ks

instance decidableStaysOpen (reg : Registry) (s : Session) :
    (ks : List KeyEvent) → Decidable (s.StaysOpen reg ks)
  | [] => inferInstanceAs (Decidable (s.editor.isSome = true))
  | k :: ks =>
      have := decidableStaysOpen reg (s.press reg k).1 ks
      inferInstanceAs (Decidable (s.editor.isSome = true ∧ StaysOpen reg (s.press reg k).1 ks))

theorem StaysOpen.editor {ks : List KeyEvent} (h : s.StaysOpen reg ks) :
    s.editor.isSome = true := by
  cases ks with
  | nil => exact h
  | cons k ks => exact h.1

theorem edited_run {ks : List KeyEvent} (h : s.StaysOpen reg ks) :
    s.Edited (s.run reg (ks.map .key)) ∧ (s.run reg (ks.map .key)).editor.isSome = true := by
  induction ks generalizing s with
  | nil => exact ⟨.refl s, h⟩
  | cons k ks ih =>
      obtain ⟨e, he⟩ := Option.isSome_iff_exists.mp h.1
      obtain ⟨hrest, hopen⟩ := ih h.2
      exact ⟨(edited_press he k h.2.editor).trans hrest, hopen⟩

/-- While keys leave the editor open, the shell keeps its line, its history, the current directory
and, apart from lists that the editor changes, what it has shown. The key that closes the editor
shows the current prompt, if there is one, and nothing else; then keys go to the shell again. If no
line of the text is a list, what was shown and the prompt stay exactly as they were. -/
theorem editor_takes_over (reg : Registry) (s : Session) (ks : List KeyEvent)
    (hopen : s.StaysOpen reg ks) :
    let s' := s.run reg (ks.map .key)
    s'.beside = s.beside ∧ List.Forall₂ Drawing.Persists s.screen s'.screen ∧
      (s.EditsFlat → s'.screen = s.screen) ∧
      ∀ k, let s'' := (s'.press reg k).1
        s''.editor = none →
          s''.beside = s.beside ∧
            (∀ prompt, s''.prompt = .ok prompt →
              (s'.press reg k).2 = none ∧ s''.screen = s'.screen ++ [.line (.text prompt)]) ∧
            (s.EditsFlat → (s.tree.at? s.cwd).isSome = true → s''.prompt = s.prompt) ∧
            ∀ k', s''.press reg k' = s''.shellKey reg k' := by
  intro s'
  obtain ⟨hedited, hsome⟩ := edited_run hopen
  refine ⟨hedited.beside, hedited.screen, fun hf ↦ (hedited.flat hf).2, ?_⟩
  intro k s'' hnone
  obtain ⟨e, he⟩ := Option.isSome_iff_exists.mp hsome
  have hpress : s'.press reg k = s'.editorKey e k := by rw [press, he]
  have hbeside : s''.beside = s'.beside := by
    change (s'.press reg k).1.beside = _
    rw [hpress]
    exact beside_editorKey s' e k
  refine ⟨hbeside.trans hedited.beside, ?_, ?_, ?_⟩
  · intro prompt hprompt
    change (s'.press reg k).1.prompt = _ at hprompt
    change (s'.press reg k).1.editor = none at hnone
    change _ ∧ (s'.press reg k).1.screen = _
    rw [hpress] at hprompt hnone ⊢
    rcases editorKey_cases he k with ⟨e', heditor, -⟩ | ⟨s₁, hclosed, hapart⟩
    · cases heditor.symm.trans hnone
    · have hscreen := congrArg Session.screen hapart
      change s₁.screen = s'.screen at hscreen
      rw [hclosed] at hprompt ⊢
      rw [← hscreen]
      exact closeEditor_of_prompt hprompt
  · intro hf hat
    obtain ⟨hat', hprompt⟩ := hedited.prompt hf hat
    change (s'.press reg k).1.prompt = _
    rw [hpress, (prompt_editorKey he ((hedited.flat hf).1 e he) hat' k).2, hprompt]
  · intro k'
    rw [press, hnone]

/-- A text is changed and saved, then `:q` closes the editor and shows the prompt from before. -/
theorem quitting_shows_the_prompt :
    let s := (ofConfig {}).1.run .standard ((KeyEvent.typing "vi about.txt\n").map .key)
    let ks := KeyEvent.typing "x\x1b:w\n:q"
    let s' := s.run .standard (ks.map .key)
    s.StaysOpen .standard ks ∧ s.EditsFlat ∧ s'.screen = s.screen ∧
      (s'.press .standard (.ofKey .enter)).1.editor = none ∧
      (s'.press .standard (.ofKey .enter)).1.screen =
        s.screen ++ [.line (.text "guest@www.carlegbert.com:~$ ")] := by
  intro s ks s'
  have hopen : s.StaysOpen .standard ks := by decide +kernel
  have hflat : s.EditsFlat := by
    have hnew : (ofConfig {}).1.Flat := flat_ofConfig nofun nofun
    exact (flat_run Registry.standard_ofBuiltins hnew _).editor
  have hclosed : (s'.press .standard (.ofKey .enter)).1.editor = none := by decide +kernel
  have hprompt : (s'.press .standard (.ofKey .enter)).1.prompt.toOption =
      some "guest@www.carlegbert.com:~$ " := by decide +kernel
  obtain ⟨-, -, hscreen, hclose⟩ := editor_takes_over .standard s ks hopen
  obtain ⟨-, hshown, -⟩ := hclose (.ofKey .enter) hclosed
  refine ⟨hopen, hflat, hscreen hflat, hclosed, ?_⟩
  cases hp : (s'.press .standard (.ofKey .enter)).1.prompt with
  | error failure => simp [hp, Except.toOption] at hprompt
  | ok prompt =>
      rw [hp] at hprompt
      cases hprompt
      rw [← hscreen hflat]
      exact (hshown _ hp).2

/-- A key in the editor changes what was shown: the user is a list with the list `["a"]` in it,
which is on the screen and in the file that is edited. -/
theorem shown_list_changes :
    let s := (ofTree {} { user := .list [.list [.text "a"]] }).run .standard
      ((KeyEvent.typing "whoami\nwhoami > f\nvi f\n").map .key)
    let s' := (s.press .standard ⟨.character, "b"⟩).1
    s.editor.isSome = true ∧ s'.editor.isSome = true ∧ s'.prompt.toOption.isSome = true ∧
      s.screen[1]? = some (.line (.list ⟨1, 0⟩ [.text "a"])) ∧
      s'.screen[1]? = some (.line (.list ⟨1, 0⟩ [.text "a", .text "b"])) := by
  decide +kernel

end Session

end TreeShell
