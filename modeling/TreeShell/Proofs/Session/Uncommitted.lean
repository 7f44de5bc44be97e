import TreeShell.Proofs.Session.History
import TreeShell.Proofs.Session.Takeover

/-!
# Only Enter commits

Enter alone submits a line to the shell or a command to the editor. Whatever other keys are pressed,
the tree, the current directory, the history and the file that is edited stay as they are. What is
typed into the editor shows in a file before it is saved in one way only: where a line of the text
is a list, and the file holds that same list.
-/

namespace TreeShell

variable {M : Mark → Prop}

/-- Two values are the same but for items that are lists with marks in `M`. -/
inductive Json.SameBut (M : Mark → Prop) (group : Nat) : Json → Json → Prop
  | same (v : Json) : SameBut M group v v
  | list {vs vs' : List Json} (length : vs'.length = vs.length)
      (items : ∀ i, ¬ M ⟨group, i⟩ → vs'[i]? = vs[i]?) : SameBut M group (.list vs) (.list vs')

def Node.SameBut (M : Mark → Prop) (m m' : Node) : Prop := m.Persists M m' ∧ m'.stamp? = m.stamp?

structure Tree.SameBut (M : Mark → Prop) (t t' : Tree) : Prop where
  label : t.label.SameBut M labelGroup t'.label
  nodes : ∀ place, Option.Rel (Node.SameBut M) (t.at? place) (t'.at? place)

theorem Json.SameBut.trans {group : Nat} {v v' v'' : Json} (h : v.SameBut M group v')
    (h' : v'.SameBut M group v'') : v.SameBut M group v'' := by
  cases h with
  | same => exact h'
  | list length items =>
      cases h' with
      | same => exact .list length items
      | list length' items' =>
          exact .list (length'.trans length) fun i hi ↦ (items' i hi).trans (items i hi)

theorem Json.sameBut_valueAfter {changed : Line} (h : changed.Within M) (group : Nat) (v : Json) :
    v.SameBut M group (changed.valueAfter group v) := by
  cases changed with
  | text s => exact .same v
  | other w => exact .same v
  | list m items =>
      cases v with
      | list vs =>
          rw [Line.valueAfter]
          split_ifs with hgroup
          · refine .list (List.length_set ..) fun i hi ↦ ?_
            have hne : m.index ≠ i := by
              rintro rfl
              subst hgroup
              exact hi (h m items rfl)
            exact List.getElem?_set_ne hne
          · exact .same _
      | _ => exact .same _

namespace Tree

variable {t t' : Tree}

theorem SameBut.refl (t : Tree) : t.SameBut M t where
  label := .same _
  nodes := by
    intro place
    cases t.at? place with
    | none => exact .none
    | some m => exact .some ⟨.refl m, rfl⟩

theorem SameBut.trans {t'' : Tree} (h : t.SameBut M t') (h' : t'.SameBut M t'') :
    t.SameBut M t'' where
  label := h.label.trans h'.label
  nodes := by
    intro place
    have hfirst := h.nodes place
    have hsecond := h'.nodes place
    generalize t.at? place = m, t'.at? place = m', t''.at? place = m'' at hfirst hsecond ⊢
    cases hfirst with
    | none => exact hsecond
    | some hm =>
        cases hsecond with
        | some hm' => exact .some ⟨hm.1.trans hm'.1, hm'.2.trans hm.2⟩

theorem sameBut_after {changed : Line} (h : changed.Within M) (t : Tree) :
    t.SameBut M (t.after changed) where
  label := Json.sameBut_valueAfter h _ _
  nodes := by
    intro place
    rw [Tree.at?, Tree.at?, root_after, Node.at?_mapLines]
    cases t.root.at? place with
    | none => exact .none
    | some m => exact .some ⟨Node.persists_mapLines_after h m, Node.stamp?_mapLines _ m⟩

end Tree

namespace Session

variable {s s' : Session} {reg : Registry} {e : Editor} {k : KeyEvent}

def EditsWithin (M : Mark → Prop) (s : Session) : Prop := ∀ e, s.editor = some e → e.Within M

theorem sameBut_share {changed : Line} (h : changed.Within M) (s : Session) :
    s.tree.SameBut M (s.share changed).tree := by
  cases changed with
  | text text => exact .refl _
  | list mark items => exact Tree.sameBut_after h s.tree
  | other v => exact .refl _

theorem freeGroup_le_share (s : Session) (changed : Line) :
    s.freeGroup ≤ (s.share changed).freeGroup := by
  cases changed with
  | list mark items => exact Nat.le_max_left _ _
  | _ => exact Nat.le_refl _

/-- What a session may have become by keys other than Enter, if lists with marks in `M` may change
in place. -/
structure Uncommitted (M : Mark → Prop) (s s' : Session) : Prop where
  cwd : s'.cwd = s.cwd
  history : s'.history = s.history
  work : s'.editor.map Editor.work = s.editor.map Editor.work
  tree : s.tree.SameBut M s'.tree
  within : s'.EditsWithin M
  free : s.freeGroup ≤ s'.freeGroup
  flat : s.EditsFlat → s'.EditsFlat ∧ s'.tree = s.tree

theorem Uncommitted.trans {s'' : Session} (h : s.Uncommitted M s') (h' : s'.Uncommitted M s'') :
    s.Uncommitted M s'' where
  cwd := h'.cwd.trans h.cwd
  history := h'.history.trans h.history
  work := h'.work.trans h.work
  tree := h.tree.trans h'.tree
  within := h'.within
  free := Nat.le_trans h.free h'.free
  flat := by
    intro hf
    obtain ⟨hf', htree⟩ := h.flat hf
    obtain ⟨hf'', htree'⟩ := h'.flat hf'
    exact ⟨hf'', htree'.trans htree⟩

theorem Uncommitted.refl (h : s.EditsWithin M) : s.Uncommitted M s where
  cwd := rfl
  history := rfl
  work := rfl
  tree := .refl _
  within := h
  free := Nat.le_refl _
  flat := fun hf ↦ ⟨hf, rfl⟩

theorem uncommitted_editorKey (he : s.editor = some e) (hk : k.key ≠ .enter)
    (hwithin : s.EditsWithin M) (hfree : ∀ mark : Mark, s.freeGroup ≤ mark.group → M mark) :
    s.Uncommitted M (s.editorKey e k).1 := by
  unfold editorKey
  split
  · rename_i e' hpress
    have hfresh : M ⟨s.freeGroup, 0⟩ := hfree _ (Nat.le_refl _)
    have hwithin' : e'.Within M :=
      Editor.within_press (hwithin e he) (fun _ _ ↦ hfresh) hpress
    have hbeside := beside_share { s with editor := some e' } e'.line
    have htree := sameBut_share (Editor.within_iff.mp hwithin').2 { s with editor := some e' }
    have hgroup := freeGroup_le_share { s with editor := some e' } e'.line
    have hflat (hf : s.EditsFlat) : e'.Flat := Editor.flat_press (hf e he) hpress
    have hshare (hf : s.EditsFlat) : ({ s with editor := some e' } : Session).share e'.line =
        { s with editor := some e' } := share_eq_self (Editor.flat_iff.mp (hflat hf)).2
    -- The editor that is left is `e'`, with what the list itself has become.
    obtain ⟨e'', heditor, hwork, hwithin''⟩ : ∃ e'',
        (({ s with editor := some e' } : Session).share e'.line).editor = some e'' ∧
          e''.work = e'.work ∧ e''.Within M := by
      rcases editor_share { s with editor := some e' } e'.line with h | h
      · exact ⟨e', h, rfl, hwithin'⟩
      · exact ⟨_, h, rfl, hwithin'.after e'.line⟩
    generalize ({ s with editor := some e' } : Session).share e'.line = s'
      at hbeside htree hgroup hshare heditor
    refine ⟨(congrArg Session.cwd hbeside :), (congrArg Session.history hbeside :), ?_, htree, ?_,
      hgroup, fun hf ↦ ?_⟩
    · rw [heditor, he, Option.map_some, Option.map_some, hwork, Editor.work_press hpress]
    · intro e₁ he₁
      cases heditor.symm.trans he₁
      exact hwithin''
    · rw [hshare hf]
      refine ⟨?_, rfl⟩
      rintro _ ⟨rfl⟩
      exact hflat hf
  · rename_i hpress
    exact absurd (Editor.press_eq_ok_some hpress).2.1 hk
  · exact .refl hwithin

theorem uncommitted_press (hk : k.key ≠ .enter) (hwithin : s.EditsWithin M)
    (hfree : ∀ mark : Mark, s.freeGroup ≤ mark.group → M mark) :
    s.Uncommitted M (s.press reg k).1 := by
  unfold press
  split
  · rename_i e he
    exact uncommitted_editorKey he hk hwithin hfree
  · obtain ⟨buffer, cursor, tabPending, screen, log, hshell⟩ :=
      exists_shellKey_of_not_submits reg (fun prompt (h : s.Submits k prompt) ↦ hk h.key)
    rw [hshell]
    exact ⟨rfl, rfl, rfl, .refl _, hwithin, Nat.le_refl _, fun hf ↦ ⟨hf, rfl⟩⟩

theorem uncommitted_run {ks : List KeyEvent} (hks : ∀ k ∈ ks, k.key ≠ .enter)
    (hwithin : s.EditsWithin M) (hfree : ∀ mark : Mark, s.freeGroup ≤ mark.group → M mark) :
    s.Uncommitted M (s.run reg (ks.map .key)) := by
  induction ks generalizing s with
  | nil => exact .refl hwithin
  | cons k ks ih =>
      obtain ⟨hk, hrest⟩ := List.forall_mem_cons.mp hks
      have hfirst : s.Uncommitted M (s.press reg k).1 := uncommitted_press hk hwithin hfree
      have hfree' (mark : Mark) (hm : (s.press reg k).1.freeGroup ≤ mark.group) : M mark :=
        hfree mark (Nat.le_trans hfirst.free hm)
      exact hfirst.trans (ih hrest hfirst.within hfree')

/-- The text in the editor holds the list with a mark, or the mark has not been given yet. -/
def Held (s : Session) (mark : Mark) : Prop :=
  s.freeGroup ≤ mark.group ∨ ∃ e, s.editor = some e ∧ ∃ items, .list mark items ∈ e.lines

/-- Keys other than Enter leave the current directory, the history, the editor on its file and the
tree alone, apart from lists that the text in the editor holds: a file that holds the same list
changes with it. If no line of the text is a list, the tree stays exactly as it was. -/
theorem only_enter_commits (reg : Registry) (s : Session) (ks : List KeyEvent)
    (hks : ∀ k ∈ ks, k.key ≠ .enter) :
    let s' := s.run reg (ks.map .key)
    s'.cwd = s.cwd ∧ s'.history = s.history ∧
      s'.editor.map Editor.work = s.editor.map Editor.work ∧
      s.tree.SameBut s.Held s'.tree ∧ (s.EditsFlat → s'.tree = s.tree) := by
  intro s'
  have hwithin : s.EditsWithin s.Held := by
    intro e he l hl mark items hlist
    exact .inr ⟨e, he, items, hlist ▸ hl⟩
  have hrun : s.Uncommitted s.Held s' := uncommitted_run hks hwithin fun _ hm ↦ .inl hm
  exact ⟨hrun.cwd, hrun.history, hrun.work, hrun.tree, fun hf ↦ (hrun.flat hf).2⟩

/-- A text is changed and `:w` is typed: nothing is saved before Enter. -/
theorem unsaved_text_stays_out :
    let s := (ofConfig {}).1.run .standard ((KeyEvent.typing "vi about.txt\n").map .key)
    let ks := KeyEvent.typing "x\t\x1b:w"
    let s' := s.run .standard (ks.map .key)
    (∀ k ∈ ks, k.key ≠ .enter) ∧ s.EditsFlat ∧ s'.tree = s.tree ∧
      s'.editor.map Editor.modified = some true := by
  intro s ks s'
  have hks : ∀ k ∈ ks, k.key ≠ .enter := by decide +kernel
  have hflat : s.EditsFlat := by
    have hnew : (ofConfig {}).1.Flat := flat_ofConfig nofun nofun
    exact (flat_run Registry.standard_ofBuiltins hnew _).editor
  have hmodified : s'.editor.map Editor.modified = some true := by decide +kernel
  obtain ⟨-, -, -, -, htree⟩ := only_enter_commits .standard s ks hks
  exact ⟨hks, hflat, htree hflat, hmodified⟩

/-- A character typed into the editor shows in the file that is edited: the user is a list with the
list `["a"]` in it, which the file and the text hold. -/
theorem typing_reaches_file :
    let s := (ofTree {} { user := .list [.list [.text "a"]] }).run .standard
      ((KeyEvent.typing "whoami > f\nvi f\n").map .key)
    let k : KeyEvent := ⟨.character, "b"⟩
    k.key ≠ .enter ∧ s.tree.lines? [0] = some [.list ⟨1, 0⟩ [.text "a"]] ∧
      (s.press .standard k).1.tree.lines? [0] =
        some [.list ⟨1, 0⟩ [.text "a", .text "b"]] := by
  decide +kernel

end Session

end TreeShell
