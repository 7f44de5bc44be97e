import TreeShell.Proofs.Session.Frame
import TreeShell.Proofs.Session.ReadBack
import TreeShell.Proofs.Tree.Levels

/-!
# Nothing dangles

A session keeps places: the directory it is in, the directory and the file of the open editor, and
the files that results carry. Trees only grow, so a place that held a node once holds it for ever.
What is left to show is where places come from: a step keeps those of the editor, takes the current
directory and a file that a path leads to, or takes a node that it has just made.
-/

namespace TreeShell

namespace Tree

variable {t t' : Tree} {place : Place} {kind : Kind}

def Has (t : Tree) (kind : Kind) (place : Place) : Prop :=
  ∃ name, t.signature? place = some (name, kind)

theorem Grows.has {M : Mark → Prop} (h : t.Grows M t') (hk : t.Has kind place) :
    t'.Has kind place := by
  obtain ⟨name, hname⟩ := hk
  exact ⟨name, h.signature? hname⟩

theorem has_text_of_not_isDirectory {sig : String × Kind} (h : t.signature? place = some sig)
    (hd : ¬ t.isDirectory place = true) : t.Has .text place := by
  obtain ⟨name, kind⟩ := sig
  cases kind with
  | text => exact ⟨name, h⟩
  | directory => exact absurd (isDirectory_iff.mpr ⟨name, h⟩) hd

theorem has_of_create {start : Place} {segments : List String}
    (h : t.create start segments kind = .ok (t', place)) : t'.Has kind place := by
  obtain ⟨parent, -, hm⟩ := made_of_create h
  exact ⟨Path.lastName segments, by rw [hm.signature?, if_pos rfl]⟩

/-! ## Upwards -/

theorem at?_above {i : Nat} {n : Node} (h : t.at? (place ++ [i]) = some n) :
    ∃ above, t.at? place = some above ∧ above.isDirectory = true ∧ above.children[i]? = some n := by
  rw [Tree.at?, Node.at?_append] at h
  obtain ⟨above, habove, hchild⟩ := Option.bind_eq_some_iff.mp h
  have hi : above.children[i]? = some n := by
    cases hc : above.children[i]? with
    | none => simp [Node.at?_cons, hc] at hchild
    | some c => simpa [Node.at?_cons, hc] using hchild
  refine ⟨above, habove, ?_, hi⟩
  cases above with
  | directory name cs => rfl
  | file name lines stamp => cases hi

end Tree

/-- The path at which an editor was opened, the directory that it starts from and the file, once
there is one. -/
def Editor.work (e : Editor) : (List String × Place) × Option Place :=
  ((e.segments, e.home), e.file)

namespace Editor

variable {fresh : Mark} {e e' : Editor} {k : KeyEvent}

theorem work_press {command : Option String} (h : e.press fresh k = .ok (e', command)) :
    e'.work = e.work := by
  cases takes_press h <;> rfl

end Editor

/-! ## The editor of a session -/

structure Editor.Attached (t : Tree) (e : Editor) : Prop where
  home : t.isDirectory e.home = true
  file : ∀ place, e.file = some place → t.Has .text place

theorem Editor.attached_congr {t : Tree} {e e' : Editor} (h : e'.work = e.work) :
    e'.Attached t ↔ e.Attached t := by
  obtain ⟨hpath, hfile⟩ := Prod.mk.inj h
  have hhome := (Prod.mk.inj hpath).2
  constructor
  · rintro ⟨home, file⟩
    exact ⟨hhome ▸ home, hfile ▸ file⟩
  · rintro ⟨home, file⟩
    exact ⟨hhome ▸ home, hfile ▸ file⟩

theorem Editor.Attached.grows {M : Mark → Prop} {t t' : Tree} {e : Editor} (h : e.Attached t)
    (hgrows : t.Grows M t') : e.Attached t' where
  home := hgrows.isDirectory h.home
  file := fun place hplace ↦ hgrows.has (h.file place hplace)

namespace Session

variable {s s' : Session} {reg : Registry} {t : Tree} {e e' : Editor}

theorem has_of_fileAt {path : String} {place : Place} (h : s.fileAt path = some place) :
    s.tree.Has .text place := by
  obtain ⟨hfound, hfile⟩ := Option.filter_eq_some_iff.mp h
  obtain ⟨sig, hsig⟩ := Tree.signature?_of_resolve (Path.split_ne_nil path) hfound
  exact Tree.has_text_of_not_isDirectory hsig (by simpa using hfile)

theorem attached_editorAt (h : s.InDirectory) (path : String) :
    (s.editorAt path).Attached s.tree where
  home := h
  file := fun _ hplace ↦ has_of_fileAt hplace

/-- Where the editor after a step comes from, the tree after it being `t`. -/
inductive Follows (s : Session) (t : Tree) : Option Editor → Prop where
  | closed : Follows s t none
  | opened (path : String) : Follows s t (some (s.editorAt path))
  | kept {e e' : Editor} (he : s.editor = some e) (work : e'.work = e.work) :
      Follows s t (some e')
  | saved {e e' : Editor} {place : Place} (he : s.editor = some e)
      (work : e'.work = ((e.segments, e.home), some place)) (text : t.Has .text place) :
      Follows s t (some e')

theorem follows_same (s : Session) (t : Tree) : s.Follows t s.editor := by
  cases he : s.editor with
  | none => exact .closed
  | some e => exact .kept he rfl

theorem follows_execute (hreg : reg.OfBuiltins) (line : String) (s : Session) (t : Tree) :
    s.Follows t (s.execute reg line).1.editor := by
  rcases editor_execute hreg line s with hsame | ⟨path, hopened⟩
  · rw [hsame]
    exact follows_same s t
  · rw [hopened]
    exact .opened path

theorem follows_save (he : s.editor = some e) (hwork : e'.work = e.work) :
    s.Follows (s.save e').1.tree (s.save e').1.editor := by
  have hkept : s.Follows (s.save e').1.tree (some e') := .kept he hwork
  unfold save
  split
  · exact .kept he hwork
  · exact .kept he hwork
  · rename_i s' place hfile
    unfold fileFor at hfile
    split at hfile
    · rename_i hplace
      cases hfile
      have hsaved : (e'.saved place).work = e'.work := by simp [Editor.work, Editor.saved, hplace]
      exact .kept he (hsaved.trans hwork)
    · obtain ⟨t, ht, rfl⟩ := create_eq_ok_iff.mp hfile
      obtain ⟨hpath, -⟩ := Prod.mk.inj hwork
      refine .saved he (Prod.ext hpath rfl) ?_
      obtain ⟨name, hname⟩ := Tree.has_of_create ht
      exact ⟨name, (Tree.signature?_write t place place _).trans hname⟩

theorem editor_closeEditor (s : Session) : s.closeEditor.1.editor = none := by
  unfold closeEditor
  dsimp only
  split <;> rfl

theorem follows_runEx (he : s.editor = some e) (hwork : e'.work = e.work) (command : String) :
    s.Follows (s.runEx e' command).1.tree (s.runEx e' command).1.editor := by
  have hsave := follows_save he hwork
  have hclosed (s' : Session) (t : Tree) : s.Follows t s'.closeEditor.1.editor := by
    rw [editor_closeEditor]
    exact .closed
  unfold runEx
  split
  · split <;> (rename_i hs; rwa [hs] at hsave)
  · split
    · exact hclosed _ _
    · rename_i hs
      rwa [hs] at hsave
    · rename_i hs
      rwa [hs] at hsave
  · split
    · exact .kept he hwork
    · exact hclosed _ _
  · exact hclosed _ _
  · exact .kept he hwork

theorem share_cases (s : Session) (changed : Line) :
    s.share changed = s ∨
      (s.share changed).tree = s.tree.after changed ∧
        (s.share changed).editor = s.editor.map (·.after changed) := by
  cases changed with
  | list mark items => exact .inr ⟨rfl, rfl⟩
  | _ => exact .inl rfl

theorem editor_share (s : Session) (changed : Line) :
    (s.share changed).editor = s.editor ∨
      (s.share changed).editor = s.editor.map (·.after changed) :=
  (share_cases s changed).imp (congrArg Session.editor) And.right

theorem follows_editorKey (he : s.editor = some e) (k : KeyEvent) :
    s.Follows (s.editorKey e k).1.tree (s.editorKey e k).1.editor := by
  unfold editorKey
  split
  · rename_i e' hpress
    have hwork := Editor.work_press hpress
    rcases editor_share { s with editor := some e' } e'.line with h | h
    · rw [h]
      exact .kept he hwork
    · rw [h]
      exact .kept he hwork
  · rename_i e' command hpress
    exact follows_runEx he (Editor.work_press hpress) command
  · exact follows_same s _

theorem follows_press (hreg : reg.OfBuiltins) (k : KeyEvent) :
    s.Follows (s.press reg k).1.tree (s.press reg k).1.editor := by
  unfold press
  split
  · rename_i e he
    exact follows_editorKey he k
  · by_cases hk : ∃ prompt, s.Submits k prompt
    · obtain ⟨prompt, hsubmits⟩ := hk
      have hsite : (s.shellKey reg k).1.site =
          ((s.submitting prompt).execute reg s.buffer).1.site := site_shellKey_of_submits hsubmits
      obtain ⟨-, heditor⟩ := Prod.mk.inj hsite
      rw [heditor]
      -- What is typed and what was typed before has no bearing on the editor that is opened.
      rcases editor_execute hreg s.buffer (s.submitting prompt) with hsame | ⟨path, hopened⟩
      · rw [hsame]
        exact follows_same s _
      · rw [hopened]
        exact .opened path
    · have hsite : (s.shellKey reg k).1.site = s.site :=
        site_shellKey_of_not_submits (not_exists.mp hk)
      obtain ⟨-, heditor⟩ := Prod.mk.inj hsite
      rw [heditor]
      exact follows_same s _

/-! ## What a session keeps -/

structure Attached (s : Session) : Prop where
  cwd : s.InDirectory
  editor : ∀ e, s.editor = some e → e.Attached s.tree

theorem attached_of_follows (h : s.Attached) (hin : s'.InDirectory)
    (hgrows : s.tree.Grows (fun _ ↦ True) s'.tree) (hfollows : s.Follows s'.tree s'.editor) :
    s'.Attached := by
  refine ⟨hin, fun e' he' ↦ ?_⟩
  rw [he'] at hfollows
  cases hfollows with
  | opened path => exact (attached_editorAt h.cwd path).grows hgrows
  | kept he work => exact (Editor.attached_congr work).mpr ((h.editor _ he).grows hgrows)
  | @saved e _ place he work text =>
      have hhome := ((h.editor e he).grows hgrows).home
      have hsaved : (e.saved place).Attached s'.tree := by
        refine ⟨hhome, ?_⟩
        rintro _ ⟨rfl⟩
        exact text
      exact (Editor.attached_congr work).mpr hsaved

theorem attached_of_site {s' : Session} (hsite : s'.site = s.site) (h : s.Attached) :
    s'.Attached := by
  obtain ⟨hlocation, heditor⟩ := Prod.mk.inj hsite
  have htree := (Prod.mk.inj hlocation).1
  refine ⟨inDirectory_of_location_eq h.cwd hlocation, ?_⟩
  rw [heditor, htree]
  exact h.editor

theorem attached_execute (hreg : reg.OfBuiltins) (line : String) (h : s.Attached) :
    (s.execute reg line).1.Attached :=
  attached_of_follows h (inDirectory_execute hreg line h.cwd)
    (anyChanges_step s hreg (.execute line)).grows (follows_execute hreg line s _)

theorem attached_press (hreg : reg.OfBuiltins) (k : KeyEvent) (h : s.Attached) :
    (s.press reg k).1.Attached :=
  attached_of_follows h (inDirectory_press hreg k h.cwd) (anyChanges_press s hreg k).grows
    (follows_press hreg k)

theorem attached_runEx (he : s.editor = some e) (command : String) (h : s.Attached) :
    (s.runEx e command).1.Attached := by
  have hchanges : AnyChanges s.tree (s.runEx e command).1.tree :=
    changes_runEx s e command fun _ _ ↦ trivial
  exact attached_of_follows h (inDirectory_runEx e command h.cwd) hchanges.grows
    (follows_runEx he rfl command)

theorem attached_step (hreg : reg.OfBuiltins) (x : Step) (h : s.Attached)
    (hx : ∀ place, x = .changeDirectory place → s.tree.isDirectory place = true) :
    (s.step reg x).Attached := by
  refine step_preserves (fun hcore ↦ attached_of_site (site_of_core hcore)) (attached_execute hreg)
    (attached_press hreg) attached_runEx x ?_ h
  intro place hplace
  exact ⟨hx place hplace, h.editor⟩

/-- Where steps move a session by themselves, they move it to a directory that is there by then. -/
def MovesToDirectories (reg : Registry) (s : Session) : List Step → Prop
  | [] => True
  | x :: steps =>
      (∀ place, x = .changeDirectory place → s.tree.isDirectory place = true) ∧
        MovesToDirectories reg (s.step reg x) steps

theorem attached_run (hreg : reg.OfBuiltins) (steps : List Step) (h : s.Attached)
    (hmoves : s.MovesToDirectories reg steps) : (s.run reg steps).Attached := by
  induction steps generalizing s with
  | nil => exact h
  | cons x steps ih => exact ih (attached_step hreg x h hmoves.1) hmoves.2

theorem attached_ofTree (tree : Tree) (settings : ShellSettings) :
    (ofTree tree settings).Attached :=
  ⟨Tree.isDirectory_nil tree, nofun⟩

/-! ## What a session hands out -/

def Carried (o : Outcome) : Prop := ∀ place, o.data? = some place → ∃ kind, o.1.tree.Has kind place

theorem carried_of_none {o : Outcome} (h : o.data? = none) : Carried o := by
  intro place hplace
  rw [h] at hplace
  cases hplace

theorem carried_make (s : Session) (segments : List String) (kind : Kind) :
    Carried (s.make segments kind) := by
  unfold make
  split
  · rename_i s' place hc
    obtain ⟨t, ht, rfl⟩ := create_eq_ok_iff.mp hc
    rintro _ ⟨rfl⟩
    exact ⟨kind, Tree.has_of_create ht⟩
  · exact carried_of_none rfl
  · exact carried_of_none rfl

theorem carried_each {one : Session → String → Outcome} (hone : ∀ s path, Carried (one s path))
    (hchanges : ∀ s path, AnyChanges s.tree (one s path).1.tree) (s : Session)
    (paths : List String) : Carried (s.each one paths) := by
  induction paths generalizing s with
  | nil => exact carried_of_none rfl
  | cons path paths ih =>
      have hfirst := hone s path
      unfold each
      split
      · exact carried_of_none rfl
      · rename_i s' first hs
        rw [hs] at hfirst
        have hothers := ih s'
        have hgrows := (changes_each (M := fun _ ↦ True) one s' paths
          fun s path _ ↦ hchanges s path).grows
        generalize s'.each one paths = o at hothers hgrows
        obtain ⟨s'', others⟩ := o
        cases others with
        | error failure => exact carried_of_none rfl
        | ok others =>
            -- The later file counts; an earlier one is still in the tree.
            intro place hplace
            rcases Option.or_eq_some_iff.mp hplace with hlater | ⟨-, hearlier⟩
            · exact hothers place hlater
            · obtain ⟨kind, hkind⟩ := hfirst place hearlier
              exact ⟨kind, hgrows.has hkind⟩

theorem carried_touchOne (s : Session) (path : String) : Carried (s.touchOne path) := by
  unfold touchOne
  split
  · exact carried_make s _ _
  · rename_i place hfound
    split
    · exact carried_of_none rfl
    · rename_i hfile
      obtain ⟨sig, hsig⟩ := Tree.signature?_of_resolve (Path.split_ne_nil path) hfound
      rintro _ ⟨rfl⟩
      obtain ⟨name, hname⟩ := Tree.has_text_of_not_isDirectory hsig hfile
      exact ⟨.text, name, (Tree.signature?_touch s.tree place place).trans hname⟩

theorem carried_mkdirOne (s : Session) (path : String) : Carried (s.mkdirOne path) := by
  unfold mkdirOne
  split
  · exact carried_of_none rfl
  · exact carried_make s _ _

theorem carried_run (b : Builtin) (listing : List String) (s : Session) (cmd : Command) :
    Carried (b.run listing s cmd) := by
  cases b with
  | clear => exact carried_of_none rfl
  | echo => exact carried_of_none rfl
  | help => exact carried_of_none rfl
  | pwd =>
      refine carried_of_none ?_
      simp only [Builtin.run, showValue]
      split <;> rfl
  | whoami =>
      refine carried_of_none ?_
      simp only [Builtin.run, showValue]
      split <;> rfl
  | cd =>
      refine carried_of_none ?_
      simp only [Builtin.run, cd]
      split
      · rfl
      · split <;> rfl
  | ls =>
      simp only [Builtin.run, ls]
      split
      · split <;> exact carried_of_none rfl
      · refine carried_each (fun s path ↦ ?_) (fun s path ↦ ?_) s _
        · unfold listOne
          split <;> exact carried_of_none rfl
        · unfold listOne
          split <;> exact .refl
  | cat =>
      refine carried_each (fun s path ↦ ?_) (fun s path ↦ .refl) s _
      unfold catOne
      split
      · exact carried_of_none rfl
      · split <;> exact carried_of_none rfl
  | touch =>
      exact carried_each carried_touchOne
        (fun s path ↦ changes_touchOne s path fun _ _ _ ↦ trivial) s _
  | mkdir =>
      exact carried_each carried_mkdirOne
        (fun s path ↦ changes_mkdirOne s path fun _ _ _ ↦ trivial) s _
  | vi =>
      simp only [Builtin.run, vi]
      split
      · exact carried_of_none rfl
      · intro place hplace
        exact ⟨.text, has_of_fileAt hplace⟩

theorem carried_settle {o : Outcome} (h : Carried o) (cmd : Command) :
    Carried ((settle cmd o).1.done (settle cmd o).2) := by
  obtain ⟨s, result⟩ := o
  cases result with
  | ok r => exact h
  | error failure => cases failure <;> exact carried_of_none rfl

theorem carried_execute (hreg : reg.OfBuiltins) (line : String) (s : Session) :
    Carried (s.execute reg line) := by
  refine execute_preserves (I := Carried) ?_ ?_ ?_ line
  · intro line error
    exact carried_of_none rfl
  · intro cmd
    unfold dispatch
    split
    · exact carried_of_none rfl
    · split
      · exact carried_of_none rfl
      · rename_i spec hspec
        obtain ⟨b, hb⟩ := hreg spec (List.mem_of_find?_eq_some hspec)
        rw [hb]
        exact carried_settle (carried_run b reg.listing _ cmd) cmd
  · intro s' r inner _ place hplace
    obtain ⟨hturn, htree, -⟩ := turn_of_redirect hplace
    have hlines := Tree.lines?_turn hturn
    rw [← htree] at hlines
    obtain ⟨n, hn, -⟩ := Option.bind_eq_some_iff.mp hlines
    exact ⟨n.kind, n.name, by rw [Tree.signature?, Node.signature?, ← Tree.at?, hn]; rfl⟩

/-- However a session is run, as long as it is moved to directories only, it is in a directory, an
open editor starts from a directory and writes to a text file, and a file that a line carries is in
the tree from then on. A node below the root is in the child list of the directory above it, and
going up from there as often as it lies deep leads to the root. -/
theorem references_stay_attached (hreg : reg.OfBuiltins) (tree : Tree) (settings : ShellSettings)
    (steps : List Step) (hmoves : (ofTree tree settings).MovesToDirectories reg steps) :
    let s := (ofTree tree settings).run reg steps
    s.Attached ∧
      (∀ line place later, (s.execute reg line).data? = some place →
        ∃ kind, ((s.execute reg line).1.run reg later).tree.Has kind place) ∧
      ∀ place i n, s.tree.at? (place ++ [i]) = some n →
        (∃ above, s.tree.at? place = some above ∧ above.isDirectory = true ∧
          above.children[i]? = some n) ∧
        ∀ k, s.tree.resolve place (List.replicate k Path.above) (some .directory) =
          some (place.take (place.length - k)) := by
  intro s
  refine ⟨attached_run hreg steps (attached_ofTree tree settings) hmoves, ?_, ?_⟩
  · intro line place later hplace
    obtain ⟨kind, hkind⟩ := carried_execute hreg line s place hplace
    exact ⟨kind, (anyChanges_run _ hreg later).grows.has hkind⟩
  · intro place i n hn
    obtain ⟨above, habove, hdirectory, hchild⟩ := Tree.at?_above hn
    have hplace : s.tree.isDirectory place = true := by
      simp [Tree.isDirectory, habove, hdirectory]
    exact ⟨⟨above, habove, hdirectory, hchild⟩, Tree.resolve_replicate_above hplace⟩

/-- An editor that was opened in `a` saves there although the session has moved on. -/
theorem editor_saves_where_it_was_opened :
    let s := ofTree {} {}
    let steps : List Step := [.execute "mkdir a", .changeDirectory [0], .execute "vi f",
      .changeDirectory [], .ex "w"]
    s.MovesToDirectories .standard steps ∧ (s.run .standard steps).Attached ∧
      (s.run .standard steps).cwd = [] ∧
      (s.run .standard steps).editor.bind Editor.file = some [0, 0] := by
  intro s steps
  have hmoves : s.MovesToDirectories .standard steps := by
    refine ⟨nofun, ?_, nofun, ?_, nofun, trivial⟩
    · rintro _ ⟨⟩
      decide +kernel
    · rintro _ ⟨⟩
      decide +kernel
  have hattached := references_stay_attached Registry.standard_ofBuiltins {} {} steps hmoves
  exact ⟨hmoves, hattached.1, by decide +kernel, by decide +kernel⟩

end Session

end TreeShell
