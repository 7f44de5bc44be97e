import TreeShell.Proofs.Session.Making
import TreeShell.Proofs.Session.References
import TreeShell.Proofs.Session.Siblings

/-!
# One editor, one file

An editor saves to the file that it was opened on. If it was opened on none, the first save makes
the node that its path makes in the directory that it was opened in, and all later saves go there.
Where that node cannot be made, no save does anything. All of this is settled when the editor is
opened, since keys and moves of the session make no other nodes.
-/

namespace TreeShell

namespace Tree

variable {t u : Tree} {home place : Place} {segments : List String} {file : Option Place}

/-- The file that a text is saved to, and the tree with that file. For a text without a file one is
made at its path. -/
def destination (t : Tree) (home : Place) (segments : List String) :
    Option Place → Except Failure (Tree × Place)
  | some place => .ok (t, place)
  | none => t.create home segments .text

/-- A tree in which a file was written, and nothing else changed. The file may be new. -/
structure Written (t t' : Tree) (place : Place) (lines : List Line) : Prop where
  label : t'.label = t.label
  lines : t'.lines? place = some lines
  others : ∀ q, q ≠ place → (t'.at? q).map Node.own = (t.at? q).map Node.own

theorem has_text_iff : t.Has .text place ↔ ∃ lines, t.lines? place = some lines := by
  unfold Has signature? Node.signature? lines? Tree.at?
  cases t.root.at? place with
  | none => simp
  | some n => cases n <;> simp [Node.signature, Node.kind, Node.lines?]

theorem SameNodes.has {t' : Tree} {kind : Kind} (h : t.SameNodes t') (hk : t.Has kind place) :
    t'.Has kind place := by
  obtain ⟨name, hname⟩ := hk
  exact ⟨name, (h place).trans hname⟩

theorem written_write (h : t.Has .text place) (lines : List Line) :
    t.Written (t.write place lines) place lines where
  label := rfl
  lines := by
    obtain ⟨old, hold⟩ := has_text_iff.mp h
    rw [lines?_write_self, hold, Option.map_some]
  others := fun _ hq ↦ own_write_of_ne t hq lines

theorem written_of_destination (hfile : ∀ q, file = some q → t.Has .text q)
    (h : t.destination home segments file = .ok (u, place)) (lines : List Line) :
    t.Written (u.write place lines) place lines := by
  cases file with
  | some q =>
      cases h
      exact written_write (hfile _ rfl) lines
  | none =>
      obtain ⟨parent, -, hgains⟩ := gains_of_create h
      have hwritten := written_write (has_of_create h) lines
      refine ⟨hwritten.label.trans hgains.label, hwritten.lines, fun q hq ↦ ?_⟩
      exact (hwritten.others q hq).trans (hgains.others q hq)

end Tree

namespace Editor

variable {t t' u : Tree} {e : Editor} {home place : Place} {segments : List String}
  {file : Option Place}

/-- What has become of the nodes of a tree `t` and of the work of an editor since the editor was
opened there. If nothing was made, the editor has the file that it was opened on. It was opened on
none if something was made; that is the node that its path made, and the editor has it. -/
inductive HoldsTo (t : Tree) (home : Place) (segments : List String) (file : Option Place)
    (t' : Tree) (e : Editor) : Prop
  | unmade (work : e.work = ((segments, home), file)) (nodes : t.SameNodes t')
  | made {u : Tree} {place : Place} (fileless : file = none)
      (created : t.create home segments .text = .ok (u, place))
      (work : e.work = ((segments, home), some place)) (nodes : u.SameNodes t')

theorem HoldsTo.mono {t'' : Tree} {e' : Editor} (h : HoldsTo t home segments file t' e)
    (hwork : e'.work = e.work) (hnodes : t'.SameNodes t'') :
    HoldsTo t home segments file t'' e' := by
  cases h with
  | unmade work nodes => exact .unmade (hwork.trans work) (nodes.trans hnodes)
  | made fileless created work nodes =>
      exact .made fileless created (hwork.trans work) (nodes.trans hnodes)

/-- Where an editor saves to is settled when it is opened. -/
theorem HoldsTo.destination_iff (h : HoldsTo t home segments file t' e) :
    (∃ u, t'.destination e.home e.segments e.file = .ok (u, place)) ↔
      ∃ u, t.destination home segments file = .ok (u, place) := by
  cases h with
  | unmade work nodes =>
      cases work
      cases e.file with
      | some q => simp [Tree.destination]
      | none =>
          constructor
          · rintro ⟨u, hu⟩
            obtain ⟨v, hv, -⟩ := nodes.symm.create hu
            exact ⟨v, hv⟩
          · rintro ⟨u, hu⟩
            obtain ⟨v, hv, -⟩ := nodes.create hu
            exact ⟨v, hv⟩
  | @made v q fileless created work nodes =>
      subst fileless
      have hfile : e.file = some q := congrArg Prod.snd work
      simp [hfile, Tree.destination, created]

theorem HoldsTo.has_file (h : HoldsTo t home segments file t' e)
    (hfile : ∀ q, file = some q → t.Has .text q) : ∀ q, e.file = some q → t'.Has .text q := by
  intro q hq
  cases h with
  | unmade work nodes =>
      cases work
      exact nodes.has (hfile q hq)
  | made fileless created work nodes =>
      cases (congrArg Prod.snd work).symm.trans hq
      exact nodes.has (Tree.has_of_create created)

theorem HoldsTo.sameNodes (h : HoldsTo t home segments file t' e)
    (hd : t.destination home segments file = .ok (u, place)) (hfile : e.file ≠ none) :
    u.SameNodes t' := by
  cases h with
  | unmade work nodes =>
      cases work
      cases hq : e.file with
      | none => exact absurd hq hfile
      | some q =>
          rw [hq] at hd
          cases hd
          exact nodes
  | made fileless created work nodes =>
      subst fileless
      cases created.symm.trans hd
      exact nodes

theorem HoldsTo.saved (h : HoldsTo t home segments file t' e)
    (hd : t'.destination e.home e.segments e.file = .ok (u, place)) (lines : List Line) :
    HoldsTo t home segments file (u.write place lines) (e.saved place) := by
  have hwrite := Tree.sameNodes_write u place lines
  cases h with
  | unmade work nodes =>
      cases work
      cases hfile : e.file with
      | some q =>
          rw [hfile] at hd
          cases hd
          exact .unmade rfl (nodes.trans hwrite)
      | none =>
          rw [hfile] at hd
          obtain ⟨v, hv, hsame⟩ := nodes.symm.create hd
          exact .made rfl hv rfl (hsame.symm.trans hwrite)
  | @made v q fileless created work nodes =>
      obtain ⟨hpath, hfile⟩ := Prod.mk.inj work
      rw [hfile] at hd
      cases hd
      exact .made fileless created (Prod.ext hpath rfl) (nodes.trans hwrite)

end Editor

namespace Session

variable {s : Session} {reg : Registry} {e e' : Editor} {k : KeyEvent} {command : String}

/-! ## What a command of the editor does -/

theorem save_of_destination {t : Tree} {place : Place}
    (h : s.tree.destination e.home e.segments e.file = .ok (t, place)) :
    ∃ log, s.save e =
      ({ s with tree := t.write place e.lines, editor := some (e.saved place), log },
        .ok true) := by
  unfold save fileFor
  cases hfile : e.file with
  | some q =>
      rw [hfile] at h
      cases h
      exact ⟨_, rfl⟩
  | none =>
      rw [hfile] at h
      dsimp only
      rw [create_eq_ok_iff.mpr ⟨t, h, rfl⟩]
      exact ⟨_, rfl⟩

theorem save_of_refused {failure : Failure}
    (h : s.tree.destination e.home e.segments e.file = .error failure) :
    ∃ status result, s.save e = ({ s with editor := some { e with status } }, result) ∧
      result ≠ .ok true := by
  unfold save fileFor
  cases hfile : e.file with
  | some q =>
      rw [hfile] at h
      cases h
  | none =>
      rw [hfile] at h
      dsimp only
      rw [create_of_error h]
      cases failure with
      | shell refusal => exact ⟨refusal.line, .ok false, by rw [← hfile], by simp⟩
      | _ => exact ⟨e.status, .error _, by rw [← hfile], nofun⟩

theorem runEx_of_destination {t : Tree} {place : Place}
    (hsaves : (ExCommand.ofString command).saves = true)
    (h : s.tree.destination e.home e.segments e.file = .ok (t, place)) :
    (s.runEx e command).1.tree = t.write place e.lines ∧
      ∀ e', (s.runEx e command).1.editor = some e' → e' = e.saved place := by
  obtain ⟨log, hsave⟩ := save_of_destination h
  have htree := tree_runEx_of_saves (s := s) (e := e) hsaves
  rw [hsave] at htree
  refine ⟨htree, fun e' he' ↦ ?_⟩
  unfold runEx at he'
  cases hc : ExCommand.ofString command <;> rw [hc] at hsaves he' <;>
    simp only [ExCommand.saves, Bool.false_eq_true] at hsaves
  · rw [hsave] at he'
    exact (Option.some.inj he').symm
  · rw [hsave] at he'
    dsimp only at he'
    rw [editor_closeEditor] at he'
    cases he'

theorem runEx_of_refused {failure : Failure}
    (hsaves : (ExCommand.ofString command).saves = true)
    (h : s.tree.destination e.home e.segments e.file = .error failure) :
    ∃ status, (s.runEx e command).1 = { s with editor := some { e with status } } := by
  obtain ⟨status, result, hsave, hresult⟩ := save_of_refused h
  refine ⟨status, ?_⟩
  unfold runEx
  cases hc : ExCommand.ofString command <;> rw [hc] at hsaves <;>
    simp only [ExCommand.saves, Bool.false_eq_true] at hsaves
  · cases result <;> simp only [hsave]
  · cases result with
    | error failure => simp only [hsave]
    | ok saved =>
        cases saved with
        | false => simp only [hsave]
        | true => exact absurd rfl hresult

theorem runEx_of_not_saves (h : (ExCommand.ofString command).saves = false) :
    (s.runEx e command).1.tree = s.tree ∧
      ∀ e', (s.runEx e command).1.editor = some e' → ∃ status, e' = { e with status } := by
  have hclosed : s.closeEditor.1.tree = s.tree ∧
      ∀ e', s.closeEditor.1.editor = some e' → ∃ status, e' = { e with status } := by
    refine ⟨tree_closeEditor s, fun e' he' ↦ ?_⟩
    rw [editor_closeEditor] at he'
    cases he'
  unfold runEx
  cases hc : ExCommand.ofString command with
  | write => simp [hc, ExCommand.saves] at h
  | writeQuit => simp [hc, ExCommand.saves] at h
  | quit =>
      dsimp only
      split_ifs
      · exact ⟨rfl, fun e' he' ↦ ⟨_, (Option.some.inj he').symm⟩⟩
      · exact hclosed
  | forceQuit => exact hclosed
  | unknown name => exact ⟨rfl, fun e' he' ↦ ⟨_, (Option.some.inj he').symm⟩⟩

theorem runEx_open (he' : (s.runEx e command).1.editor = some e') :
    (∃ status, e' = { e with status } ∧ (s.runEx e command).1.tree = s.tree) ∨
      ∃ t place, s.tree.destination e.home e.segments e.file = .ok (t, place) ∧
        e' = e.saved place ∧ (s.runEx e command).1.tree = t.write place e.lines := by
  cases hsaves : (ExCommand.ofString command).saves with
  | false =>
      obtain ⟨htree, heditor⟩ := runEx_of_not_saves (s := s) (e := e) hsaves
      obtain ⟨status, hsame⟩ := heditor e' he'
      exact .inl ⟨status, hsame, htree⟩
  | true =>
      cases hd : s.tree.destination e.home e.segments e.file with
      | ok made =>
          obtain ⟨htree, heditor⟩ := runEx_of_destination hsaves hd
          exact .inr ⟨made.1, made.2, rfl, heditor e' he', htree⟩
      | error failure =>
          obtain ⟨status, hrefused⟩ := runEx_of_refused hsaves hd
          rw [hrefused] at he' ⊢
          exact .inl ⟨status, (Option.some.inj he').symm, rfl⟩

/-! ## Steps while the editor is open -/

/-- A step gives the open editor `e` a command: it is the command, or Enter behind the command. -/
def Step.Gives (e : Editor) (command : ExCommand) : Step → Prop
  | .ex text => ExCommand.ofString text = command
  | .key k => k.key = .enter ∧ e.mode = .command ∧ ExCommand.ofString e.command = command
  | _ => False

def Step.Edits : Step → Prop
  | .ex _ | .key _ | .changeDirectory _ => True
  | _ => False

instance decidableEdits : (x : Step) → Decidable x.Edits
  | .ex _ | .key _ | .changeDirectory _ => .isTrue trivial
  | .execute _ | .feed _ | .complete => .isFalse not_false

theorem exists_runEx_of_gives (reg : Registry) {command : ExCommand} {x : Step}
    (he : s.editor = some e) (hx : x.Gives e command) :
    ∃ typed text, ExCommand.ofString text = command ∧
      s.step reg x = (s.runEx { e with command := typed } text).1 := by
  cases x with
  | ex text => exact ⟨e.command, text, hx, by rw [step, he]; rfl⟩
  | key k =>
      refine ⟨"", e.command, hx.2.2, ?_⟩
      rw [step, press, he]
      exact congrArg Prod.fst (editorKey_of_enter s hx.1 hx.2.1)
  | execute line => exact hx.elim
  | feed line => exact hx.elim
  | complete => exact hx.elim
  | changeDirectory place => exact hx.elim

theorem Step.Edits.step_eq {x : Step} (hx : x.Edits) (reg : Registry) (he : s.editor = some e) :
    (∃ text, s.step reg x = (s.runEx e text).1) ∨
      (∃ k, x = .key k ∧ s.step reg x = (s.editorKey e k).1) ∨
      ∃ place, s.step reg x = s.changeDirectory place := by
  cases x with
  | ex text => exact .inl ⟨text, by rw [step, he]; rfl⟩
  | key k => exact .inr (.inl ⟨k, rfl, by rw [step, press, he]⟩)
  | changeDirectory place => exact .inr (.inr ⟨place, rfl⟩)
  | execute line => exact hx.elim
  | feed line => exact hx.elim
  | complete => exact hx.elim

/-- An editor stays open during steps, and each of them is one of those that `P` names for it. -/
def KeepsOpen (reg : Registry) (P : Editor → Step → Prop) (s : Session) : List Step → Prop
  | [] => s.editor.isSome = true
  | x :: steps => (∃ e ∈ s.editor, P e x) ∧ KeepsOpen reg P (s.step reg x) steps

instance decidableKeepsOpen (reg : Registry) (P : Editor → Step → Prop)
    [∀ e x, Decidable (P e x)] (s : Session) :
    (steps : List Step) → Decidable (s.KeepsOpen reg P steps)
  | [] => inferInstanceAs (Decidable (s.editor.isSome = true))
  | x :: steps =>
      have := decidableKeepsOpen reg P (s.step reg x) steps
      inferInstanceAs (Decidable ((∃ e ∈ s.editor, P e x) ∧
        KeepsOpen reg P (s.step reg x) steps))

theorem KeepsOpen.exists_editor {P : Editor → Step → Prop} {steps : List Step}
    (h : s.KeepsOpen reg P steps) : ∃ e, s.editor = some e := by
  cases steps with
  | nil => exact Option.isSome_iff_exists.mp h
  | cons x steps =>
      obtain ⟨⟨e, he, -⟩, -⟩ := h
      exact ⟨e, he⟩

abbrev KeepsEditing (reg : Registry) (s : Session) (steps : List Step) : Prop :=
  s.KeepsOpen reg (fun _ ↦ Step.Edits) steps

/-- What the steps of an open editor preserve holds as long as it stays open. -/
theorem KeepsOpen.run {P : Editor → Step → Prop} {I : Session → Editor → Prop}
    {steps : List Step} (hopen : s.KeepsOpen reg P steps)
    (hstep : ∀ {s e x e'}, P e x → s.editor = some e → I s e →
      (s.step reg x).editor = some e' → I (s.step reg x) e')
    (he : s.editor = some e) (h : I s e) :
    ∃ e', (s.run reg steps).editor = some e' ∧ I (s.run reg steps) e' := by
  induction steps generalizing s e with
  | nil => exact ⟨e, he, h⟩
  | cons x steps ih =>
      obtain ⟨⟨d, hd, hx⟩, hrest⟩ := hopen
      cases he.symm.trans hd
      obtain ⟨e', he'⟩ := hrest.exists_editor
      exact ih hrest he' (hstep hx he h he')

variable {t : Tree} {home : Place} {segments : List String} {file : Option Place}

theorem holdsTo_runEx (h : Editor.HoldsTo t home segments file s.tree e)
    (he' : (s.runEx e command).1.editor = some e') :
    Editor.HoldsTo t home segments file (s.runEx e command).1.tree e' := by
  rcases runEx_open he' with ⟨status, rfl, htree⟩ | ⟨u, place, hd, rfl, htree⟩ <;> rw [htree]
  · exact h.mono rfl (.refl _)
  · exact h.saved hd e.lines

theorem holdsTo_editorKey (he : s.editor = some e)
    (h : Editor.HoldsTo t home segments file s.tree e)
    (he' : (s.editorKey e k).1.editor = some e') :
    Editor.HoldsTo t home segments file (s.editorKey e k).1.tree e' := by
  unfold editorKey at he' ⊢
  split at he'
  · rename_i e₁ hpress
    have hkey := h.mono (Editor.work_press hpress) (.refl _)
    rcases share_cases { s with editor := some e₁ } e₁.line with hsame | ⟨htree, heditor⟩
    · rw [hsame] at he' ⊢
      cases he'
      exact hkey
    · cases heditor.symm.trans he'
      dsimp only
      rw [htree]
      exact hkey.mono rfl (Tree.sameNodes_after e₁.line _)
  · rename_i e₁ text hpress
    exact holdsTo_runEx (h.mono (Editor.work_press hpress) (.refl _)) he'
  · cases he.symm.trans he'
    exact h

theorem holdsTo_step {x : Step} (hx : x.Edits) (he : s.editor = some e)
    (h : Editor.HoldsTo t home segments file s.tree e)
    (he' : (s.step reg x).editor = some e') :
    Editor.HoldsTo t home segments file (s.step reg x).tree e' := by
  rcases hx.step_eq reg he with ⟨text, hs⟩ | ⟨k, -, hs⟩ | ⟨place, hs⟩ <;>
    rw [hs] at he' ⊢
  · exact holdsTo_runEx h he'
  · exact holdsTo_editorKey he h he'
  · cases he.symm.trans he'
    exact h

theorem holdsTo_run {steps : List Step} (hopen : s.KeepsEditing reg steps)
    (he : s.editor = some e) (h : Editor.HoldsTo t home segments file s.tree e) :
    ∃ e', (s.run reg steps).editor = some e' ∧
      Editor.HoldsTo t home segments file (s.run reg steps).tree e' :=
  hopen.run (I := fun s e ↦ Editor.HoldsTo t home segments file s.tree e) holdsTo_step he h

/-- An editor is opened on a text file or on none, then keys and commands are given to it and the
session is moved. No node is made, or else the editor was opened on no file and the one node is made
that its path makes in the directory that the session was in at the start. If that can be done at
all, every command that saves the text writes it to that file: it has exactly the lines of the text,
and no other node has changed. Otherwise no such command changes anything but the command line of
the editor and its status. -/
theorem editor_keeps_to_one_file (reg : Registry) (s : Session) (segments : List String)
    (file : Option Place) (hfile : ∀ place, file = some place → s.tree.Has .text place)
    (steps : List Step) (hopen : (s.openEditor segments file).KeepsEditing reg steps) :
    let s' := (s.openEditor segments file).run reg steps
    ∃ e, s'.editor = some e ∧ Editor.HoldsTo s.tree s.cwd segments file s'.tree e ∧
      ∀ x command, x.Gives e command → command.saves = true →
        let s'' := s'.step reg x
        match s.tree.destination s.cwd segments file with
        | .ok (t, place) =>
            t.SameNodes s''.tree ∧ s'.tree.Written s''.tree place e.lines ∧
              ∀ e', s''.editor = some e' →
                e'.file = some place ∧ e'.lines = e.lines ∧ e'.modified = false
        | .error _ =>
            ∃ typed status,
              s'' = { s' with editor := some { e with command := typed, status } } := by
  intro s'
  obtain ⟨e, he, hholds⟩ := holdsTo_run hopen rfl (.unmade rfl (.refl _))
  refine ⟨e, he, hholds, ?_⟩
  intro x command hx hsaves s''
  obtain ⟨typed, text, hcommand, hstep⟩ := exists_runEx_of_gives reg he hx
  have hs'' : s'' = (s'.runEx { e with command := typed } text).1 := hstep
  rw [← hcommand] at hsaves
  rw [hs'']
  cases hd : s.tree.destination s.cwd segments file with
  | ok made =>
      obtain ⟨u, hu⟩ := hholds.destination_iff.mpr ⟨made.1, hd⟩
      obtain ⟨htree, heditor⟩ := runEx_of_destination (e := { e with command := typed }) hsaves hu
      rw [htree]
      refine ⟨?_, Tree.written_of_destination (hholds.has_file hfile) hu e.lines, ?_⟩
      · exact (hholds.saved hu e.lines).sameNodes hd nofun
      · intro e' he'
        rw [heditor e' he']
        exact ⟨rfl, rfl, rfl⟩
  | error failure =>
      cases hd' : s'.tree.destination e.home e.segments e.file with
      | error failure' =>
          obtain ⟨status, hkept⟩ := runEx_of_refused (e := { e with command := typed }) hsaves hd'
          exact ⟨typed, status, hkept⟩
      | ok made =>
          obtain ⟨u, hu⟩ := hholds.destination_iff.mp ⟨made.1, hd'⟩
          cases hd.symm.trans hu

/-- A text that was opened in `a` is saved twice, before and after the session has left `a`. -/
theorem two_saves_make_one_file :
    let s := (ofTree { entries := [.directory "a" []] } {}).changeDirectory [0]
    let steps := (KeyEvent.typing "x\x1b:w\n").map .key ++ [.changeDirectory []] ++
      (KeyEvent.typing "iy\x1b:w").map .key
    let s' := (s.openEditor ["f"] none).run .standard steps
    let s'' := s'.step .standard (.key (.ofKey .enter))
    (s.openEditor ["f"] none).KeepsEditing .standard steps ∧ s'.cwd = [] ∧
      s'.tree.lines? [0, 0] = some [.text "x"] ∧ s''.tree.lines? [0, 0] = some [.text "xy"] ∧
      s''.tree.signatures [] = [("a", .directory)] ∧
      s''.tree.signatures [0] = [("f", .text)] := by
  intro s steps s' s''
  have hopen : (s.openEditor ["f"] none).KeepsEditing .standard steps := by decide +kernel
  obtain ⟨e, he, -, hsave⟩ := editor_keeps_to_one_file .standard s ["f"] none nofun steps hopen
  have hsaved : s'.editor.map (fun e ↦ (e.lines, e.mode, e.command)) =
      some ([.text "xy"], .command, ":w") := by decide +kernel
  rw [he] at hsaved
  simp only [Option.map_some, Option.some.injEq, Prod.mk.injEq] at hsaved
  obtain ⟨hlines, hmode, hcommand⟩ := hsaved
  have hwrites := hsave (.key (.ofKey .enter)) .write ⟨rfl, hmode, by rw [hcommand]; decide⟩ rfl
  have hd : s.tree.destination s.cwd ["f"] none =
      .ok ({ entries := [.directory "a" [.file "f" [] 1]] }, [0, 0]) := rfl
  rw [hd] at hwrites
  obtain ⟨hnodes, hwritten, -⟩ := hwrites
  exact ⟨hopen, by decide +kernel, by decide +kernel, hlines ▸ hwritten.lines,
    hnodes.signatures [], hnodes.signatures [0]⟩

end Session

end TreeShell
