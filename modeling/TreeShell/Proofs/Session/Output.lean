import TreeShell.Proofs.Session.Frame
import TreeShell.Proofs.Tree.Contents

/-!
# What commands put out

The shell's own commands put out lines of files, lines that settings give and texts, and redirects
write what is put out to files. So if all lines that a session holds are of a sort that has every
text, lines that are put out are of that sort too. The editor opens lines of files and saves its
own, so only its keys could bring in others.
-/

namespace TreeShell

variable {Q : Line → Prop}

namespace Json

/-- All lines that a value stands for are of a sort, its items with marks of a group. -/
def LinesIn (Q : Line → Prop) (group : Nat) (v : Json) : Prop :=
  ∀ out, Line.linesOf group v = .ok out → ∀ l ∈ out, Q l

def LinesAre (Q : Line → Prop) (v : Json) : Prop :=
  ∀ group out, Line.linesOf group v = .ok out → ∀ l ∈ out, Q l

theorem linesAre_text (hQ : ∀ t, Q (.text t)) (s : String) : (text s).LinesAre Q := by
  intro group out hout
  cases hout
  simpa using hQ s

end Json

/-- Every text is of a sort, and so are all lines in the files of a session and all that its user
and the label of its root stand for. -/
structure Session.LinesAre (Q : Line → Prop) (s : Session) : Prop where
  texts : ∀ t, Q (.text t)
  files : s.tree.LinesAre Q
  label : s.tree.label.LinesAre Q
  user : s.settings.user.LinesAre Q

/-- The same with the marks that the items of the label and of the user have. -/
structure Session.SourcesAre (Q : Line → Prop) (s : Session) : Prop where
  texts : ∀ t, Q (.text t)
  files : s.tree.LinesAre Q
  label : s.tree.label.LinesIn Q Tree.labelGroup
  user : s.settings.user.LinesIn Q s.userGroup

def Result.LinesAre (Q : Line → Prop) (r : Result Place) : Prop := ∀ l ∈ r.render, Q l

def Outcome.LinesAre (Q : Line → Prop) (o : Outcome) : Prop :=
  o.1.LinesAre Q ∧ ∀ r, o.2 = .ok r → r.LinesAre Q

def Outcome.SourcesAre (Q : Line → Prop) (o : Outcome) : Prop :=
  o.1.SourcesAre Q ∧ ∀ r, o.2 = .ok r → r.LinesAre Q

namespace Result

theorem linesAre_data (data : Option Place) : LinesAre Q { data } := by
  simp [LinesAre, render]

theorem linesAre_out {out : List Line} (h : ∀ l ∈ out, Q l) : LinesAre Q { out } := by
  simpa [LinesAre, render] using h

theorem linesAre_ofLine (hQ : ∀ t, Q (.text t)) (line : String) : (ofLine line).LinesAre Q :=
  linesAre_out (by simpa using hQ line)

theorem linesAre_ofError (hQ : ∀ t, Q (.text t)) (line : String) : (ofError line).LinesAre Q := by
  simpa [LinesAre, render, ofError] using hQ line

theorem linesAre_combine {r r' : Result Place} (h : r.LinesAre Q) (h' : r'.LinesAre Q) :
    (r.combine r').LinesAre Q := by
  intro l hl
  have hmem : l ∈ r.render ∨ l ∈ r'.render := by
    simp only [render, combine, List.mem_append] at hl ⊢
    exact or_or_or_comm.mp hl
  exact hmem.elim (h l) (h' l)

end Result

namespace Session

variable {s s' : Session} {reg : Registry}

theorem sourcesAre_done (h : s.SourcesAre Q) {r : Result Place} (hr : r.LinesAre Q) :
    Outcome.SourcesAre Q (s.done r) := by
  refine ⟨h, ?_⟩
  rintro r' ⟨⟩
  exact hr

theorem sourcesAre_ofError (h : s.SourcesAre Q) (line : String) :
    Outcome.SourcesAre Q (s.done (.ofError line)) :=
  sourcesAre_done h (Result.linesAre_ofError h.texts line)

theorem sourcesAre_ofLine (h : s.SourcesAre Q) (line : String) :
    Outcome.SourcesAre Q (s.done (.ofLine line)) :=
  sourcesAre_done h (Result.linesAre_ofLine h.texts line)

theorem sourcesAre_ofData (h : s.SourcesAre Q) (data : Option Place) :
    Outcome.SourcesAre Q (s.done { data }) :=
  sourcesAre_done h (Result.linesAre_data data)

theorem sourcesAre_failed (h : s.SourcesAre Q) (failure : Failure) :
    Outcome.SourcesAre Q (s, .error failure) := ⟨h, nofun⟩

theorem sourcesAre_create {start place : Place} {segments : List String} {kind : Kind}
    (h : s.SourcesAre Q) (hc : s.create start segments kind = .ok (s', place)) :
    s'.SourcesAre Q := by
  obtain ⟨t, ht, rfl⟩ := create_eq_ok_iff.mp hc
  have hfiles := Tree.linesAre_create h.files ht
  obtain ⟨parent, -, -, -, rfl, -⟩ := Tree.create_eq_ok_iff.mp ht
  exact ⟨h.texts, hfiles, h.label, h.user⟩

/-! ## Commands -/

theorem sourcesAre_make (h : s.SourcesAre Q) (segments : List String) (kind : Kind) :
    (s.make segments kind).SourcesAre Q := by
  unfold make
  split
  · rename_i hc
    exact sourcesAre_ofData (sourcesAre_create h hc) _
  · exact sourcesAre_ofError h _
  · exact sourcesAre_failed h _

theorem sourcesAre_andThen {o : Outcome} {next : Session → Outcome} (h : o.SourcesAre Q)
    (hnext : ∀ s, s.SourcesAre Q → (next s).SourcesAre Q) : (o.andThen next).SourcesAre Q := by
  obtain ⟨s, result⟩ := o
  cases result with
  | error failure => exact h
  | ok first =>
      obtain ⟨hs, hothers⟩ := hnext s h.1
      refine ⟨hs, fun r hr ↦ ?_⟩
      cases ho : (next s).2 with
      | error failure => simp [Outcome.andThen, ho, Except.map] at hr
      | ok others =>
          simp only [Outcome.andThen, ho, Except.map, Except.ok.injEq] at hr
          subst hr
          exact Result.linesAre_combine (h.2 first rfl) (hothers others ho)

theorem sourcesAre_each {one : Session → String → Outcome}
    (hone : ∀ s path, s.SourcesAre Q → (one s path).SourcesAre Q) (h : s.SourcesAre Q)
    (paths : List String) : (s.each one paths).SourcesAre Q := by
  induction paths generalizing s with
  | nil => exact sourcesAre_ofData h none
  | cons path paths ih =>
      rw [each_cons]
      exact sourcesAre_andThen (hone s path h) fun _ hs ↦ ih hs

theorem sourcesAre_showValue (h : s.SourcesAre Q) {group : Nat} {v : Json}
    (hv : v.LinesIn Q group) : (s.showValue group v).SourcesAre Q := by
  unfold showValue
  split
  · rename_i out hout
    exact sourcesAre_done h (Result.linesAre_out (hv out hout))
  · exact sourcesAre_failed h _

theorem linesIn_path (h : s.SourcesAre Q) (place : Place) :
    (s.tree.path place).LinesIn Q Tree.labelGroup := by
  unfold Tree.path
  split
  · exact h.label
  · exact Json.linesAre_text h.texts _ Tree.labelGroup

theorem sourcesAre_listOne (h : s.SourcesAre Q) (several : Bool) (path : String) :
    (s.listOne several path).SourcesAre Q := by
  unfold listOne
  split
  · exact sourcesAre_ofLine h _
  · exact sourcesAre_ofError h _

theorem sourcesAre_catOne (h : s.SourcesAre Q) (path : String) : (s.catOne path).SourcesAre Q := by
  apply sourcesAre_done h
  split
  · exact Result.linesAre_ofError h.texts _
  · rename_i place _
    split
    · rename_i name lines stamp hfile
      have hlines : s.tree.lines? place = some lines := by
        simp [Tree.lines?, hfile, Node.lines?]
      exact Result.linesAre_out (h.files.of_lines? hlines)
    · exact Result.linesAre_ofError h.texts _
    · exact Result.linesAre_data none

theorem sourcesAre_touchOne (h : s.SourcesAre Q) (path : String) :
    (s.touchOne path).SourcesAre Q := by
  unfold touchOne
  split
  · exact sourcesAre_make h _ _
  · split
    · exact sourcesAre_ofData h none
    · rename_i place _ _
      exact sourcesAre_ofData (s := { s with tree := s.tree.touch place })
        ⟨h.texts, Tree.linesAre_touch h.files, h.label, h.user⟩ _

theorem sourcesAre_mkdirOne (h : s.SourcesAre Q) (path : String) :
    (s.mkdirOne path).SourcesAre Q := by
  unfold mkdirOne
  split
  · exact sourcesAre_ofData h none
  · exact sourcesAre_make h _ _

theorem sourcesAre_run (b : Builtin) (listing : List String) (cmd : Command) (h : s.SourcesAre Q) :
    (b.run listing s cmd).SourcesAre Q := by
  cases b with
  | clear => exact sourcesAre_ofData (s := s.draw .clear) ⟨h.texts, h.files, h.label, h.user⟩ none
  | pwd => exact sourcesAre_showValue h (linesIn_path h _)
  | whoami => exact sourcesAre_showValue h h.user
  | help =>
      apply sourcesAre_done h
      apply Result.linesAre_out
      intro l hl
      rcases List.mem_cons.mp hl with rfl | hl
      · exact h.texts _
      · obtain ⟨text, -, rfl⟩ := List.mem_map.mp hl
        exact h.texts _
  | echo => exact sourcesAre_ofLine h _
  | cd =>
      have hmove (place : Place) : (s.changeDirectory place).SourcesAre Q :=
        ⟨h.texts, h.files, h.label, h.user⟩
      simp only [Builtin.run, cd]
      split
      · exact sourcesAre_ofData (hmove _) none
      · split
        · exact sourcesAre_ofData (hmove _) none
        · exact sourcesAre_ofError h _
  | ls =>
      simp only [Builtin.run, ls]
      split
      · split
        · exact sourcesAre_ofLine h _
        · exact sourcesAre_failed h _
      · exact sourcesAre_each (fun _ path hs ↦ sourcesAre_listOne hs _ path) h _
  | cat => exact sourcesAre_each (fun _ path hs ↦ sourcesAre_catOne hs path) h _
  | touch => exact sourcesAre_each (fun _ path hs ↦ sourcesAre_touchOne hs path) h _
  | mkdir => exact sourcesAre_each (fun _ path hs ↦ sourcesAre_mkdirOne hs path) h _
  | vi =>
      have hopen (segments : List String) (file : Option Place) :
          (s.openEditor segments file).SourcesAre Q := ⟨h.texts, h.files, h.label, h.user⟩
      simp only [Builtin.run, vi]
      split
      · exact sourcesAre_ofError h _
      · exact sourcesAre_ofData (hopen _ _) _

/-! ## Lines -/

theorem sourcesAre_settle {o : Outcome} (h : o.SourcesAre Q) (cmd : Command) :
    (settle cmd o).1.SourcesAre Q ∧ (settle cmd o).2.LinesAre Q := by
  unfold settle
  split
  · exact ⟨h.1, h.2 _ rfl⟩
  · exact ⟨h.1, Result.linesAre_ofError h.1.texts _⟩
  · exact ⟨⟨h.1.texts, h.1.files, h.1.label, h.1.user⟩, Result.linesAre_ofError h.1.texts _⟩

theorem sourcesAre_dispatch (hreg : reg.OfBuiltins) (h : s.SourcesAre Q) (cmd : Command) :
    (s.dispatch reg cmd).1.SourcesAre Q ∧ (s.dispatch reg cmd).2.LinesAre Q := by
  have hnote (r : Log.Record) : (s.note r).SourcesAre Q := ⟨h.texts, h.files, h.label, h.user⟩
  unfold dispatch
  split
  · exact ⟨h, Result.linesAre_data none⟩
  · split
    · exact ⟨hnote _, Result.linesAre_ofError h.texts _⟩
    · rename_i spec hspec
      obtain ⟨b, hb⟩ := hreg spec (List.mem_of_find?_eq_some hspec)
      rw [hb]
      exact sourcesAre_settle (sourcesAre_run b reg.listing cmd (hnote _)) cmd

theorem sourcesAre_redirectTarget (h : s.SourcesAre Q) (target : String) :
    (s.redirectTarget target).1.SourcesAre Q := by
  unfold redirectTarget
  split
  · exact h
  · split
    · exact h
    · split
      · rename_i hc
        exact sourcesAre_create h hc
      · exact ⟨h.texts, h.files, h.label, h.user⟩
      · exact h

theorem sourcesAre_deliver (h : s.SourcesAre Q) {lines : List Line} (hl : ∀ l ∈ lines, Q l)
    (mode : RedirectMode) (place : Place) : (s.deliver mode place lines).SourcesAre Q := by
  cases mode with
  | truncate => exact ⟨h.texts, Tree.linesAre_write h.files hl, h.label, h.user⟩
  | append => exact ⟨h.texts, Tree.linesAre_append h.files hl, h.label, h.user⟩

theorem sourcesAre_redirect (h : s.SourcesAre Q) {inner : Result Place} (hi : inner.LinesAre Q)
    (r : Redirect) : (s.redirect r inner).SourcesAre Q := by
  have htarget := sourcesAre_redirectTarget h r.target
  have hout : ∀ l ∈ inner.out, Q l := fun l hl ↦ hi l (List.mem_append_left _ hl)
  have herr : ∀ l ∈ inner.err, Q l := fun l hl ↦ hi l (List.mem_append_right _ hl)
  unfold redirect
  split
  · rename_i hs
    rw [hs] at htarget
    exact sourcesAre_done (sourcesAre_deliver htarget hout _ _)
      (by simpa [Result.LinesAre, Result.render] using herr)
  · rename_i hs
    rw [hs] at htarget
    exact sourcesAre_ofError htarget _
  · rename_i hs
    rw [hs] at htarget
    exact sourcesAre_failed htarget _

theorem sourcesAre_execute (hreg : reg.OfBuiltins) (line : String) (h : s.SourcesAre Q) :
    (s.execute reg line).SourcesAre Q := by
  refine execute_preserves (I := Outcome.SourcesAre Q) ?_ ?_ ?_ line
  · intro line error
    exact sourcesAre_ofError (s := s.note _) ⟨h.texts, h.files, h.label, h.user⟩ _
  · intro cmd
    obtain ⟨hs, hresult⟩ := sourcesAre_dispatch hreg h cmd
    exact sourcesAre_done hs hresult
  · intro s' r inner hinner
    exact sourcesAre_redirect hinner.1 (hinner.2 inner rfl) r

theorem linesAre_execute (hreg : reg.OfBuiltins) (line : String) (h : s.LinesAre Q) :
    (s.execute reg line).LinesAre Q := by
  have hsources : s.SourcesAre Q := ⟨h.texts, h.files, h.label _, h.user _⟩
  have hsettings : (s.execute reg line).1.settings = s.settings :=
    (congrArg Session.settings (frame_execute hreg line s) :)
  obtain ⟨hs, hresult⟩ := sourcesAre_execute hreg line hsources
  refine ⟨⟨h.texts, hs.files, ?_, ?_⟩, hresult⟩
  · rw [label_execute hreg]
    exact h.label
  · rw [hsettings]
    exact h.user

/-! ## The editor -/

/-- All lines that a session holds are of a sort, with those of the editor. -/
structure Holds (Q : Line → Prop) (s : Session) : Prop extends s.SourcesAre Q where
  editor : ∀ e, s.editor = some e → ∀ l ∈ e.lines, Q l

theorem sourcesAre_editorAt (h : s.SourcesAre Q) (path : String) :
    ∀ l ∈ (s.editorAt path).lines, Q l := by
  intro l hl
  by_cases hnil : ((s.fileAt path).bind s.tree.lines?).getD [] = []
  · rw [editorAt, hnil] at hl
    rw [List.mem_singleton.mp hl]
    exact h.texts ""
  · rw [editorAt, Editor.lines_ofLines _ _ _ hnil] at hl
    cases hlines : (s.fileAt path).bind s.tree.lines? with
    | none => exact absurd (by rw [hlines]; rfl) hnil
    | some lines =>
        rw [hlines] at hl
        obtain ⟨place, -, hfile⟩ := Option.bind_eq_some_iff.mp hlines
        exact h.files.of_lines? hfile l hl

theorem holds_of_core (hcore : s'.core = s.core) (h : s.Holds Q) : s'.Holds Q := by
  have htree : s'.tree = s.tree := (congrArg Session.tree hcore :)
  have hsettings : s'.settings = s.settings := (congrArg Session.settings hcore :)
  have hgroup : s'.userGroup = s.userGroup := (congrArg Session.userGroup hcore :)
  have heditor : s'.editor = s.editor := (congrArg Session.editor hcore :)
  refine ⟨⟨h.texts, htree ▸ h.files, htree ▸ h.label, ?_⟩, heditor ▸ h.editor⟩
  rw [hsettings, hgroup]
  exact h.user

theorem holds_execute (hreg : reg.OfBuiltins) (line : String) (h : s.Holds Q) :
    (s.execute reg line).1.Holds Q := by
  obtain ⟨hsources, -⟩ := sourcesAre_execute hreg line h.toSourcesAre
  refine ⟨hsources, fun e he ↦ ?_⟩
  rcases editor_execute hreg line s with hsame | ⟨path, hopened⟩
  · exact h.editor e (hsame ▸ he)
  · cases hopened.symm.trans he
    exact sourcesAre_editorAt h.toSourcesAre path

theorem holds_of_editor {e : Editor} (h : s.SourcesAre Q) (he : ∀ l ∈ e.lines, Q l) :
    ({ s with editor := some e } : Session).Holds Q := by
  refine ⟨⟨h.texts, h.files, h.label, h.user⟩, ?_⟩
  rintro _ ⟨rfl⟩
  exact he

theorem holds_save {e : Editor} (h : s.SourcesAre Q) (he : ∀ l ∈ e.lines, Q l) :
    (s.save e).1.Holds Q := by
  unfold save
  split
  · exact holds_of_editor h he
  · exact holds_of_editor h he
  · rename_i s' place hf
    have hs' : s'.SourcesAre Q := by
      unfold fileFor at hf
      split at hf
      · cases hf
        exact h
      · exact sourcesAre_create h hf
    exact ⟨⟨hs'.texts, Tree.linesAre_write hs'.files he, hs'.label, hs'.user⟩,
      fun _ hst ↦ Option.some.inj hst ▸ he⟩

theorem holds_closeEditor (h : s.SourcesAre Q) : s.closeEditor.1.Holds Q := by
  unfold closeEditor
  dsimp only
  split <;> exact ⟨⟨h.texts, h.files, h.label, h.user⟩, nofun⟩

theorem holds_runEx {e : Editor} (h : s.SourcesAre Q) (he : ∀ l ∈ e.lines, Q l)
    (command : String) : (s.runEx e command).1.Holds Q := by
  have hsave := holds_save h he
  unfold runEx
  split
  · split <;> (rename_i hs; rwa [hs] at hsave)
  · split
    · rename_i hs
      rw [hs] at hsave
      exact holds_closeEditor hsave.toSourcesAre
    · rename_i hs
      rwa [hs] at hsave
    · rename_i hs
      rwa [hs] at hsave
  · split
    · exact holds_of_editor h he
    · exact holds_closeEditor h
  · exact holds_closeEditor h
  · exact holds_of_editor h he

end Session

end TreeShell
