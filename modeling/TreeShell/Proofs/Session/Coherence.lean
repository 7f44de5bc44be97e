import TreeShell.Proofs.Session.Flat

/-!
# Lists that are held in common

A line that is a list is held in common by files, the editor and the settings, and its mark tells
where it is the same list. So at any time there is one content for each mark, and every list that a
session holds has the content of its mark. The editor may change one list, or make one with a mark
that is free, and then all that holds it follows. Nothing else that is done to a session changes a
content.
-/

namespace TreeShell

namespace Line

variable {contents contents' : Mark → List Json} {free free' : Nat} {l changed : Line}

/-- A line is no list, or its mark is in use and it has the content of the mark. -/
def Agrees (contents : Mark → List Json) (free : Nat) (l : Line) : Prop :=
  ∀ mark items, l = .list mark items → mark.group < free ∧ items = contents mark

theorem exists_of_not_flat (h : ¬ l.Flat) : ∃ mark items, l = .list mark items := by
  simpa [Flat] using h

theorem Flat.agrees (h : l.Flat) : l.Agrees contents free :=
  fun mark items hl ↦ absurd hl (h mark items)

theorem Agrees.congr (h : l.Agrees contents free)
    (hc : ∀ mark items, l = .list mark items → contents' mark = contents mark)
    (hfree : free ≤ free') : l.Agrees contents' free' := by
  intro mark items hl
  obtain ⟨hgroup, hitems⟩ := h mark items hl
  exact ⟨hgroup.trans_le hfree, hitems.trans (hc mark items hl).symm⟩

theorem Agrees.after_eq (h : l.Agrees contents free) (hchanged : changed.Agrees contents free) :
    changed.after l = l := by
  cases changed with
  | text s => rfl
  | other v => rfl
  | list m items =>
      cases l with
      | text s => rfl
      | other v => rfl
      | list n items' =>
          rw [after]
          split_ifs with hmn
          · subst hmn
            rw [(hchanged m items rfl).2, (h m items' rfl).2]
          · rfl

theorem Agrees.update (h : l.Agrees contents free) {mark : Mark}
    (hne : ∀ items, l ≠ .list mark items) (items : List Json) :
    l.Agrees (Function.update contents mark items) (max free (mark.group + 1)) := by
  refine h.congr ?_ (le_max_left _ _)
  intro m its hl
  refine Function.update_of_ne ?_ _ _
  rintro rfl
  exact hne its hl

theorem agrees_update_self (contents : Mark → List Json) (free : Nat) (mark : Mark)
    (items : List Json) :
    (list mark items).Agrees (Function.update contents mark items)
      (max free (mark.group + 1)) := by
  rintro _ _ ⟨rfl, rfl⟩
  exact ⟨by omega, (Function.update_self mark items contents).symm⟩

theorem Agrees.after (h : l.Agrees contents free) (mark : Mark) (items : List Json) :
    ((list mark items).after l).Agrees (Function.update contents mark items)
      (max free (mark.group + 1)) := by
  cases l with
  | text s => exact Flat.agrees nofun
  | other v => exact Flat.agrees nofun
  | list n old =>
      rw [Line.after]
      split_ifs with hmn
      · exact agrees_update_self contents free mark items
      · refine h.update ?_ items
        rintro its ⟨rfl, rfl⟩
        exact hmn rfl

theorem mark_eq_of_ofJson {mark mark' : Mark} {v : Json} {items : List Json}
    (h : ofJson mark v = .list mark' items) : mark' = mark ∧ v = .list items := by
  cases v <;> cases h
  exact ⟨rfl, rfl⟩

end Line

theorem Editor.earlier_subset_of_press {fresh : Mark} {e e' : Editor} {k : KeyEvent}
    {command : Option String} (h : e.press fresh k = .ok (e', command)) : e'.earlier ⊆ e.lines := by
  have hearlier : e.earlier ⊆ e.lines := List.subset_append_left _ _
  cases takes_press h with
  | begin => exact List.Subset.refl _
  | join => exact fun l hl ↦ hearlier (List.dropLast_subset _ hl)
  | _ => exact hearlier

namespace Json

variable {contents : Mark → List Json} {free group : Nat} {v : Json}

def listAt (v : Json) (i : Nat) : List Json :=
  match v with
  | .list vs =>
      match vs[i]? with
      | some (.list items) => items
      | _ => []
  | _ => []

theorem linesIn_of_items (hitems : ∀ vs, v = .list vs → ∀ i (hi : i < vs.length),
      (Line.ofJson ⟨group, i⟩ vs[i]).Agrees contents free) :
    v.LinesIn (Line.Agrees contents free) group := by
  intro out hout l hl
  by_cases hlist : ∃ vs, v = .list vs
  · obtain ⟨vs, rfl⟩ := hlist
    cases hout
    obtain ⟨i, hi, rfl⟩ := List.mem_mapIdx.mp hl
    exact hitems vs rfl i hi
  · have hflat : v.Flat := fun items hv ↦ absurd ⟨items, hv⟩ hlist
    exact (hflat.linesOf hout l hl).agrees

theorem linesIn_listAt (hgroup : group < free) (hc : ∀ i, contents ⟨group, i⟩ = v.listAt i) :
    v.LinesIn (Line.Agrees contents free) group := by
  refine linesIn_of_items ?_
  rintro vs rfl i hi mark items hl
  obtain ⟨rfl, hitem⟩ := Line.mark_eq_of_ofJson hl
  refine ⟨hgroup, ?_⟩
  rw [hc, listAt, List.getElem?_eq_getElem hi, hitem]

theorem LinesIn.valueAfter (h : v.LinesIn (Line.Agrees contents free) group) (mark : Mark)
    (items : List Json) :
    ((Line.list mark items).valueAfter group v).LinesIn
      (Line.Agrees (Function.update contents mark items) (max free (mark.group + 1))) group := by
  -- An item with another mark is still the item that it was.
  have hother {vs : List Json} (hv : v = .list vs) {i : Nat} (hi : i < vs.length)
      (hne : mark ≠ ⟨group, i⟩) : (Line.ofJson ⟨group, i⟩ vs[i]).Agrees
        (Function.update contents mark items) (max free (mark.group + 1)) := by
    subst hv
    refine (h _ rfl _ (List.mem_mapIdx.mpr ⟨i, hi, rfl⟩)).update ?_ items
    intro its hl
    exact hne (Line.mark_eq_of_ofJson hl).1
  refine linesIn_of_items ?_
  intro ws hws i hi
  cases v with
  | list vs =>
      by_cases hgroup : mark.group = group
      · rw [Line.valueAfter, if_pos hgroup] at hws
        cases hws
        rw [List.length_set] at hi
        by_cases hmark : mark.index = i
        · have hsame : mark = ⟨group, i⟩ := by rw [← hgroup, ← hmark]
          simp only [hmark, List.getElem_set_self]
          rw [← hsame]
          exact Line.agrees_update_self contents free mark items
        · rw [List.getElem_set_ne hmark]
          exact hother rfl hi fun hsame ↦ hmark (congrArg Mark.index hsame)
      · rw [Line.valueAfter, if_neg hgroup] at hws
        cases hws
        exact hother rfl hi fun hsame ↦ hgroup (congrArg Mark.group hsame)
  | _ => cases hws

end Json

namespace Session

open Function (update)

variable {s s' : Session} {reg : Registry} {e : Editor}

/-- Every mark has a content, and the lists that a session holds have the contents of theirs. -/
def Coherent (s : Session) : Prop := ∃ contents, s.Holds (Line.Agrees contents s.freeGroup)

/-- When the last line of an editor is no list, the editor alone changes. -/
theorem holds_share_flat {Q : Line → Prop} (h : s.SourcesAre Q) (hearlier : ∀ l ∈ e.earlier, Q l)
    (hline : Q e.line) (hflat : e.line.Flat) :
    (({ s with editor := some e } : Session).share e.line).Holds Q := by
  rw [share_eq_self hflat]
  refine holds_of_editor h fun l hl ↦ ?_
  rcases List.mem_append.mp hl with hl | hl
  · exact hearlier l hl
  · exact List.mem_singleton.mp hl ▸ hline

/-- When a list changes at the end of an editor, every line is of the sort that it is of then. -/
theorem holds_share_list {Q Q' : Line → Prop} {mark : Mark} {items : List Json}
    (h : s.SourcesAre Q) (hearlier : ∀ l ∈ e.earlier, Q l) (hline : e.line = .list mark items)
    (hchanged : Q' (.list mark items)) (hafter : ∀ l, Q l → Q' ((Line.list mark items).after l))
    (hlabel : ((Line.list mark items).valueAfter Tree.labelGroup s.tree.label).LinesIn Q'
      Tree.labelGroup)
    (huser : ((Line.list mark items).valueAfter s.userGroup s.settings.user).LinesIn Q'
      s.userGroup) :
    (({ s with editor := some e } : Session).share (.list mark items)).Holds Q' := by
  refine ⟨⟨fun t ↦ hafter (.text t) (h.texts t), Tree.linesAre_after h.files hafter, hlabel,
    huser⟩, ?_⟩
  rintro _ ⟨rfl⟩ l hl
  rw [Editor.lines_after] at hl
  obtain ⟨m, hm, rfl⟩ := List.mem_map.mp hl
  rcases List.mem_append.mp hm with hm | hm
  · exact hafter m (hearlier m hm)
  · rw [List.mem_singleton.mp hm, hline, Line.after_self]
    exact hchanged

/-- What a key makes of the last line is what everything that holds that line reads then. -/
theorem coherent_share {contents : Mark → List Json}
    (h : s.SourcesAre (Line.Agrees contents s.freeGroup))
    (he : ∀ l ∈ e.earlier, l.Agrees contents s.freeGroup) :
    (({ s with editor := some e } : Session).share e.line).Coherent := by
  by_cases hflat : e.line.Flat
  · have hholds := holds_share_flat h he hflat.agrees hflat
    rw [share_eq_self hflat] at hholds ⊢
    exact ⟨contents, hholds⟩
  · obtain ⟨mark, items, hline⟩ := Line.exists_of_not_flat hflat
    rw [hline]
    exact ⟨update contents mark items, holds_share_list h he hline
      (Line.agrees_update_self contents _ mark items) (fun l hl ↦ hl.after mark items)
      (h.label.valueAfter mark items) (h.user.valueAfter mark items)⟩

theorem Coherent.congr (h : s.Coherent) (htree : s'.tree = s.tree)
    (hsettings : s'.settings = s.settings) (huser : s'.userGroup = s.userGroup)
    (hfree : s'.freeGroup = s.freeGroup)
    (heditor : ∀ e', s'.editor = some e' → ∃ e, s.editor = some e ∧ e'.lines = e.lines) :
    s'.Coherent := by
  obtain ⟨contents, hholds⟩ := h
  refine ⟨contents, ?_⟩
  rw [hfree]
  refine ⟨⟨hholds.texts, htree ▸ hholds.files, htree ▸ hholds.label, ?_⟩, ?_⟩
  · rw [hsettings, huser]
    exact hholds.user
  · intro e' he'
    obtain ⟨e, he, hlines⟩ := heditor e' he'
    exact hlines ▸ hholds.editor e he

theorem coherent_of_core (hcore : s'.core = s.core) (h : s.Coherent) : s'.Coherent := by
  have heditor : s'.editor = s.editor := (congrArg Session.editor hcore :)
  refine h.congr (congrArg Session.tree hcore :) (congrArg Session.settings hcore :)
    (congrArg Session.userGroup hcore :) (congrArg Session.freeGroup hcore :) ?_
  exact fun e he ↦ ⟨e, heditor ▸ he, rfl⟩

theorem coherent_changeDirectory (place : Place) (h : s.Coherent) :
    (s.changeDirectory place).Coherent :=
  h.congr rfl rfl rfl rfl fun e he ↦ ⟨e, he, rfl⟩

theorem coherent_vi (path : String) (more : List String) (h : s.Coherent) :
    (s.vi (path :: more)).1.Coherent := by
  obtain ⟨contents, hholds⟩ := h
  refine ⟨contents, ⟨hholds.texts, hholds.files, hholds.label, hholds.user⟩, ?_⟩
  rintro _ ⟨rfl⟩
  exact sourcesAre_editorAt hholds.toSourcesAre path

theorem coherent_execute (hreg : reg.OfBuiltins) (line : String) (h : s.Coherent) :
    (s.execute reg line).1.Coherent := by
  obtain ⟨contents, hholds⟩ := h
  have hfree : (s.execute reg line).1.freeGroup = s.freeGroup :=
    (congrArg Session.freeGroup (frame_execute hreg line s) :)
  refine ⟨contents, ?_⟩
  rw [hfree]
  exact holds_execute hreg line hholds

theorem freeGroup_runEx (s : Session) (e : Editor) (command : String) :
    (s.runEx e command).1.freeGroup = s.freeGroup := by
  have hclose (s : Session) : s.closeEditor.1.freeGroup = s.freeGroup := by
    unfold closeEditor
    dsimp only
    split <;> rfl
  rcases runEx_cases s e command with ⟨-, -, -, hapart⟩ | ⟨s', hclosed, hapart⟩
  · exact (congrArg Session.freeGroup hapart :)
  · rw [hclosed, hclose]
    exact (congrArg Session.freeGroup hapart :)

theorem coherent_runEx (he : s.editor = some e) {d : Editor} (hlines : d.lines = e.lines)
    (command : String) (h : s.Coherent) : (s.runEx d command).1.Coherent := by
  obtain ⟨contents, hholds⟩ := h
  refine ⟨contents, ?_⟩
  rw [freeGroup_runEx]
  exact holds_runEx hholds.toSourcesAre (hlines ▸ hholds.editor e he) command

theorem coherent_editorKey (he : s.editor = some e) (k : KeyEvent) (h : s.Coherent) :
    (s.editorKey e k).1.Coherent := by
  unfold editorKey
  split
  · rename_i e' hpress
    obtain ⟨contents, hholds⟩ := h
    refine coherent_share hholds.toSourcesAre fun l hl ↦ hholds.editor e he l ?_
    exact Editor.earlier_subset_of_press hpress hl
  · rename_i e' command hpress
    obtain ⟨-, -, rfl, rfl⟩ := Editor.press_eq_ok_some hpress
    exact coherent_runEx (d := { e with command := "" }) he rfl e.command h
  · exact h

theorem coherent_press (hreg : reg.OfBuiltins) (k : KeyEvent) (h : s.Coherent) :
    (s.press reg k).1.Coherent := by
  unfold press
  split
  · rename_i e he
    exact coherent_editorKey he k h
  · exact shellKey_preserves coherent_of_core (coherent_execute hreg) k h

theorem coherent_step (hreg : reg.OfBuiltins) (x : Step) (h : s.Coherent) :
    (s.step reg x).Coherent := by
  refine step_preserves coherent_of_core (coherent_execute hreg) (coherent_press hreg) ?_ x ?_ h
  · intro s e he command hs
    exact coherent_runEx he rfl command hs
  · exact fun place _ ↦ coherent_changeDirectory place h

theorem coherent_setUser (user : Json) (h : s.Coherent) : (s.setUser user).Coherent := by
  obtain ⟨contents, hholds⟩ := h
  let contents' (mark : Mark) : List Json :=
    if mark.group = s.freeGroup then user.listAt mark.index else contents mark
  have hkept (l : Line) (hl : l.Agrees contents s.freeGroup) :
      l.Agrees contents' (s.freeGroup + 1) := by
    refine hl.congr ?_ (Nat.le_succ _)
    intro mark items hlist
    exact if_neg (hl mark items hlist).1.ne
  refine ⟨contents', ⟨fun t ↦ (Line.flat_text t).agrees, ?_, ?_, ?_⟩, ?_⟩
  · refine Tree.linesAre_iff.mpr fun place lines hlines l hl ↦ ?_
    exact hkept l (hholds.files.of_lines? hlines l hl)
  · exact fun out hout l hl ↦ hkept l (hholds.label out hout l hl)
  · exact Json.linesIn_listAt (Nat.lt_succ_self _) fun i ↦ if_pos rfl
  · exact fun e he l hl ↦ hkept l (hholds.editor e he l hl)

theorem coherent_endures (hreg : reg.OfBuiltins) : Endures reg Coherent where
  step x h := coherent_step hreg x h
  raw _ h := h.congr rfl rfl rfl rfl fun e he ↦ ⟨e, he, rfl⟩
  emptied h := h.congr rfl rfl rfl rfl fun e he ↦ ⟨e, he, rfl⟩
  user user h := coherent_setUser user h
  configured _ _ _ h := by
    obtain ⟨contents, ⟨texts, files, label, user⟩, editor⟩ := h
    exact ⟨contents, ⟨texts, files, label, user⟩, editor⟩

/-- However a session is run, all lines that are the same list have the same content. The same holds
with changes of its settings in between (`Endures.events`). -/
theorem coherent_run (hreg : reg.OfBuiltins) (steps : List Step) (h : s.Coherent) :
    (s.run reg steps).Coherent :=
  (coherent_endures hreg).run steps h

/-- The items of the label have the marks of one group, those of the user have the marks of
another, and the files of a seed hold no lists. -/
theorem coherent_ofConfig (config : Config) : (ofConfig config).1.Coherent := by
  let contents (mark : Mark) : List Json :=
    if mark.group = Tree.labelGroup then config.filesystem.rootLabel.listAt mark.index
    else config.shell.user.listAt mark.index
  refine ⟨contents, ⟨fun t ↦ (Line.flat_text t).agrees, ?_, ?_, ?_⟩, nofun⟩
  · refine Tree.linesAre_iff.mpr fun place lines hlines l hl ↦ ?_
    exact ((Tree.linesAre_flat_ofSeed _ _).of_lines? hlines l hl).agrees
  · exact Json.linesIn_listAt Nat.zero_lt_two fun i ↦ rfl
  · exact Json.linesIn_listAt Nat.one_lt_two fun i ↦ rfl

end Session

end TreeShell
