import TreeShell.Proofs.Session.Coherence
import TreeShell.Proofs.Session.Shown
import TreeShell.Proofs.Session.Takeover

/-!
# The same list everywhere

A list may be held by files, the editor and the settings, and it may be on the screen. In a session
that has come about by itself it reads the same in all of these places, and those of its marks that
belong to a setting stand for items of that setting. So to let everything see a list that was not
changed changes nothing.
-/

namespace TreeShell

open Function (update)
open TreeShell.Tree (Changes)

variable {contents : Mark → Option (List Json)} {mark : Mark} {items : List Json}

/-! ## Lines -/

namespace Line

variable {l changed : Line}

/-- A line is no list, or it reads as its mark does; a mark that is not in use reads as nothing. -/
def Reads (contents : Mark → Option (List Json)) (l : Line) : Prop :=
  ∀ mark items, l = .list mark items → contents mark = some items

theorem Flat.reads (h : l.Flat) : l.Reads contents := fun mark items hl ↦ absurd hl (h mark items)

theorem reads_update_self (contents : Mark → Option (List Json)) (mark : Mark)
    (items : List Json) : (list mark items).Reads (update contents mark (some items)) := by
  rintro _ _ ⟨rfl, rfl⟩
  exact Function.update_self mark (some items) contents

theorem Reads.after (h : l.Reads contents) (mark : Mark) (items : List Json) :
    ((list mark items).after l).Reads (update contents mark (some items)) := by
  cases l with
  | text s => exact Flat.reads nofun
  | other v => exact Flat.reads nofun
  | list n old =>
      rw [Line.after]
      split_ifs with hmn
      · exact reads_update_self contents mark items
      · rintro _ _ ⟨rfl, rfl⟩
        rw [Function.update_of_ne (Ne.symm hmn)]
        exact h n old rfl

theorem Reads.after_eq (h : l.Reads contents) (hchanged : changed.Reads contents) :
    changed.after l = l := by
  cases changed with
  | text s => rfl
  | other v => rfl
  | list m items =>
      cases l with
      | text s => rfl
      | other v => rfl
      | list n old =>
          rw [Line.after]
          split_ifs with hmn
          · subst hmn
            cases (hchanged m items rfl).symm.trans (h m old rfl)
            rfl
          · rfl

end Line

namespace Json

variable {group i : Nat} {v : Json}

def listAt? (v : Json) (i : Nat) : Option (List Json) :=
  match v with
  | .list vs =>
      match vs[i]? with
      | some (.list items) => some items
      | _ => none
  | _ => none

theorem listAt?_eq_some_iff :
    v.listAt? i = some items ↔ ∃ vs, v = .list vs ∧ vs[i]? = some (.list items) := by
  cases v with
  | list vs => cases h : vs[i]? with
    | none => simp [listAt?, h]
    | some item => cases item <;> simp [listAt?, h]
  | _ => simp [listAt?]

def Marks (contents : Mark → Option (List Json)) (group : Nat) (v : Json) : Prop :=
  ∀ i, contents ⟨group, i⟩ = v.listAt? i

theorem Marks.linesIn (h : v.Marks contents group) :
    v.LinesIn (Line.Reads contents) group := by
  intro out hout l hl
  by_cases hlist : ∃ vs, v = .list vs
  · obtain ⟨vs, rfl⟩ := hlist
    cases hout
    obtain ⟨i, hi, rfl⟩ := List.mem_mapIdx.mp hl
    intro mark items hitem
    obtain ⟨rfl, hvs⟩ := Line.mark_eq_of_ofJson hitem
    rw [h, listAt?_eq_some_iff]
    exact ⟨vs, rfl, by rw [List.getElem?_eq_getElem hi, hvs]⟩
  · have hflat : v.Flat := fun items hv ↦ absurd ⟨items, hv⟩ hlist
    exact (hflat.linesOf hout l hl).reads

theorem Marks.valueAfter (h : v.Marks contents group)
    (hused : mark.group = group → (contents mark).isSome = true) (items : List Json) :
    ((Line.list mark items).valueAfter group v).Marks (update contents mark (some items)) group := by
  intro i
  by_cases hgroup : mark.group = group
  · obtain ⟨old, hold⟩ := Option.isSome_iff_exists.mp (hused hgroup)
    have hat : v.listAt? mark.index = some old := by rw [← h, ← hgroup, hold]
    obtain ⟨vs, rfl, hitem⟩ := listAt?_eq_some_iff.mp hat
    obtain ⟨hlt, -⟩ := List.getElem?_eq_some_iff.mp hitem
    rw [Line.valueAfter, if_pos hgroup]
    by_cases hi : mark.index = i
    · have hmark : (⟨group, i⟩ : Mark) = mark := by rw [← hgroup, ← hi]
      rw [hmark, Function.update_self]
      refine (listAt?_eq_some_iff.mpr ⟨_, rfl, ?_⟩).symm
      rw [← hi, List.getElem?_set_self hlt]
    · have hmark : (⟨group, i⟩ : Mark) ≠ mark := by
        rintro rfl
        exact hi rfl
      rw [Function.update_of_ne hmark, h i]
      simp only [listAt?, List.getElem?_set_ne hi]
  · have hmark : (⟨group, i⟩ : Mark) ≠ mark := by
      rintro rfl
      exact hgroup rfl
    have hv : (Line.list mark items).valueAfter group v = v := by
      cases v with
      | list vs => rw [Line.valueAfter, if_neg hgroup]
      | _ => rfl
    rw [Function.update_of_ne hmark, hv, h i]

theorem Marks.valueAfter_eq (h : v.Marks contents group) (hmark : contents mark = some items) :
    (Line.list mark items).valueAfter group v = v := by
  cases v with
  | list vs =>
      rw [Line.valueAfter]
      split_ifs with hgroup
      · have hat : (Json.list vs).listAt? mark.index = some items := by
          rw [← h, ← hgroup, hmark]
        obtain ⟨_, ⟨⟩, hitem⟩ := listAt?_eq_some_iff.mp hat
        obtain ⟨hlt, hget⟩ := List.getElem?_eq_some_iff.mp hitem
        rw [← hget, List.set_getElem_self]
      · rfl
  | _ => rfl

end Json

/-! ## Trees -/

theorem Tree.after_eq {t : Tree} (hfiles : t.LinesAre (Line.Reads contents))
    (hlabel : t.label.Marks contents labelGroup) (hmark : contents mark = some items) :
    t.after (.list mark items) = t := by
  have hchanged : (Line.list mark items).Reads contents := by
    rintro _ _ ⟨rfl, rfl⟩
    exact hmark
  have hentries : ∀ n ∈ t.entries, n.LinesAre fun l ↦ (Line.list mark items).after l = l := by
    intro n hn place m hm lines hlines l hl
    exact (Node.linesAre_directory_iff.mp hfiles n hn place m hm lines hlines l hl).after_eq hchanged
  rw [Tree.after, hlabel.valueAfter_eq hmark, Node.mapLinesAll_eq_self hentries]

theorem Editor.after_eq {e : Editor} {changed : Line} (h : ∀ l ∈ e.lines, changed.after l = l) :
    e.after changed = e := by
  have hearlier : e.earlier.map changed.after = e.earlier := by
    refine (List.map_congr_left fun l hl ↦ ?_).trans (List.map_id e.earlier)
    exact h l (List.mem_append_left _ hl)
  have hline : changed.after e.line = e.line := h _ (List.mem_append_right _ List.mem_cons_self)
  rw [after, hearlier, hline]

/-! ## Sessions -/

namespace Session

variable {s s' : Session} {reg : Registry} {e : Editor}

def marking (s : Session) : Json × ShellSettings × Nat × Nat :=
  (s.tree.label, s.settings, s.userGroup, s.freeGroup)

structure Marks (contents : Mark → Option (List Json)) (s : Session) : Prop where
  label : s.tree.label.Marks contents Tree.labelGroup
  user : s.settings.user.Marks contents s.userGroup
  labelTaken : Tree.labelGroup < s.freeGroup
  userTaken : s.userGroup < s.freeGroup
  taken : ∀ mark, (contents mark).isSome = true → mark.group < s.freeGroup

structure Concords (contents : Mark → Option (List Json)) (s : Session) : Prop where
  marks : s.Marks contents
  holds : s.Holds (Line.Reads contents)
  shown : s.Shows (Line.Reads contents)

/-- Each mark reads as something or as nothing, and all that the session has goes with that. -/
def Concordant (s : Session) : Prop := ∃ contents, s.Concords contents

theorem Marks.congr (h : s.Marks contents) (hmarking : s'.marking = s.marking) :
    s'.Marks contents := by
  simp only [marking, Prod.mk.injEq] at hmarking
  obtain ⟨hlabel, hsettings, huser, hfree⟩ := hmarking
  refine ⟨?_, ?_, ?_, ?_, ?_⟩
  · rw [hlabel]
    exact h.label
  · rw [hsettings, huser]
    exact h.user
  · rw [hfree]
    exact h.labelTaken
  · rw [huser, hfree]
    exact h.userTaken
  · rw [hfree]
    exact h.taken

/-! ## Changing a list -/

theorem shownLines_share (s : Session) (changed : Line) :
    (s.share changed).shownLines = s.shownLines.map changed.after := by
  have hline (d : Drawing) : (d.after changed).line? = d.line?.map changed.after := by
    cases d <;> rfl
  rw [shownLines, screen_share, List.filterMap_map, shownLines, List.map_filterMap]
  exact congrArg (List.filterMap · s.screen) (funext hline)

/-- A key leaves a last line that is no list, or a list with a mark that was in use or is free. -/
theorem concordant_share (h : s.Concords contents)
    (hearlier : ∀ l ∈ e.earlier, l.Reads contents)
    (hline : e.line.Within fun mark ↦
      (contents mark).isSome = true ∨ mark.group = s.freeGroup) :
    (({ s with editor := some e } : Session).share e.line).Concordant := by
  have hsources := h.holds.toSourcesAre
  by_cases hflat : e.line.Flat
  · have hholds := holds_share_flat hsources hearlier hflat.reads hflat
    rw [share_eq_self hflat] at hholds ⊢
    exact ⟨contents, h.marks.congr rfl, hholds, h.shown⟩
  · obtain ⟨mark, items, hlast⟩ := Line.exists_of_not_flat hflat
    -- A mark of a setting is not free, so that it was in use.
    have hused {group : Nat} (htaken : group < s.freeGroup) (hgroup : mark.group = group) :
        (contents mark).isSome = true := by
      rcases hline mark items hlast with hused | hfree
      · exact hused
      · omega
    have hlabel := h.marks.label.valueAfter (hused h.marks.labelTaken) items
    have huser := h.marks.user.valueAfter (hused h.marks.userTaken) items
    have hafter (l : Line) (hl : l.Reads contents) := hl.after mark items
    rw [hlast]
    refine ⟨update contents mark (some items), ⟨hlabel, huser, ?_, ?_, ?_⟩,
      holds_share_list hsources hearlier hlast (Line.reads_update_self contents mark items) hafter
        hlabel.linesIn huser.linesIn, ?_⟩
    · exact h.marks.labelTaken.trans_le (le_max_left _ _)
    · exact h.marks.userTaken.trans_le (le_max_left _ _)
    · intro m hm
      by_cases hsame : m = mark
      · subst hsame
        exact (Nat.lt_succ_self m.group).trans_le (le_max_right _ _)
      · rw [Function.update_of_ne hsame] at hm
        exact (h.marks.taken m hm).trans_le (le_max_left _ _)
    · intro l hl
      rw [shownLines_share] at hl
      obtain ⟨old, hold, rfl⟩ := List.mem_map.mp hl
      exact hafter old (h.shown old hold)

/-- Everything has seen the list that the editor has at the cursor. -/
theorem Concordant.share_eq (h : s.Concordant) (he : s.editor = some e) : s.share e.line = s := by
  obtain ⟨contents, h⟩ := h
  by_cases hflat : e.line.Flat
  · exact share_eq_self hflat
  · obtain ⟨mark, items, hlast⟩ := Line.exists_of_not_flat hflat
    have hlines := h.holds.editor e he
    have hline : (Line.list mark items).Reads contents := by
      rw [← hlast]
      exact hlines e.line (List.mem_append_right _ List.mem_cons_self)
    have hmark := hline mark items rfl
    have htree : s.tree.after (.list mark items) = s.tree :=
      Tree.after_eq h.holds.files h.marks.label hmark
    have huser : (Line.list mark items).valueAfter s.userGroup s.settings.user =
        s.settings.user := h.marks.user.valueAfter_eq hmark
    have hfree : max s.freeGroup (mark.group + 1) = s.freeGroup := by
      have htaken := h.marks.taken mark (by rw [hmark]; rfl)
      omega
    have hscreen : s.screen.map (Drawing.after (.list mark items)) = s.screen := by
      refine (List.map_congr_left fun d hd ↦ Drawing.after_eq ?_).trans (List.map_id s.screen)
      rintro l rfl
      have hl := h.shown l (List.mem_filterMap.mpr ⟨.line l, hd, rfl⟩)
      exact hl.after_eq hline
    have heditor : s.editor.map (Editor.after (.list mark items)) = s.editor := by
      rw [he, Option.map_some, Editor.after_eq fun l hl ↦ (hlines l hl).after_eq hline]
    rw [hlast, share]
    simp only [htree, huser, hfree, hscreen, heditor]

/-! ## Steps -/

theorem marking_of_apart (hapart : s'.apart = s.apart) (hlabel : s'.tree.label = s.tree.label) :
    s'.marking = s.marking := by
  have hsettings : s'.settings = s.settings := (congrArg Session.settings hapart :)
  have huser : s'.userGroup = s.userGroup := (congrArg Session.userGroup hapart :)
  have hfree : s'.freeGroup = s.freeGroup := (congrArg Session.freeGroup hapart :)
  rw [marking, marking, hlabel, hsettings, huser, hfree]

theorem marking_closeEditor (s : Session) : s.closeEditor.1.marking = s.marking := by
  unfold closeEditor
  dsimp only
  split <;> rfl

theorem marking_runEx (s : Session) (e : Editor) (command : String) :
    (s.runEx e command).1.marking = s.marking := by
  have hchanges : Changes (fun _ _ _ _ ↦ True) (fun _ ↦ False) s.tree (s.runEx e command).1.tree :=
    changes_runEx s e command fun _ _ ↦ trivial
  have hlabel := hchanges.label
  rcases runEx_cases s e command with ⟨-, -, -, hapart⟩ | ⟨s', hclosed, hapart⟩
  · exact marking_of_apart hapart hlabel
  · rw [hclosed, tree_closeEditor] at hlabel
    rw [hclosed, marking_closeEditor]
    exact marking_of_apart hapart hlabel

theorem marking_execute (hreg : reg.OfBuiltins) (line : String) (s : Session) :
    (s.execute reg line).1.marking = s.marking := by
  have hframe := frame_execute hreg line s
  have hsettings : (s.execute reg line).1.settings = s.settings :=
    (congrArg Session.settings hframe :)
  have huser : (s.execute reg line).1.userGroup = s.userGroup :=
    (congrArg Session.userGroup hframe :)
  have hfree : (s.execute reg line).1.freeGroup = s.freeGroup :=
    (congrArg Session.freeGroup hframe :)
  rw [marking, marking, label_execute hreg, hsettings, huser, hfree]

theorem Concords.execute (hreg : reg.OfBuiltins) (line : String) (h : s.Concords contents) :
    (s.execute reg line).1.Concords contents where
  marks := h.marks.congr (marking_execute hreg line s)
  holds := holds_execute hreg line h.holds
  shown := by
    rw [Shows, shownLines_execute hreg]
    exact h.shown

theorem Concords.shellKey (hreg : reg.OfBuiltins) (k : KeyEvent) (h : s.Concords contents) :
    (s.shellKey reg k).1.Concords contents where
  marks := by
    refine shellKey_preserves (I := Marks contents) ?_ ?_ k h.marks
    · exact fun hcore hs ↦ hs.congr (congrArg marking hcore :)
    · exact fun line hs ↦ hs.congr (marking_execute hreg line _)
  holds := shellKey_preserves holds_of_core (holds_execute hreg) k h.holds
  shown := shows_shellKey hreg k h.holds.toSourcesAre h.shown

theorem Concords.runEx (command : String) (h : s.Concords contents)
    (he : ∀ l ∈ e.lines, l.Reads contents) : (s.runEx e command).1.Concords contents where
  marks := h.marks.congr (marking_runEx s e command)
  holds := holds_runEx h.holds.toSourcesAre he command
  shown := shows_runEx h.holds.texts e command h.shown

theorem concordant_editorKey (he : s.editor = some e) (k : KeyEvent) (h : s.Concordant) :
    (s.editorKey e k).1.Concordant := by
  obtain ⟨contents, h⟩ := h
  have hlines := h.holds.editor e he
  unfold editorKey
  split
  · rename_i e' hpress
    refine concordant_share h (fun l hl ↦ hlines l ?_) ?_
    · exact Editor.earlier_subset_of_press hpress hl
    · have hwithin : e.Within fun mark ↦
          (contents mark).isSome = true ∨ mark.group = s.freeGroup := by
        intro l hl mark items hlist
        rw [hlines l hl mark items hlist]
        exact .inl rfl
      exact (Editor.within_iff.mp (Editor.within_press hwithin (fun _ _ ↦ .inr rfl) hpress)).2
  · rename_i e' command hpress
    obtain ⟨-, -, rfl, rfl⟩ := Editor.press_eq_ok_some hpress
    exact ⟨contents, h.runEx e.command hlines⟩
  · exact ⟨contents, h⟩

theorem concordant_press (hreg : reg.OfBuiltins) (k : KeyEvent) (h : s.Concordant) :
    (s.press reg k).1.Concordant := by
  unfold press
  split
  · rename_i e he
    exact concordant_editorKey he k h
  · obtain ⟨contents, h⟩ := h
    exact ⟨contents, h.shellKey hreg k⟩

theorem concordant_step (hreg : reg.OfBuiltins) (x : Step) (h : s.Concordant) :
    (s.step reg x).Concordant := by
  cases x with
  | key k => exact concordant_press hreg k h
  | feed line => exact pressAll_preserves reg (fun _ k hs ↦ concordant_press hreg k hs) h _
  | execute line =>
      obtain ⟨contents, h⟩ := h
      exact ⟨contents, h.execute hreg line⟩
  | complete =>
      obtain ⟨contents, h⟩ := h
      have hcore : (s.complete reg).1.core = s.core := core_complete s
      exact ⟨contents, h.marks.congr (congrArg marking hcore :), holds_of_core hcore h.holds,
        shows_complete h.holds.texts reg h.shown⟩
  | ex command =>
      cases he : s.editor with
      | none =>
          rw [step, he]
          exact h
      | some e =>
          obtain ⟨contents, h⟩ := h
          rw [step, he]
          exact ⟨contents, h.runEx command (h.holds.editor e he)⟩
  | changeDirectory place =>
      obtain ⟨contents, hmarks, ⟨⟨texts, files, label, user⟩, editor⟩, hshown⟩ := h
      exact ⟨contents, hmarks.congr rfl, ⟨⟨texts, files, label, user⟩, editor⟩, hshown⟩

theorem concordant_setUser (user : Json) (h : s.Concordant) : (s.setUser user).Concordant := by
  obtain ⟨contents, h⟩ := h
  -- The items of the new user have marks that were free.
  let contents' (mark : Mark) : Option (List Json) :=
    if mark.group = s.freeGroup then user.listAt? mark.index else contents mark
  have hold {mark : Mark} (hmark : mark.group ≠ s.freeGroup) : contents' mark = contents mark :=
    if_neg hmark
  have hkept (l : Line) (hl : l.Reads contents) : l.Reads contents' := by
    intro mark items hlist
    have hmark := hl mark items hlist
    rw [hold (h.marks.taken mark (by rw [hmark]; rfl)).ne, hmark]
  have hlabel : s.tree.label.Marks contents' Tree.labelGroup := fun i ↦
    (hold h.marks.labelTaken.ne).trans (h.marks.label i)
  have huser : user.Marks contents' s.freeGroup := fun i ↦ if_pos rfl
  refine ⟨contents', ⟨hlabel, huser, ?_, Nat.lt_succ_self _, ?_⟩,
    ⟨⟨fun t ↦ (Line.flat_text t).reads, ?_, hlabel.linesIn, huser.linesIn⟩, ?_⟩, ?_⟩
  · exact h.marks.labelTaken.trans (Nat.lt_succ_self _)
  · intro mark hmark
    by_cases hgroup : mark.group = s.freeGroup
    · exact hgroup ▸ Nat.lt_succ_self _
    · rw [hold hgroup] at hmark
      exact (h.marks.taken mark hmark).trans (Nat.lt_succ_self _)
  · refine Tree.linesAre_iff.mpr fun place lines hlines l hl ↦ ?_
    exact hkept l (h.holds.files.of_lines? hlines l hl)
  · exact fun e he l hl ↦ hkept l (h.holds.editor e he l hl)
  · exact fun l hl ↦ hkept l (h.shown l hl)

theorem concordant_endures (hreg : reg.OfBuiltins) : Endures reg Concordant where
  step x h := concordant_step hreg x h
  raw := fun {s} text h ↦ by
    obtain ⟨contents, h⟩ := h
    have hcore : (s.draw (.raw text)).core = s.core := rfl
    exact ⟨contents, h.marks.congr rfl, holds_of_core hcore h.holds, shows_draw nofun h.shown⟩
  emptied := fun {s} h ↦ by
    obtain ⟨contents, h⟩ := h
    have hcore : ({ s with buffer := "" } : Session).core = s.core := rfl
    exact ⟨contents, h.marks.congr rfl, holds_of_core hcore h.holds, h.shown⟩
  user user h := concordant_setUser user h
  configured _ _ _ h := by
    obtain ⟨contents, ⟨label, user, labelTaken, userTaken, taken⟩,
      ⟨⟨texts, files, labelLines, userLines⟩, editor⟩, shown⟩ := h
    exact ⟨contents, ⟨label, user, labelTaken, userTaken, taken⟩,
      ⟨⟨texts, files, labelLines, userLines⟩, editor⟩, shown⟩

/-- However a session is run, all lines that are the same list read the same. The same holds with
changes of its settings in between (`Endures.events`). -/
theorem concordant_run (hreg : reg.OfBuiltins) (steps : List Step) (h : s.Concordant) :
    (s.run reg steps).Concordant :=
  (concordant_endures hreg).run steps h

theorem concordant_ofTree {tree : Tree} (h : tree.LinesAre Line.Flat) (settings : ShellSettings) :
    (ofTree tree settings).Concordant := by
  -- No marks are in use but those of the label and of the user.
  let contents (mark : Mark) : Option (List Json) :=
    if mark.group = Tree.labelGroup then tree.label.listAt? mark.index
    else if mark.group = 1 then settings.user.listAt? mark.index
    else none
  have hmarks : (ofTree tree settings).Marks contents := by
    refine ⟨fun i ↦ rfl, fun i ↦ rfl, Nat.zero_lt_two, Nat.one_lt_two, ?_⟩
    intro mark hmark
    change mark.group < 2
    by_contra hgroup
    have hlabel : mark.group ≠ Tree.labelGroup := by
      change mark.group ≠ 0
      omega
    have huser : mark.group ≠ 1 := by omega
    simp [contents, hlabel, huser] at hmark
  refine ⟨contents, hmarks, ⟨⟨fun t ↦ (Line.flat_text t).reads, ?_, hmarks.label.linesIn,
    hmarks.user.linesIn⟩, nofun⟩, nofun⟩
  refine Tree.linesAre_iff.mpr fun place lines hlines l hl ↦ ?_
  exact (h.of_lines? hlines l hl).reads

theorem concordant_ofConfig (config : Config) : (ofConfig config).1.Concordant :=
  concordant_ofTree (Tree.linesAre_flat_ofSeed _ _) config.shell

end Session

end TreeShell
