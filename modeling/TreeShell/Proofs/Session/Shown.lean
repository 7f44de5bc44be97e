import TreeShell.Proofs.Session.Output

/-!
# What is on the screen

The lines on the screen are texts of the shell, prompts with what was typed among them, and lines
that commands put out. Executing a line draws none; that is left to the key that submits it.
-/

namespace TreeShell

def Drawing.line? : Drawing → Option Line
  | line l => some l
  | _ => none

namespace Session

variable {Q : Line → Prop} {s s' : Session} {reg : Registry}

def shownLines (s : Session) : List Line := s.screen.filterMap Drawing.line?

def Shows (Q : Line → Prop) (s : Session) : Prop := ∀ l ∈ s.shownLines, Q l

theorem shows_of_screen (hscreen : s'.screen = s.screen) (h : s.Shows Q) : s'.Shows Q := by
  rwa [Shows, shownLines, hscreen]

theorem shows_draw {d : Drawing} (hd : ∀ l, d.line? = some l → Q l) (h : s.Shows Q) :
    (s.draw d).Shows Q := by
  intro l hl
  rw [shownLines, draw, List.filterMap_append, List.mem_append] at hl
  rcases hl with hl | hl
  · exact h l hl
  · obtain ⟨d', hd', hline⟩ := List.mem_filterMap.mp hl
    cases List.mem_singleton.mp hd'
    exact hd l hline

theorem shows_print (hQ : ∀ t, Q (.text t)) (text : String) (h : s.Shows Q) :
    (s.print text).Shows Q := by
  refine shows_draw ?_ h
  rintro _ ⟨⟩
  exact hQ text

theorem shows_printAll {lines : List Line} (hl : ∀ l ∈ lines, Q l) (h : s.Shows Q) :
    (s.printAll lines).1.Shows Q := by
  induction lines generalizing s with
  | nil => exact h
  | cons line lines ih =>
      obtain ⟨hline, hothers⟩ := List.forall_mem_cons.mp hl
      unfold printAll
      split
      · exact h
      · refine ih hothers (shows_draw ?_ h)
        rintro _ ⟨⟩
        exact hline

/-! ## Lines and keys -/

theorem keeps_shownLines (hreg : reg.OfBuiltins) : reg.Keeps shownLines := by
  intro spec hspec listing s cmd
  obtain ⟨b, hb⟩ := hreg spec hspec
  rw [hb]
  change (b.run listing s cmd).1.shownLines = s.shownLines
  by_cases hvi : b = .vi
  · subst hvi
    simp only [Builtin.run, vi]
    split <;> rfl
  · by_cases hclear : b = .clear
    · subst hclear
      exact (List.filterMap_append ..).trans (List.append_nil _)
    · have hscreen : (b.run listing s cmd).1.screen = s.screen :=
        (congrArg Session.screen (offsite_run hvi hclear listing s cmd) :)
      rw [shownLines, shownLines, hscreen]

theorem shownLines_execute (hreg : reg.OfBuiltins) (line : String) (s : Session) :
    (s.execute reg line).1.shownLines = s.shownLines := by
  refine keeps_execute (keeps_shownLines hreg) (fun h ↦ ?_) line s
  have hscreen := congrArg Session.screen h
  exact congrArg (List.filterMap Drawing.line?) hscreen

theorem shows_complete (hQ : ∀ t, Q (.text t)) (reg : Registry) (h : s.Shows Q) :
    (s.complete reg).1.Shows Q := by
  unfold complete
  dsimp only
  split
  · exact h
  · exact h
  · split
    · split
      · exact h
      · exact shows_draw nofun (shows_print hQ _ h)
    · exact h

theorem shows_shown {o : Outcome} (ho : o.SourcesAre Q) (h : o.1.Shows Q) :
    (shown o).1.Shows Q := by
  obtain ⟨s, result⟩ := o
  cases result with
  | ok r => exact shows_printAll (ho.2 r rfl) h
  | error failure => exact h

theorem shows_submit (hreg : reg.OfBuiltins) (prompt line : String) (hs : s.SourcesAre Q)
    (h : s.Shows Q) : (s.submit reg prompt line).1.Shows Q := by
  rw [submit_eq_shown]
  refine shows_shown (sourcesAre_execute hreg line ⟨hs.texts, hs.files, hs.label, hs.user⟩) ?_
  rw [Shows, shownLines_execute hreg]
  exact shows_print hs.texts (prompt ++ line) h

theorem shows_enter (hreg : reg.OfBuiltins) (hs : s.SourcesAre Q) (h : s.Shows Q) :
    (s.enter reg).1.Shows Q := by
  unfold enter
  split
  · exact h
  · rename_i prompt _
    split
    · exact shows_print hs.texts prompt h
    · have hsubmit := shows_submit hreg prompt s.buffer hs h
      split <;> (rename_i hs'; rw [hs'] at hsubmit; exact hsubmit)

theorem shows_shellKey (hreg : reg.OfBuiltins) (k : KeyEvent) (hs : s.SourcesAre Q)
    (h : s.Shows Q) : (s.shellKey reg k).1.Shows Q := by
  unfold shellKey
  split
  · rcases fst_tab reg s with htab | htab <;> rw [htab]
    · exact h
    · exact shows_complete hs.texts reg h
  · dsimp only
    split
    · exact shows_enter hreg (s := { s with tabPending := false })
        ⟨hs.texts, hs.files, hs.label, hs.user⟩ h
    · exact h
    · unfold older
      split <;> exact h
    · unfold newer
      split <;> exact h
    · exact h

/-! ## The editor -/

theorem shows_closeEditor (hQ : ∀ t, Q (.text t)) (h : s.Shows Q) : s.closeEditor.1.Shows Q := by
  unfold closeEditor
  dsimp only
  split
  · exact h
  · exact shows_print hQ _ h

theorem shows_runEx (hQ : ∀ t, Q (.text t)) (e : Editor) (command : String) (h : s.Shows Q) :
    (s.runEx e command).1.Shows Q := by
  rcases runEx_cases s e command with ⟨-, -, -, hapart⟩ | ⟨s', hclosed, hapart⟩
  · exact shows_of_screen (congrArg Session.screen hapart :) h
  · rw [hclosed]
    exact shows_closeEditor hQ (shows_of_screen (congrArg Session.screen hapart :) h)

end Session

end TreeShell
