import TreeShell.Proofs.Command.Tokens
import TreeShell.Proofs.Session.Changes
import TreeShell.Proofs.Session.Completion

/-!
# What a tab adds to a line

Behind a command a tab completes what stands behind the last space and the last slash of the line.
All candidates begin with that, and the rest of the only one is added at the end.
-/

namespace TreeShell

namespace Text

/-- A text in two parts, the second of which is its longest end without spaces and slashes. -/
structure Ending (text head last : String) : Prop where
  text_eq : text = head ++ last
  whole : ' ' ∉ last.toList ∧ '/' ∉ last.toList
  longest : ∀ h l, text = h ++ l → ' ' ∉ l.toList ∧ '/' ∉ l.toList → l.length ≤ last.length

variable {text head last : String}

theorem Ending.unique {head' last' : String} (h : Ending text head last)
    (h' : Ending text head' last') : head = head' ∧ last = last' := by
  have hlength : last.toList.length = last'.toList.length := by
    rw [String.length_toList, String.length_toList]
    exact Nat.le_antisymm (h'.longest _ _ h.text_eq h.whole) (h.longest _ _ h'.text_eq h'.whole)
  have heq := congrArg String.toList (h.text_eq.symm.trans h'.text_eq)
  rw [String.toList_append, String.toList_append] at heq
  obtain ⟨hhead, hlast⟩ := List.append_inj' heq hlength
  exact ⟨String.toList_inj.mp hhead, String.toList_inj.mp hlast⟩

theorem ending_of_stop (htext : text = head ++ last)
    (hwhole : ' ' ∉ last.toList ∧ '/' ∉ last.toList)
    (hstop : ∀ c ∈ head.toList.getLast?, c = ' ' ∨ c = '/') : Ending text head last where
  text_eq := htext
  whole := hwhole
  longest h l heq hl := by
    have hlists := congrArg String.toList (htext.symm.trans heq)
    rw [String.toList_append, String.toList_append, List.append_eq_append_iff] at hlists
    rw [← String.length_toList, ← String.length_toList]
    rcases hlists with ⟨between, -, hlast⟩ | ⟨between, hhead, hlonger⟩
    · simp [hlast]
    · -- An end that reaches beyond the stop would hold it.
      rcases List.eq_nil_or_concat between with rfl | ⟨front, c, rfl⟩
      · simp [hlonger]
      · have hc : c ∈ l.toList := by simp [hlonger]
        rcases hstop c (by simp [hhead]) with rfl | rfl
        · exact absurd hc hl.1
        · exact absurd hc hl.2

theorem join_concat (sep : Char) {ps : List String} (hne : ps ≠ []) (last : String) :
    join sep (ps ++ [last]) = join sep ps ++ String.singleton sep ++ last := by
  induction ps with
  | nil => exact absurd rfl hne
  | cons p ps ih =>
      cases ps with
      | nil => rw [List.singleton_append, join_cons_cons, join_singleton, join_singleton]
      | cons q ps =>
          rw [List.cons_append, List.cons_append, join_cons_cons, join_cons_cons,
            ← List.cons_append, ih (List.cons_ne_nil q ps)]
          simp only [String.append_assoc]

structure LastPiece (sep : Char) (text head last : String) : Prop where
  text_eq : text = head ++ last
  stop : ∀ c ∈ head.toList.getLast?, c = sep
  whole : sep ∉ last.toList

theorem exists_lastPiece_of_split {sep : Char} {ps : List String}
    (h : split sep text = ps ++ [last]) : ∃ head, LastPiece sep text head last := by
  have hlast : sep ∉ last.toList := by
    apply not_mem_of_mem_split (s := text)
    rw [h]
    exact List.mem_concat_self
  have htext : join sep (ps ++ [last]) = text := by rw [← h, join_split]
  by_cases hps : ps = []
  · subst hps
    refine ⟨"", ?_, by simp, hlast⟩
    rw [← htext, List.nil_append, join_singleton, String.empty_append]
  · refine ⟨join sep ps ++ String.singleton sep, ?_, by simp, hlast⟩
    rw [← htext, join_concat sep hps]

/-- The last word of a line that does not end with a space stands behind the last space. -/
theorem exists_lastPiece_of_tokens {words : List String} (h : tokens text = words ++ [last])
    (hend : text.toList.getLast? ≠ some ' ') : ∃ head, LastPiece ' ' text head last := by
  obtain ⟨ps, piece, hsplit⟩ : ∃ ps piece, split ' ' text = ps ++ [piece] := by
    rcases List.eq_nil_or_concat' (split ' ' text) with hnil | hconcat
    · simp [tokens, hnil] at h
    · exact hconcat
  obtain ⟨head, hpiece⟩ := exists_lastPiece_of_split hsplit
  have hne : piece ≠ "" := by
    rintro rfl
    have htext : text = head := by rw [hpiece.text_eq, String.append_empty]
    subst htext
    cases hc : text.toList.getLast? with
    | none =>
        have hempty : text = "" := by simpa using hc
        simp [hempty, tokens, split] at h
    | some c => exact hend (by rw [hc, hpiece.stop c hc])
  have hlast : last = piece := by
    rw [tokens, hsplit, List.filter_append, List.filter_cons_of_pos (by simpa using hne)] at h
    exact (List.singleton_inj.mp (List.append_inj' h rfl).2).symm
  exact ⟨head, hlast ▸ hpiece⟩

/-- What stands behind the last slash of what stands behind the last space is the ending. -/
theorem LastPiece.ending {word directory name : String} (hword : LastPiece ' ' text head word)
    (hname : LastPiece '/' word directory name) : Ending text (head ++ directory) name := by
  have hspace : ' ' ∉ name.toList := by
    intro hmem
    apply hword.whole
    rw [hname.text_eq, String.toList_append]
    exact List.mem_append_right _ hmem
  refine ending_of_stop ?_ ⟨hspace, hname.whole⟩ ?_
  · rw [String.append_assoc, ← hname.text_eq, hword.text_eq]
  · intro c hc
    rw [String.toList_append, List.getLast?_append, Option.mem_def, Option.or_eq_some_iff] at hc
    rcases hc with hc | ⟨-, hc⟩
    · exact .inr (hname.stop c hc)
    · exact .inl (hword.stop c hc)

end Text

theorem Path.exists_lastPiece (path : String) :
    ∃ head, Text.LastPiece separator path head (ParsedPath.ofString path).name := by
  apply Text.exists_lastPiece_of_split
  exact (append_splitLast (split_ne_nil path)).symm

namespace Session

variable {s : Session} {reg : Registry} {k : KeyEvent} {line word last : String}

theorem exists_ending_of_tokens {command : String} {args : List String}
    (h : Text.tokens line = command :: args) :
    ∃ head, Text.Ending line head
      (ParsedPath.ofString (if afterSpace line then "" else args.getLastD command)).name := by
  split_ifs with hspace
  · have hlast : line.toList.getLast? = some ' ' := eq_of_beq hspace
    have hstop : ∀ c ∈ line.toList.getLast?, c = ' ' ∨ c = '/' :=
      fun c hc ↦ .inl (Option.some.inj (hc.symm.trans hlast))
    exact ⟨line, Text.ending_of_stop String.append_empty.symm (by decide) hstop⟩
  · obtain ⟨words, hwords⟩ : ∃ words, command :: args = words ++ [args.getLastD command] := by
      rcases List.eq_nil_or_concat' args with rfl | ⟨front, last, rfl⟩
      · exact ⟨[], rfl⟩
      · exact ⟨command :: front, by simp⟩
    have hend : line.toList.getLast? ≠ some ' ' := by simpa [afterSpace] using hspace
    obtain ⟨head, hword⟩ := Text.exists_lastPiece_of_tokens (h.trans hwords) hend
    obtain ⟨directory, hname⟩ := Path.exists_lastPiece (args.getLastD command)
    exact ⟨head ++ directory, hword.ending hname⟩

theorem begins_of_mem_pathOptions {path option : String} {kinds : Option (List Kind)}
    (h : option ∈ s.pathOptions path kinds) :
    (ParsedPath.ofString path).name.toList <+: option.toList := by
  obtain ⟨-, -, -, hbegins⟩ := mem_pathOptions_iff.mp h
  exact hbegins

theorem exists_ending_of_candidates (s : Session) (reg : Registry)
    (h : 2 ≤ (Text.tokens line).length ∨ Text.tokens line ≠ [] ∧ afterSpace line = true) :
    ∃ head, Text.Ending line head (ParsedPath.ofString (s.candidates reg line).word).name ∧
      ∀ c ∈ (s.candidates reg line).names,
        (ParsedPath.ofString (s.candidates reg line).word).name.toList <+: c.toList := by
  cases htokens : Text.tokens line with
  | nil => simp [htokens] at h
  | cons command args =>
      have hbehind : ¬ (args = [] ∧ !afterSpace line) := by
        rintro ⟨rfl, hspace⟩
        rcases h with htwo | ⟨-, hafter⟩
        · simp [htokens] at htwo
        · simp [hafter] at hspace
      obtain ⟨head, hends⟩ := exists_ending_of_tokens htokens
      unfold candidates
      rw [htokens]
      dsimp only
      rw [if_neg hbehind]
      split
      · exact ⟨head, hends, fun c hc ↦ begins_of_mem_pathOptions hc⟩
      · exact ⟨head, hends, fun c hc ↦ begins_of_mem_pathOptions hc⟩

theorem append_insertion {c : String} (hname : (ParsedPath.ofString word).name = last)
    (h : last.toList <+: c.toList) : last ++ insertion word c = c := by
  obtain ⟨rest, hrest⟩ := h
  apply String.toList_inj.mp
  rw [String.toList_append, insertion, Text.dropFirst, String.toList_ofList, hname, ← hrest,
    ← String.length_toList, List.drop_left]

theorem buffer_complete_of_eq {c : String} (h : (s.candidates reg s.buffer).names = [c]) :
    (s.complete reg).1.buffer =
      s.buffer ++ insertion (s.candidates reg s.buffer).word c := by
  unfold complete
  dsimp only
  rw [h]
  rfl

theorem buffer_complete_of_length_ne (h : (s.candidates reg s.buffer).names.length ≠ 1) :
    (s.complete reg).1.buffer = s.buffer := by
  unfold complete
  dsimp only
  split
  · rfl
  · rename_i hone
    simp [hone] at h
  · split
    · split <;> rfl
    · rfl

theorem complete_ok (reg : Registry) {prompt : String} (h : s.prompt = .ok prompt) :
    ∃ c, (s.complete reg).2 = .ok c := by
  unfold complete
  dsimp only
  split
  · exact ⟨_, rfl⟩
  · exact ⟨_, rfl⟩
  · rw [h]
    split
    · exact ⟨_, rfl⟩
    · exact ⟨_, rfl⟩

theorem snd_tab_of_ok {c : Completion} (h : (s.complete reg).2 = .ok c) :
    (s.tab reg).2 = none := by
  unfold tab
  split
  · split
    · rfl
    · rename_i hs
      simp [hs] at h
  · rfl

/-- A tab behind a command leaves the line with its ending replaced by the only candidate, and as it
is if there is not exactly one. The candidates all begin with the ending, so nothing that was typed
is altered. -/
theorem tab_extends_ending (s : Session) (reg : Registry) (hk : k.key = .tab)
    (heditor : s.editor = none) (hon : s.settings.enableAutocomplete.isOn = true)
    (hbehind : 2 ≤ (Text.tokens s.buffer).length ∨
      Text.tokens s.buffer ≠ [] ∧ afterSpace s.buffer = true) :
    let names := (s.candidates reg s.buffer).names
    let s' := (s.press reg k).1
    (∃ head last, Text.Ending s.buffer head last) ∧
      (∀ head last, Text.Ending s.buffer head last →
        (∀ c ∈ names, last.toList <+: c.toList) ∧ ∀ c, names = [c] → s'.buffer = head ++ c) ∧
      (names.length ≠ 1 → s'.buffer = s.buffer) ∧
      s.buffer.toList <+: s'.buffer.toList ∧
      ∀ prompt, s.prompt = .ok prompt → (s.press reg k).2 = none := by
  intro names s'
  have hpress : s.press reg k = s.tab reg := by rw [press_of_shell heditor, shellKey, hk]
  have hs' : s' = (s.complete reg).1 := by
    rw [← fst_tab_of_isOn reg hon, ← hpress]
  obtain ⟨head, hends, hbegins⟩ := exists_ending_of_candidates s reg hbehind
  have hone : ∀ c, names = [c] →
      s'.buffer = s.buffer ++ insertion (s.candidates reg s.buffer).word c := by
    intro c hc
    rw [hs', buffer_complete_of_eq hc]
  have hother : names.length ≠ 1 → s'.buffer = s.buffer := by
    intro hlength
    rw [hs', buffer_complete_of_length_ne hlength]
  refine ⟨⟨_, _, hends⟩, ?_, hother, ?_, ?_⟩
  · intro head' last hends'
    obtain ⟨rfl, hlast⟩ := hends'.unique hends
    have hnames : ∀ c ∈ names, last.toList <+: c.toList := hlast ▸ hbegins
    refine ⟨hnames, fun c hc ↦ ?_⟩
    have hspliced := append_insertion hlast.symm (hnames c (by simp [hc]))
    calc s'.buffer = s.buffer ++ insertion (s.candidates reg s.buffer).word c := hone c hc
      _ = head' ++ last ++ insertion (s.candidates reg s.buffer).word c := by
          rw [← hends'.text_eq]
      _ = head' ++ c := by rw [String.append_assoc, hspliced]
  · by_cases hlength : names.length = 1
    · obtain ⟨c, hc⟩ := List.length_eq_one_iff.mp hlength
      rw [hone c hc, String.toList_append]
      exact List.prefix_append _ _
    · exact hother hlength ▸ List.prefix_rfl
  · intro prompt hprompt
    obtain ⟨c, hc⟩ := complete_ok reg hprompt
    rw [hpress]
    exact snd_tab_of_ok hc

/-- A directory is completed where no file is found, and a line with several candidates stays. -/
theorem tab_behind_cat :
    let s (line : String) : Session := { (ofConfig {}).1 with buffer := line }
    let tab : KeyEvent := .ofKey .tab
    (∀ line, (s line).editor = none ∧ (s line).settings.enableAutocomplete.isOn = true) ∧
      2 ≤ (Text.tokens "cat  ~/pro").length ∧ Text.Ending "cat  ~/pro" "cat  ~/" "pro" ∧
      ((s "cat  ~/pro").press .standard tab).1.buffer = "cat  ~/projects/" ∧
      Text.tokens "cat " ≠ [] ∧ afterSpace "cat " = true ∧
      ((s "cat ").press .standard tab).1.buffer = "cat " := by
  intro s tab
  have hwords : 2 ≤ (Text.tokens "cat  ~/pro").length := by decide
  have hends : Text.Ending "cat  ~/pro" "cat  ~/" "pro" :=
    Text.ending_of_stop (by decide) (by decide) (by simp)
  have hbehind : Text.tokens "cat " ≠ [] ∧ afterSpace "cat " = true := by decide
  obtain ⟨-, hspliced, -⟩ := tab_extends_ending (s "cat  ~/pro") .standard (k := tab) rfl rfl rfl
    (.inl hwords)
  obtain ⟨-, -, hother, -⟩ := tab_extends_ending (s "cat ") .standard (k := tab) rfl rfl rfl
    (.inr hbehind)
  have hone := (hspliced _ _ hends).2
  exact ⟨fun line ↦ ⟨rfl, rfl⟩, hwords, hends, hone "projects/" (by decide +kernel), hbehind.1,
    hbehind.2, hother (by decide +kernel)⟩

end Session

end TreeShell
