import TreeShell.Proofs.Session.Ambiguity
import TreeShell.Proofs.Session.Completion
import TreeShell.Proofs.Session.Typing
import TreeShell.Proofs.Session.Uncommitted
import TreeShell.Proofs.Session.Word
import TreeShell.Proofs.Tree.Levels

/-!
# Tabs until nothing is left to complete

A tab that completes the name of a directory leaves the cursor in that directory, one level farther
down. The name of a file or of a command has no such sequel. So tabs in a row change the line at
most as often as there are levels in the tree, and once they stop they have stopped for good.
-/

namespace TreeShell

namespace Path

theorem replaceLast_append (path a b : String) :
    replaceLast path (a ++ b) = replaceLast path a ++ b := by
  rw [replaceLast, replaceLast, join, join]
  by_cases hdir : (ParsedPath.ofString path).directory = []
  · rw [hdir, List.nil_append, List.nil_append, Text.join_singleton, Text.join_singleton]
  · rw [Text.join_concat _ hdir, Text.join_concat _ hdir, ← String.append_assoc]

theorem replaceLast_self (path : String) :
    replaceLast path (ParsedPath.ofString path).name = path := by
  have hcut : (splitLast (split path)).1 ++ [(splitLast (split path)).2] = split path :=
    append_splitLast (split_ne_nil path)
  change join ((splitLast (split path)).1 ++ [(splitLast (split path)).2]) = path
  rw [hcut, join_split]

theorem ofString_replaceLast_directory (path : String) {name : String}
    (h : separator ∉ name.toList) :
    ParsedPath.ofString (replaceLast path (name ++ "/")) =
      ⟨(ParsedPath.ofString path).directory ++ [name], ""⟩ := by
  have hsplit : split (replaceLast path (name ++ "/")) =
      ((split path).dropLast ++ [name]) ++ [""] := by
    rw [split_replaceLast, split_append_separator h, List.append_assoc]
    rfl
  simp [ParsedPath.ofString, splitLast, hsplit]

def IsWord (name : String) : Prop := IsOrdinary name ∧ ' ' ∉ name.toList

instance (name : String) : Decidable (IsWord name) := by
  unfold IsWord
  infer_instance

end Path

namespace Tree

variable {t : Tree} {start dir place : Place} {segments : List String} {name : String}

theorem length_of_resolve_concat (hnames : t.NamesAre (· ≠ "")) (hname : Path.IsOrdinary name)
    (hdir : t.resolve start segments (some .directory) = some dir)
    (h : t.resolve start (segments ++ [name]) (some .directory) = some place) :
    place.length = dir.length + 1 := by
  have hlast : Path.lastName (segments ++ [name]) = name := by
    simp [Path.lastName, Path.splitLast]
  have hfree : ¬ Path.IsReserved name := (Path.isOrdinary_iff.mp hname).2
  obtain ⟨dir', hdir', hchild⟩ :=
    child?_of_resolve hnames (by rw [hlast]; exact hname.1) (by rwa [hlast]) h
  rw [List.dropLast_concat, hdir, Option.some.injEq] at hdir'
  obtain ⟨i, -, rfl, -⟩ := signature?_of_child? hchild
  rw [← hdir', List.length_append, List.length_singleton]

/-- Below the directory in which the last segment of a path is looked up there are at most `n`
levels. -/
def LevelsBelow (t : Tree) (start : Place) (path : String) (n : Nat) : Prop :=
  ∀ dir, t.resolve start (ParsedPath.ofString path).directory (some .directory) = some dir →
    t.height ≤ dir.length + n

theorem LevelsBelow.replaceLast {path : String} {n : Nat} (h : t.LevelsBelow start path (n + 1))
    (hnames : t.NamesAre (· ≠ "")) (hname : Path.IsOrdinary name)
    (hdir : t.resolve start (ParsedPath.ofString path).directory (some .directory) = some dir) :
    t.LevelsBelow start (Path.replaceLast path (name ++ "/")) n := by
  intro place hplace
  rw [Path.ofString_replaceLast_directory path hname.2.1] at hplace
  have hlength := length_of_resolve_concat hnames hname hdir hplace
  have hlevels := h dir hdir
  omega

end Tree

def Registry.NamesAreWhole (reg : Registry) : Prop :=
  ∀ name ∈ reg.names, ' ' ∉ name.toList ∧ Path.separator ∉ name.toList

namespace Session

variable {s s' : Session} {reg : Registry} {k : KeyEvent} {ks : List KeyEvent} {n : Nat}
  {head word option command prompt : String} {args : List String} {kinds : Option (List Kind)}

/-! ## Lines that have settled -/

def Settled (reg : Registry) (s : Session) : Prop := (s.complete reg).1.buffer = s.buffer

/-- Of tabs in a row at most `n` change the line, and those come first. -/
def SettlesWithin (reg : Registry) (n : Nat) (s : Session) : Prop :=
  ∃ m ≤ n, ∀ j, (s.tabs reg (j + 1)).buffer ≠ (s.tabs reg j).buffer ↔ j < m

theorem candidates_congr (h : s'.location = s.location) (line : String) :
    s'.candidates reg line = s.candidates reg line := by
  obtain ⟨htree, hcwd⟩ := Prod.mk.inj h
  unfold candidates pathOptions
  rw [htree, hcwd]

theorem buffer_complete_congr (h : s'.location = s.location) (hbuffer : s'.buffer = s.buffer) :
    (s'.complete reg).1.buffer = (s.complete reg).1.buffer := by
  have hcandidates : s'.candidates reg s'.buffer = s.candidates reg s.buffer := by
    rw [hbuffer, candidates_congr h]
  by_cases hlength : (s.candidates reg s.buffer).names.length = 1
  · obtain ⟨option, hone⟩ := List.length_eq_one_iff.mp hlength
    rw [buffer_complete_of_eq hone, buffer_complete_of_eq (hcandidates ▸ hone), hcandidates,
      hbuffer]
  · rw [buffer_complete_of_length_ne hlength,
      buffer_complete_of_length_ne (hcandidates ▸ hlength), hbuffer]

theorem Settled.complete (h : s.Settled reg) : (s.complete reg).1.Settled reg := by
  rw [Settled, buffer_complete_congr (location_complete s) h]

theorem Settled.buffer_tabs (h : s.Settled reg) (n : Nat) :
    (s.tabs reg (n + 1)).buffer = (s.tabs reg n).buffer := by
  induction n generalizing s with
  | zero => exact h
  | succ n ih => exact ih h.complete

theorem Settled.settlesWithin (h : s.Settled reg) (n : Nat) : s.SettlesWithin reg n :=
  ⟨0, Nat.zero_le n, fun j ↦ iff_of_false (not_not.mpr (h.buffer_tabs j)) (Nat.not_lt_zero j)⟩

theorem SettlesWithin.of_complete (h : (s.complete reg).1.SettlesWithin reg n) :
    s.SettlesWithin reg (n + 1) := by
  by_cases hs : s.Settled reg
  · exact hs.settlesWithin (n + 1)
  · obtain ⟨m, hm, hchanges⟩ := h
    refine ⟨m + 1, Nat.succ_le_succ hm, fun j ↦ ?_⟩
    cases j with
    | zero => exact iff_of_true hs (Nat.succ_pos m)
    | succ j => exact (hchanges j).trans Nat.succ_lt_succ_iff.symm

theorem settled_or_single (reg : Registry) (s : Session) :
    s.Settled reg ∨ ∃ option, (s.candidates reg s.buffer).names = [option] := by
  by_cases hlength : (s.candidates reg s.buffer).names.length = 1
  · exact .inr (List.length_eq_one_iff.mp hlength)
  · exact .inl (buffer_complete_of_length_ne hlength)

/-! ## One completion after the other -/

theorem beginningWith_beginningWith {start : String} (h : start.toList <+: option.toList)
    (names : List String) :
    beginningWith option (beginningWith start names) = beginningWith option names := by
  rw [beginningWith, beginningWith, beginningWith, List.filter_filter]
  apply List.filter_congr
  intro name _
  simp only [Text.beginsWith, Bool.and_eq_left_iff_imp, List.isPrefixOf_iff_prefix]
  exact h.trans

theorem append_insertion_eq_replaceLast
    (h : (ParsedPath.ofString word).name.toList <+: option.toList) :
    word ++ insertion word option = Path.replaceLast word option := by
  have happend := Path.replaceLast_append word (ParsedPath.ofString word).name
    (insertion word option)
  rwa [append_insertion rfl h, Path.replaceLast_self, eq_comm] at happend

/-- After a completion the word before the cursor ends with what it was completed to. -/
theorem lastPiece_complete (hword : Text.LastPiece ' ' s.buffer head word)
    (hnames : (s.candidates reg s.buffer).names = [option])
    (hbegins : (ParsedPath.ofString word).name.toList <+: option.toList)
    (hspace : ' ' ∉ option.toList) :
    Text.LastPiece ' ' (s.complete reg).1.buffer head (Path.replaceLast word option) := by
  have hinserted := append_insertion_eq_replaceLast hbegins
  refine ⟨?_, hword.stop, ?_⟩
  · rw [buffer_complete_of_eq hnames, word_candidates hword, ← hinserted, ← String.append_assoc,
      ← hword.text_eq]
  · rw [← hinserted, String.toList_append, List.mem_append, not_or]
    refine ⟨hword.whole, fun hmem ↦ hspace ?_⟩
    rw [insertion, Text.dropFirst, String.toList_ofList] at hmem
    exact List.mem_of_mem_drop hmem

theorem settled_of_name (hword : Text.LastPiece ' ' s.buffer head word)
    (hnames : (s.candidates reg s.buffer).names = [option])
    (hname : (ParsedPath.ofString word).name = option) : s.Settled reg := by
  have hempty : insertion word option = "" := by
    simpa using append_insertion hname List.prefix_rfl
  rw [Settled, buffer_complete_of_eq hnames, word_candidates hword, hempty, String.append_empty]

theorem pathOptions_replaceLast (hslash : Path.separator ∉ option.toList)
    (hbegins : (ParsedPath.ofString word).name.toList <+: option.toList) :
    s.pathOptions (Path.replaceLast word option) kinds =
      beginningWith option (s.pathOptions word kinds) := by
  have hparsed : ParsedPath.ofString (Path.replaceLast word option) =
      ⟨(ParsedPath.ofString word).directory, option⟩ := Path.ofString_replaceLast word hslash
  unfold pathOptions
  rw [hparsed]
  dsimp only
  cases s.tree.resolve s.cwd (ParsedPath.ofString word).directory (some .directory) with
  | none => rfl
  | some place => exact (beginningWith_beginningWith hbegins _).symm

theorem beginningWith_self (option : String) : beginningWith option [option] = [option] := by
  simp [beginningWith, Text.beginsWith]

theorem exists_pathOptions_of_argumentOptions (h : s.argumentOptions kinds word = [option]) :
    ∃ kinds', s.pathOptions word kinds' = [option] := by
  unfold argumentOptions at h
  split at h
  · exact ⟨_, h⟩
  · exact ⟨_, h⟩

theorem argumentOptions_replaceLast (hslash : Path.separator ∉ option.toList)
    (hbegins : (ParsedPath.ofString word).name.toList <+: option.toList)
    (hone : s.argumentOptions kinds word = [option]) :
    s.argumentOptions kinds (Path.replaceLast word option) = [option] := by
  unfold argumentOptions at hone ⊢
  rw [pathOptions_replaceLast hslash hbegins, pathOptions_replaceLast hslash hbegins]
  split at hone
  · rename_i hnone
    rw [hnone, hone, beginningWith_self]
    rfl
  · rw [hone, beginningWith_self]

theorem exists_child_of_argumentOptions (h : s.argumentOptions kinds word = [option]) :
    ∃ dir kinds' child, s.tree.resolve s.cwd (ParsedPath.ofString word).directory
        (some .directory) = some dir ∧
      child ∈ s.tree.childrenOf dir kinds' ∧ child.2.listed = option ∧
      (ParsedPath.ofString word).name.toList <+: option.toList := by
  obtain ⟨kinds', hkinds⟩ := exists_pathOptions_of_argumentOptions h
  have hmem : option ∈ s.pathOptions word kinds' := by simp [hkinds]
  obtain ⟨dir, hdir, ⟨child, hchild, hlisted⟩, hbegins⟩ := mem_pathOptions_iff.mp hmem
  exact ⟨dir, kinds', child, hdir, hchild, hlisted, hbegins⟩

theorem argumentOptions_complete :
    (s.complete reg).1.argumentOptions kinds word = s.argumentOptions kinds word := by
  obtain ⟨buffer, tabPending, screen, log, h⟩ := exists_complete reg s
  rw [h]
  rfl

/-! ## Names of commands and files -/

theorem settled_complete_of_blank (hreg : reg.NamesAreWhole)
    (hword : Text.LastPiece ' ' s.buffer head word) (hblank : Text.tokens head = [])
    (hnames : (s.candidates reg s.buffer).names = [option]) : (s.complete reg).1.Settled reg := by
  have hone : beginningWith word reg.names = [option] := by
    rwa [candidates_of_blank hword hblank] at hnames
  have hmem : option ∈ beginningWith word reg.names := by simp [hone]
  rw [beginningWith, List.mem_filter, Text.beginsWith, List.isPrefixOf_iff_prefix] at hmem
  obtain ⟨hname, hbegins⟩ := hmem
  obtain ⟨hspace, hslash⟩ := hreg option hname
  have hparsed : ParsedPath.ofString word = ⟨[], word⟩ :=
    ofString_of_not_mem fun hmem ↦ hslash (hbegins.subset hmem)
  have hwhole : Path.replaceLast word option = option := by
    rw [Path.replaceLast, hparsed]
    exact Text.join_singleton _ option
  have hnext := lastPiece_complete hword hnames (by rwa [hparsed]) hspace
  rw [hwhole] at hnext
  apply settled_of_name hnext
  · rw [candidates_of_blank hnext hblank, ← beginningWith_beginningWith hbegins, hone,
      beginningWith_self]
  · rw [ofString_of_not_mem hslash]

theorem settled_complete_of_file (hword : Text.LastPiece ' ' s.buffer head word)
    (hcommand : Text.tokens head = command :: args)
    (hnames : (s.candidates reg s.buffer).names = [option]) (hspace : ' ' ∉ option.toList)
    (hslash : Path.separator ∉ option.toList) : (s.complete reg).1.Settled reg := by
  have hone : s.argumentOptions (reg.kindsFor command) word = [option] := by
    rwa [candidates_of_command hword hcommand] at hnames
  obtain ⟨-, -, -, -, -, -, hbegins⟩ := exists_child_of_argumentOptions hone
  have hnext := lastPiece_complete hword hnames hbegins hspace
  apply settled_of_name hnext
  · rw [candidates_of_command hnext hcommand, argumentOptions_complete,
      argumentOptions_replaceLast hslash hbegins hone]
  · rw [Path.ofString_replaceLast word hslash]

/-! ## The way down -/

/-- The only candidate behind a command stands for a child, and so its directory is not among the
deepest places of the tree. -/
theorem exists_child_of_single (htree : s.tree.NamesAre Path.IsWord)
    (hword : Text.LastPiece ' ' s.buffer head word)
    (hcommand : Text.tokens head = command :: args)
    (hnames : (s.candidates reg s.buffer).names = [option]) :
    ∃ dir n, s.tree.resolve s.cwd (ParsedPath.ofString word).directory (some .directory) =
        some dir ∧
      dir.length < s.tree.height ∧ Path.IsWord (Node.name n) ∧ n.listed = option ∧
      (ParsedPath.ofString word).name.toList <+: option.toList := by
  rw [candidates_of_command hword hcommand] at hnames
  obtain ⟨dir, kinds', ⟨place, n⟩, hdir, hchild, hlisted, hbegins⟩ :=
    exists_child_of_argumentOptions hnames
  obtain ⟨i, rfl, hi, -⟩ := Tree.mem_childrenOf_iff.mp hchild
  have hat : s.tree.at? (dir ++ [i]) = some n := Tree.at?_of_children hi
  have hdeep := Tree.length_le_height (Option.isSome_iff_exists.mpr ⟨_, hat⟩)
  rw [List.length_append, List.length_singleton] at hdeep
  have hname : Path.IsWord n.name :=
    htree dir _ (Tree.mem_signatures (Tree.signature?_of_children hi))
  exact ⟨dir, n, hdir, hdeep, hname, hlisted, hbegins⟩

/-- Behind a command each name of a directory that is completed leaves one level less. -/
theorem settlesWithin_of_levelsBelow (htree : s.tree.NamesAre Path.IsWord)
    (hword : Text.LastPiece ' ' s.buffer head word)
    (hcommand : Text.tokens head = command :: args)
    (hlevels : s.tree.LevelsBelow s.cwd word n) : s.SettlesWithin reg n := by
  induction n using Nat.strongRecOn generalizing s word with
  | ind n ih =>
      rcases settled_or_single reg s with hsettled | ⟨option, hnames⟩
      · exact hsettled.settlesWithin n
      obtain ⟨dir, child, hdir, hdeep, hchild, rfl, hbegins⟩ :=
        exists_child_of_single htree hword hcommand hnames
      have hleft : s.tree.height ≤ dir.length + n := hlevels dir hdir
      obtain ⟨n, rfl⟩ : ∃ m, n = m + 1 := ⟨n - 1, by omega⟩
      apply SettlesWithin.of_complete
      cases child with
      | file name lines stamp =>
          obtain ⟨hordinary, hspace⟩ : Path.IsWord name := hchild
          have hslash : Path.separator ∉ name.toList := hordinary.2.1
          exact (settled_complete_of_file hword hcommand hnames hspace hslash).settlesWithin n
      | directory name cs =>
          obtain ⟨hordinary, hspace⟩ : Path.IsWord name := hchild
          have hlisted : ' ' ∉ (name ++ "/").toList := by simpa using hspace
          have hnext := lastPiece_complete hword hnames hbegins hlisted
          have hfewer : s.tree.LevelsBelow s.cwd (Path.replaceLast word (name ++ "/")) n :=
            hlevels.replaceLast (fun place sig hsig ↦ (htree place sig hsig).1.1) hordinary hdir
          obtain ⟨buffer, tabPending, screen, log, hs'⟩ := exists_complete reg s
          rw [hs'] at hnext ⊢
          exact ih n (Nat.lt_succ_self n) htree hnext hfewer

theorem settled_complete_of_text (htree : s.tree.NamesAre Path.IsWord) (hreg : reg.NamesAreWhole)
    (hnames : (s.candidates reg s.buffer).names = [option])
    (hkind : Path.optionKind option = .text) : (s.complete reg).1.Settled reg := by
  obtain ⟨head, word, hword⟩ := Text.exists_lastPiece ' ' s.buffer
  cases hhead : Text.tokens head with
  | nil => exact settled_complete_of_blank hreg hword hhead hnames
  | cons command args =>
      obtain ⟨dir, child, -, -, ⟨hordinary, hspace⟩, rfl, -⟩ :=
        exists_child_of_single htree hword hhead hnames
      rw [Node.optionKind_listed hordinary.2.1] at hkind
      cases child with
      | file name lines stamp =>
          exact settled_complete_of_file hword hhead hnames hspace hordinary.2.1
      | directory name cs => cases hkind

theorem settlesWithin_height (htree : s.tree.NamesAre Path.IsWord) (hreg : reg.NamesAreWhole) :
    s.SettlesWithin reg (s.tree.height + 1) := by
  obtain ⟨head, word, hword⟩ := Text.exists_lastPiece ' ' s.buffer
  cases hhead : Text.tokens head with
  | nil =>
      rcases settled_or_single reg s with hsettled | ⟨option, hnames⟩
      · exact hsettled.settlesWithin _
      · apply SettlesWithin.of_complete
        exact (settled_complete_of_blank hreg hword hhead hnames).settlesWithin _
  | cons command args =>
      apply settlesWithin_of_levelsBelow htree hword hhead
      intro dir _
      omega

/-! ## Tabs in a row -/

theorem tree_tabs (reg : Registry) (s : Session) (n : Nat) :
    (s.tabs reg n).tree = s.tree := by
  induction n with
  | zero => rfl
  | succ n ih => rw [tabs_succ', tree_complete, ih]

theorem press_tab_of_editor (reg : Registry) (heditor : s.editor.isSome = true)
    (hk : k.key = .tab) :
    (s.press reg k).1.editor.isSome = true ∧ (s.press reg k).1.buffer = s.buffer := by
  have hkey : k.key ≠ .enter := by simp [hk]
  have hwithin : s.EditsWithin (fun _ ↦ True) := fun e he l hl mark items hlist ↦ trivial
  have hpress : s.Uncommitted (fun _ ↦ True) (s.press reg k).1 :=
    uncommitted_press hkey hwithin fun _ _ ↦ trivial
  constructor
  · have hopen := congrArg Option.isSome hpress.work
    rwa [Option.isSome_map, Option.isSome_map, heditor] at hopen
  · obtain ⟨e, he⟩ := Option.isSome_iff_exists.mp heditor
    rw [press, he]
    exact (congrArg Session.buffer (beside_editorKey s e k) :)

theorem buffer_run_of_editor (reg : Registry) (heditor : s.editor.isSome = true)
    (hks : ∀ k ∈ ks, k.key = .tab) : (s.run reg (ks.map .key)).buffer = s.buffer := by
  induction ks generalizing s with
  | nil => rfl
  | cons k ks ih =>
      obtain ⟨hk, hrest⟩ := List.forall_mem_cons.mp hks
      obtain ⟨hopen, hbuffer⟩ := press_tab_of_editor reg heditor hk
      exact (ih hopen hrest).trans hbuffer

theorem namesAreWhole_standard : Registry.standard.NamesAreWhole := by
  unfold Registry.NamesAreWhole
  decide

/-- In a tree whose names are words, of tabs in a row at most one more than there are levels change
the line. These come first: a tab that leaves the line as it is is followed by none that changes it.
In particular no tab adds anything to the name of a file or of a command that was completed. In the
shell none of the tabs fails. -/
theorem tabs_come_to_rest (s : Session) (htree : s.tree.NamesAre Path.IsWord)
    (hon : s.settings.enableAutocomplete.isOn = true) (hprompt : s.prompt = .ok prompt) :
    let after (ks : List KeyEvent) := s.run .standard (ks.map .key)
    (∃ m ≤ s.tree.height + 1, ∀ ks k, (∀ k' ∈ ks ++ [k], k'.key = .tab) →
      ((after (ks ++ [k])).buffer ≠ (after ks).buffer ↔ ks.length < m)) ∧
    (∀ ks k k' option, (∀ k'' ∈ ks ++ [k] ++ [k'], k''.key = .tab) →
      ((after ks).candidates .standard (after ks).buffer).names = [option] →
      Path.optionKind option = .text →
      (after (ks ++ [k] ++ [k'])).buffer = (after (ks ++ [k])).buffer) ∧
    (s.editor = none → ∀ ks, (∀ k ∈ ks, k.key = .tab) → (s.pressAll .standard ks).2 = none) := by
  intro after
  cases heditor : s.editor with
  | none =>
      have hafter (ks : List KeyEvent) (hks : ∀ k ∈ ks, k.key = .tab) :
          after ks = s.tabs .standard ks.length :=
        run_of_pressAll (pressAll_tabs .standard heditor hon hprompt hks)
      refine ⟨?_, ?_, fun _ ks hks ↦ ?_⟩
      · obtain ⟨m, hm, hchanges⟩ := settlesWithin_height htree namesAreWhole_standard
        refine ⟨m, hm, fun ks k hks ↦ ?_⟩
        rw [hafter _ hks, hafter ks (List.forall_mem_append.mp hks).1, List.length_append]
        exact hchanges ks.length
      · intro ks k k' option hks hnames hkind
        have hfirst := (List.forall_mem_append.mp hks).1
        rw [hafter ks (List.forall_mem_append.mp hfirst).1] at hnames
        have htree' : (s.tabs .standard ks.length).tree.NamesAre Path.IsWord := by
          rwa [tree_tabs]
        have hsettled : (s.tabs .standard (ks.length + 1)).Settled .standard := by
          rw [tabs_succ']
          exact settled_complete_of_text htree' namesAreWhole_standard hnames hkind
        rw [hafter _ hks, hafter _ hfirst, List.length_append, List.length_append]
        exact (congrArg Session.buffer (tabs_succ' ..)).trans hsettled
      · rw [pressAll_tabs .standard heditor hon hprompt hks]
  | some e =>
      have hopen : s.editor.isSome = true := by simp [heditor]
      have hafter (ks : List KeyEvent) (hks : ∀ k ∈ ks, k.key = .tab) :
          (after ks).buffer = s.buffer := buffer_run_of_editor .standard hopen hks
      refine ⟨⟨0, Nat.zero_le _, fun ks k hks ↦ ?_⟩, ?_, nofun⟩
      · rw [hafter _ hks, hafter ks (List.forall_mem_append.mp hks).1]
        simp
      · intro ks k k' option hks _ _
        rw [hafter _ hks, hafter _ (List.forall_mem_append.mp hks).1]

/-- Two directories and a file in them are completed one after the other. The tree has three levels,
and three tabs change the line. -/
theorem completed_down_to_file :
    let seed := [("docs", .object [("work", .object [("plan.txt", .text "today")])])]
    let s : Session :=
      { (ofConfig { filesystem := { seed } }).1 with buffer := "cat d" }
    let tab : KeyEvent := .ofKey .tab
    let after (ks : List KeyEvent) := s.run .standard (ks.map .key)
    s.tree.NamesAre Path.IsWord ∧ s.tree.height = 3 ∧
      (after [tab, tab]).buffer = "cat docs/work/" ∧
      (after [tab, tab, tab]).buffer = "cat docs/work/plan.txt" ∧
      (∃ m ≤ 4, ∀ ks k, (∀ k' ∈ ks ++ [k], k'.key = .tab) →
        ((after (ks ++ [k])).buffer ≠ (after ks).buffer ↔ ks.length < m)) ∧
      (after [tab, tab, tab, tab]).buffer = "cat docs/work/plan.txt" := by
  intro seed s tab after
  have hkeys : Seed.KeysAre Path.IsWord seed :=
    Seed.keysAre_object (by decide) (Seed.keysAre_object (by decide)
      (.intro (by decide) (by decide) (by simp)))
  have htree : s.tree.NamesAre Path.IsWord := Tree.namesAre_ofSeed hkeys _
  have hprompt : s.prompt = .ok "guest@www.carlegbert.com:~$ " := rfl
  obtain ⟨hfew, hfile, -⟩ := tabs_come_to_rest s htree rfl hprompt
  have hheight : s.tree.height = 3 := by decide +kernel
  rw [hheight] at hfew
  have hcompleted : (after [tab, tab, tab]).buffer = "cat docs/work/plan.txt" := by
    decide +kernel
  refine ⟨htree, hheight, by decide +kernel, hcompleted, hfew, ?_⟩
  have hrest := hfile [tab, tab] tab tab "plan.txt" (by decide) (by decide +kernel) (by decide)
  exact hrest.trans hcompleted

end Session

end TreeShell
