import TreeShell.Proofs.Session.Calls
import TreeShell.Proofs.Session.Insertion

/-!
# The word before the cursor

A tab completes what stands behind the last space of a line. It is the name of a command if there is
nothing but spaces in front of it, and a path behind a command otherwise. What is inserted is cut at
the last slash of the word either way. In a path the candidates continue what stands behind that
slash, but the name of a command continues the word as a whole.
-/

namespace TreeShell

namespace Text

theorem exists_lastPiece (sep : Char) (text : String) :
    ∃ head last, LastPiece sep text head last := by
  have hne : split sep text ≠ [] := by
    simpa [split] using pieces_ne_nil sep text.toList
  obtain ⟨ps, last, hsplit⟩ := (List.eq_nil_or_concat' _).resolve_left hne
  obtain ⟨head, hpiece⟩ := exists_lastPiece_of_split hsplit
  exact ⟨head, last, hpiece⟩

theorem LastPiece.tokens {text head last : String} (h : LastPiece ' ' text head last) :
    Text.tokens text = Text.tokens head ++ Text.tokens last := by
  rw [h.text_eq]
  rcases List.eq_nil_or_concat' head.toList with hnil | ⟨front, c, hconcat⟩
  · obtain rfl : head = "" := String.toList_inj.mp hnil
    rw [String.empty_append]
    rfl
  · obtain rfl : c = ' ' := h.stop c (by simp [hconcat])
    have hhead : head = String.ofList front ++ " " := by
      apply String.toList_inj.mp
      simpa using hconcat
    rw [hhead, tokens_append_space, tokens_append_single_space]

end Text

namespace Registry

variable {reg : Registry} {spec : Spec} {specs : List Spec}

theorem map_name_put : (put spec specs).map Spec.name =
    if spec.name ∈ specs.map Spec.name then specs.map Spec.name
    else specs.map Spec.name ++ [spec.name] := by
  induction specs with
  | nil => rfl
  | cons other specs ih =>
      by_cases hother : other.name = spec.name
      · simp [put, hother]
      · have hother' : spec.name ≠ other.name := Ne.symm hother
        simp only [put, hother, if_false, List.map_cons, ih, List.mem_cons, hother', false_or]
        split_ifs
        · rfl
        · rfl

theorem nodup_names_register (h : reg.names.Nodup) : (reg.register spec).names.Nodup := by
  rw [names, register, map_name_put]
  split_ifs with hmem
  · exact h
  · exact List.nodup_append.mpr ⟨h, List.nodup_singleton _, by
      rintro name hname _ hspec rfl
      exact hmem (List.mem_singleton.mp hspec ▸ hname)⟩

theorem nodup_names_ofList (specs : List Spec) : (ofList specs).names.Nodup := by
  have hfold (reg : Registry) (h : reg.names.Nodup) :
      (specs.foldl register reg).names.Nodup := by
    induction specs generalizing reg with
    | nil => exact h
    | cons spec specs ih => exact ih _ (nodup_names_register h)
  exact hfold {} List.nodup_nil

end Registry

namespace Session

variable {s : Session} {reg : Registry} {k : KeyEvent} {line head word name : String}

/-! ## Candidates for a word -/

theorem afterSpace_eq_false (hword : Text.LastPiece ' ' line head word) (hne : word ≠ "") :
    afterSpace line = false := by
  have hlast : word.toList ≠ [] := fun hnil ↦ hne (String.toList_inj.mp hnil)
  rw [afterSpace, hword.text_eq, String.toList_append, List.getLast?_append_of_ne_nil _ hlast,
    beq_eq_false_iff_ne]
  exact fun hspace ↦ hword.whole (List.mem_of_getLast? hspace)

theorem afterSpace_eq_true (hword : Text.LastPiece ' ' line head "") (hne : head ≠ "") :
    afterSpace line = true := by
  have hhead : head.toList ≠ [] := fun hnil ↦ hne (String.toList_inj.mp hnil)
  have hlast := List.getLast?_eq_some_getLast hhead
  rw [afterSpace, hword.text_eq, String.append_empty, hlast, hword.stop _ hlast]
  rfl

theorem beginningWith_empty (names : List String) : beginningWith "" names = names := by
  simp [beginningWith, Text.beginsWith]

theorem candidates_of_blank (hword : Text.LastPiece ' ' line head word)
    (hblank : Text.tokens head = []) :
    s.candidates reg line = ⟨word, beginningWith word reg.names⟩ := by
  have htokens := hword.tokens
  rw [hblank, List.nil_append] at htokens
  by_cases hne : word = ""
  · subst hne
    rw [candidates, htokens, beginningWith_empty]
    rfl
  · rw [Text.tokens_of_not_mem hne hword.whole] at htokens
    rw [candidates, htokens]
    dsimp only
    rw [if_pos ⟨rfl, by simp [afterSpace_eq_false hword hne]⟩]

def argumentOptions (s : Session) (kinds : Option (List Kind)) (word : String) : List String :=
  match s.pathOptions word kinds with
  | [] => s.pathOptions word (some [.directory])
  | options => options

theorem candidates_of_command {command : String} {args : List String}
    (hword : Text.LastPiece ' ' line head word) (hcommand : Text.tokens head = command :: args) :
    s.candidates reg line = ⟨word, s.argumentOptions (reg.kindsFor command) word⟩ := by
  have htokens := hword.tokens
  rw [hcommand, List.cons_append] at htokens
  have hpath : ¬ (args ++ Text.tokens word = [] ∧ !afterSpace line) ∧
      (if afterSpace line then "" else (args ++ Text.tokens word).getLastD command) = word := by
    by_cases hne : word = ""
    · subst hne
      have hhead : head ≠ "" := by
        rintro rfl
        cases hcommand
      simp [afterSpace_eq_true hword hhead]
    · simp [afterSpace_eq_false hword hne, Text.tokens_of_not_mem hne hword.whole]
  rw [candidates, htokens]
  dsimp only
  rw [if_neg hpath.1, hpath.2, argumentOptions]
  cases s.pathOptions word (reg.kindsFor command) with
  | nil => rfl
  | cons option options => rfl

theorem word_candidates (hword : Text.LastPiece ' ' line head word) :
    (s.candidates reg line).word = word := by
  cases hhead : Text.tokens head with
  | nil => rw [candidates_of_blank hword hhead]
  | cons command args => rw [candidates_of_command hword hhead]

/-! ## Names of commands -/

theorem beginningWith_eq_singleton (hnames : reg.names.Nodup) (hname : name ∈ reg.names)
    (hbegins : word.toList <+: name.toList)
    (hunique : ∀ other ∈ reg.names, word.toList <+: other.toList → other = name) :
    beginningWith word reg.names = [name] := by
  have hmem (other : String) : other ∈ beginningWith word reg.names ↔ other ∈ [name] := by
    rw [beginningWith, List.mem_filter, Text.beginsWith, List.isPrefixOf_iff_prefix,
      List.mem_singleton]
    constructor
    · rintro ⟨hother, hbegins'⟩
      exact hunique other hother hbegins'
    · rintro rfl
      exact ⟨hname, hbegins⟩
  have hnodup : (beginningWith word reg.names).Nodup := hnames.filter _
  apply List.perm_singleton.mp
  exact (List.perm_ext_iff_of_nodup hnodup (List.nodup_singleton _)).mpr hmem

theorem press_tab_of_single (hk : k.key = .tab) (heditor : s.editor = none)
    (hon : s.settings.enableAutocomplete.isOn = true)
    (h : (s.candidates reg s.buffer).names = [name]) :
    (s.press reg k).2 = none ∧ (s.press reg k).1.buffer =
      s.buffer ++ insertion (s.candidates reg s.buffer).word name := by
  have hpress : s.press reg k = s.tab reg := by rw [press_of_shell heditor, shellKey, hk]
  rw [hpress]
  constructor
  · have hcomplete : ∃ c, (s.complete reg).2 = .ok c := by
      unfold complete
      dsimp only
      rw [h]
      exact ⟨_, rfl⟩
    obtain ⟨c, hc⟩ := hcomplete
    exact snd_tab_of_ok hc
  · rw [fst_tab_of_isOn reg hon, buffer_complete_of_eq h]

theorem length_insertion (word name : String) :
    (insertion word name).length = name.length - (ParsedPath.ofString word).name.length := by
  simp [insertion, Text.dropFirst, String.length_toList]

theorem length_name_ofString_lt (h : Path.separator ∈ word.toList) :
    (ParsedPath.ofString word).name.length < word.length := by
  obtain ⟨directory, hpiece⟩ := Path.exists_lastPiece word
  have hne : directory ≠ "" := by
    rintro rfl
    have hword : word = (ParsedPath.ofString word).name := by
      simpa using hpiece.text_eq
    exact hpiece.whole (hword ▸ h)
  have hlength := congrArg String.length hpiece.text_eq
  rw [String.length_append] at hlength
  have hpos : directory.length ≠ 0 := by simpa using hne
  omega

theorem ofString_of_not_mem (h : Path.separator ∉ word.toList) :
    ParsedPath.ofString word = ⟨[], word⟩ := by
  simp [ParsedPath.ofString, Path.splitLast, Path.split_of_not_mem h]

/-- The name of a command is completed by what is inserted if the word is no path. -/
theorem append_insertion_eq_iff (hbegins : word.toList <+: name.toList) :
    word ++ insertion word name = name ↔ Path.separator ∉ word.toList := by
  constructor
  · intro happend hslash
    have hshort := length_name_ofString_lt hslash
    have hlength := congrArg String.length happend
    rw [String.length_append, length_insertion] at hlength
    have hle := hbegins.length_le
    rw [String.length_toList, String.length_toList] at hle
    omega
  · intro hslash
    exact append_insertion (by rw [ofString_of_not_mem hslash]) hbegins

/-- At a word with nothing but spaces in front of it, with which one command begins, a tab inserts
the name of the command without as many characters as the word has behind its last slash. So the
command is completed if and only if there is no slash in the word. -/
theorem command_is_completed_iff (s : Session) (reg : Registry) (lead word name : String)
    (hnames : reg.names.Nodup) (hk : k.key = .tab) (heditor : s.editor = none)
    (hon : s.settings.enableAutocomplete.isOn = true) (hbuffer : s.buffer = lead ++ word)
    (hlead : ∀ c ∈ lead.toList, c = ' ') (hword : word ≠ "" ∧ ' ' ∉ word.toList)
    (hname : name ∈ reg.names) (hbegins : word.toList <+: name.toList)
    (hunique : ∀ other ∈ reg.names, word.toList <+: other.toList → other = name) :
    let s' := (s.press reg k).1
    (s.press reg k).2 = none ∧
      s'.buffer = lead ++ word ++ Text.dropFirst (ParsedPath.ofString word).name.length name ∧
      (s'.buffer = lead ++ name ↔ Path.separator ∉ word.toList) := by
  intro s'
  have hpiece : Text.LastPiece ' ' s.buffer lead word :=
    ⟨hbuffer, fun c hc ↦ hlead c (List.mem_of_getLast? hc), hword.2⟩
  have hcandidates : s.candidates reg s.buffer = ⟨word, [name]⟩ := by
    rw [candidates_of_blank hpiece (Text.tokens_eq_nil_iff.mpr hlead),
      beginningWith_eq_singleton hnames hname hbegins hunique]
  have hone : (s.candidates reg s.buffer).names = [name] := by rw [hcandidates]
  obtain ⟨hok, hs'⟩ := press_tab_of_single hk heditor hon hone
  rw [hcandidates, hbuffer] at hs'
  refine ⟨hok, hs', ?_⟩
  rw [hs', String.append_assoc, String.append_right_inj]
  exact append_insertion_eq_iff hbegins

/-- A command is completed, unless the word goes beyond a slash in its name: then what stands in
front of the slash is counted as if it had not been typed. -/
theorem name_with_slash_is_not_completed :
    let reg := Registry.ofList
      [⟨"cat", .builtin .cat, none, ""⟩, ⟨"a/bc", .builtin .pwd, none, ""⟩]
    let s (line : String) : Session := { buffer := line }
    let tab : KeyEvent := .ofKey .tab
    ((s "  c").press reg tab).1.buffer = "  cat" ∧ ((s "a").press reg tab).1.buffer = "a/bc" ∧
      ((s "a/b").press reg tab).1.buffer = "a/b/bc" := by
  intro reg s tab
  have hnames : reg.names.Nodup := Registry.nodup_names_ofList _
  obtain ⟨-, -, hcat⟩ := command_is_completed_iff (s "  c") reg "  " "c" "cat" hnames (k := tab)
    rfl rfl rfl (by decide) (by simp) (by decide) (by decide) (by decide) (by decide)
  obtain ⟨-, -, hfront⟩ := command_is_completed_iff (s "a") reg "" "a" "a/bc" hnames (k := tab)
    rfl rfl rfl (by decide) (by simp) (by decide) (by decide) (by decide) (by decide)
  obtain ⟨-, hslash, -⟩ := command_is_completed_iff (s "a/b") reg "" "a/b" "a/bc" hnames (k := tab)
    rfl rfl rfl (by decide) (by simp) (by decide) (by decide) (by decide) (by decide)
  exact ⟨hcat.mpr (by decide), hfront.mpr (by decide), hslash.trans (by decide)⟩

end Session

end TreeShell
