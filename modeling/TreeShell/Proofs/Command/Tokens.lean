import TreeShell.Proofs.Command.Words
import TreeShell.Proofs.Library

/-!
# Words are conserved

A line is cut at the first occurrence of its operator, and all its words but the target are the
words of its command. The body is a new line, which is put together from what stood in front of the
operator and from the words behind the target, and cutting it into words gives the same words
again: nothing that is put together merges with its neighbour.
-/

namespace TreeShell

namespace Text

theorem ne_and_not_mem_of_mem_tokens {s w : String} (h : w ∈ tokens s) :
    w ≠ "" ∧ ' ' ∉ w.toList := by
  rw [tokens, List.mem_filter] at h
  obtain ⟨hsplit, hne⟩ := h
  exact ⟨of_decide_eq_true hne, not_mem_of_mem_split hsplit⟩

theorem ne_of_tokens_eq_cons {s w : String} {ws : List String} (h : tokens s = w :: ws) :
    w ≠ "" :=
  (ne_and_not_mem_of_mem_tokens (h ▸ List.mem_cons_self)).1

theorem join_singleton (sep : Char) (a : String) : join sep [a] = a := by
  simp [join, glue]

theorem join_cons_cons (sep : Char) (a b : String) (ps : List String) :
    join sep (a :: b :: ps) = a ++ String.singleton sep ++ join sep (b :: ps) := by
  apply String.toList_inj.mp
  simp [join, glue]

theorem tokens_join {ws : List String} (hws : ∀ w ∈ ws, w ≠ "" ∧ ' ' ∉ w.toList) (a : String) :
    tokens (join ' ' (a :: ws)) = tokens a ++ ws := by
  induction ws generalizing a with
  | nil => rw [join_singleton, List.append_nil]
  | cons w ws ih =>
      obtain ⟨hne, hone⟩ := hws w List.mem_cons_self
      have hrest := ih (fun v hv ↦ hws v (List.mem_cons_of_mem w hv)) w
      rw [tokens_of_not_mem hne hone] at hrest
      rw [join_cons_cons, show String.singleton ' ' = " " from rfl, tokens_append_space, hrest]
      rfl

theorem eq_space_of_tokens_eq_nil {s : String} (h : tokens s = []) {c : Char}
    (hc : c ∈ s.toList) : c = ' ' := by
  by_cases hspace : c = ' '
  · exact hspace
  · have hcount := count_tokens hspace s
    rw [h, List.flatMap_nil, List.count_nil] at hcount
    exact absurd hc (List.count_eq_zero.mp hcount.symm)

theorem forall_mem_of_forall_mem_trim {p : Char → Bool} {cs : List Char}
    (h : ∀ c ∈ trim p cs, p c = true) : ∀ c ∈ cs, p c = true := by
  -- What is left ends with a character that is not in `p`, unless nothing is left.
  apply List.forall_mem_of_forall_mem_dropWhile
  have hrev : ∀ c ∈ (cs.dropWhile p).reverse, p c = true := by
    apply List.forall_mem_of_forall_mem_dropWhile
    intro c hc
    exact h c (List.mem_reverse.mpr hc)
  exact fun c hc ↦ hrev c (List.mem_reverse.mpr hc)

theorem trim_eq_nil {p : Char → Bool} {cs : List Char} (h : ∀ c ∈ cs, p c = true) :
    trim p cs = [] := by
  rw [trim, List.dropWhile_eq_nil_iff.mpr h]
  rfl

theorem tokens_trim_eq_nil_iff {cs : List Char} :
    tokens (String.ofList (trim isBlank cs)) = [] ↔ ∀ c ∈ cs, isBlank c = true := by
  constructor
  · intro h
    apply forall_mem_of_forall_mem_trim
    intro c hc
    obtain rfl : c = ' ' := eq_space_of_tokens_eq_nil h (by rwa [String.toList_ofList])
    decide
  · intro h
    rw [trim_eq_nil h]
    rfl

end Text

namespace Command

/-- `before` and `after` stand on either side of the first occurrence of a pattern. -/
structure FirstAt (pattern text before after : List Char) : Prop where
  text_eq : text = before ++ pattern ++ after
  first : ∀ b a, text = b ++ pattern ++ a → before.length ≤ b.length

section

variable {pattern text before after : List Char}

theorem FirstAt.unique {before' after' : List Char} (h : FirstAt pattern text before after)
    (h' : FirstAt pattern text before' after') : before = before' ∧ after = after' := by
  have hlength : before.length = before'.length :=
    Nat.le_antisymm (h.first _ _ h'.text_eq) (h'.first _ _ h.text_eq)
  have heq := h.text_eq.symm.trans h'.text_eq
  rw [List.append_assoc, List.append_assoc] at heq
  obtain ⟨hbefore, hrest⟩ := List.append_inj heq hlength
  exact ⟨hbefore, List.append_cancel_left hrest⟩

theorem length_le_of_cut (h : cut pattern text = some (before, after)) {b a : List Char}
    (heq : text = b ++ pattern ++ a) : before.length ≤ b.length := by
  induction text generalizing before b with
  | nil =>
      have hnil := congrArg List.length (eq_append_of_cut h)
      simp only [List.length_append, List.length_nil] at hnil
      omega
  | cons c cs ih =>
      rw [cut] at h
      split at h
      · cases h
        exact Nat.zero_le _
      · rename_i hno
        obtain ⟨⟨rest, _⟩, hcut, he⟩ := Option.map_eq_some_iff.mp h
        cases he
        -- An occurrence at the very front would have been found.
        cases b with
        | nil => exact absurd (List.isPrefixOf_iff_prefix.mpr ⟨a, heq.symm⟩) hno
        | cons d ds =>
            obtain ⟨-, htail⟩ := List.cons.inj heq
            exact Nat.succ_le_succ (ih hcut htail)

theorem FirstAt.of_cut (h : cut pattern text = some (before, after)) :
    FirstAt pattern text before after :=
  ⟨eq_append_of_cut h, fun _ _ ↦ length_le_of_cut h⟩

theorem not_infix_of_cut_eq_none (h : cut pattern text = none) : ¬ pattern <:+: text := by
  induction text with
  | nil =>
      rw [cut] at h
      split_ifs at h with hp
      exact fun hinfix ↦ hp (List.infix_nil.mp hinfix)
  | cons c cs ih =>
      rw [cut] at h
      split_ifs at h with hp
      rw [List.isPrefixOf_iff_prefix] at hp
      rw [List.infix_cons_iff, not_or]
      exact ⟨hp, ih (Option.map_eq_none_iff.mp h)⟩

theorem cut_eq_some_iff :
    cut pattern text = some (before, after) ↔ FirstAt pattern text before after := by
  constructor
  · exact FirstAt.of_cut
  · intro h
    cases hc : cut pattern text with
    | none => exact absurd ⟨before, after, h.text_eq.symm⟩ (not_infix_of_cut_eq_none hc)
    | some parts =>
        obtain ⟨hbefore, hafter⟩ := (FirstAt.of_cut hc).unique h
        rw [← hbefore, ← hafter]

theorem cut_eq_none_iff : cut pattern text = none ↔ ¬ pattern <:+: text := by
  constructor
  · exact not_infix_of_cut_eq_none
  · intro h
    cases hc : cut pattern text with
    | none => rfl
    | some parts => exact absurd ⟨parts.1, parts.2, (FirstAt.of_cut hc).text_eq.symm⟩ h

end

/-- `before` and `after` stand on either side of the operator that a line is cut at. -/
structure CutAt (line : List Char) (mode : RedirectMode) (before after : List Char) : Prop where
  first : FirstAt mode.operator.toList line before after
  only : mode = .truncate → ¬ RedirectMode.append.operator.toList <:+: line

theorem findOperator_eq_some_iff {line before after : List Char} {mode : RedirectMode} :
    findOperator line = some (mode, before, after) ↔ CutAt line mode before after := by
  rw [findOperator]
  constructor
  · intro h
    split at h
    · rename_i hcut
      cases h
      exact ⟨cut_eq_some_iff.mp hcut, fun hmode ↦ by cases hmode⟩
    · rename_i hnone
      obtain ⟨⟨_, _⟩, hcut, he⟩ := Option.map_eq_some_iff.mp h
      cases he
      exact ⟨cut_eq_some_iff.mp hcut, fun _ ↦ cut_eq_none_iff.mp hnone⟩
  · rintro ⟨hfirst, honly⟩
    cases mode with
    | append => rw [cut_eq_some_iff.mpr hfirst]
    | truncate =>
        rw [cut_eq_none_iff.mpr (honly rfl), cut_eq_some_iff.mpr hfirst]
        rfl

theorem mem_iff_exists_cutAt {line : List Char} :
    '>' ∈ line ↔ ∃ mode before after, CutAt line mode before after := by
  constructor
  · intro h
    cases hf : findOperator line with
    | none => exact absurd h (not_mem_of_findOperator_eq_none hf)
    | some parts => exact ⟨parts.1, parts.2.1, parts.2.2, findOperator_eq_some_iff.mp hf⟩
  · rintro ⟨mode, before, after, hcut⟩
    by_contra hno
    have hnone := findOperator_eq_none hno
    rw [findOperator_eq_some_iff.mpr hcut] at hnone
    cases hnone

theorem mem_iff_existsUnique_cutAt {line : List Char} :
    '>' ∈ line ↔
      ∃! parts : RedirectMode × List Char × List Char, CutAt line parts.1 parts.2.1 parts.2.2 := by
  rw [mem_iff_exists_cutAt]
  constructor
  · rintro ⟨mode, before, after, hcut⟩
    refine ⟨(mode, before, after), hcut, fun parts hparts ↦ ?_⟩
    have hfind := findOperator_eq_some_iff.mpr hcut
    exact Option.some.inj ((findOperator_eq_some_iff.mpr hparts).symm.trans hfind)
  · rintro ⟨parts, hcut, -⟩
    exact ⟨parts.1, parts.2.1, parts.2.2, hcut⟩

def words (cmd : Command) : List String :=
  if cmd.name = "" then cmd.args else cmd.name :: cmd.args

theorem words_ofBody (redirect : Option Redirect) (body : String) :
    (ofBody redirect body).words = Text.tokens body := by
  rw [ofBody]
  split
  · rename_i htokens
    rw [htokens]
    rfl
  · rename_i htokens
    rw [htokens, words, if_neg (Text.ne_of_tokens_eq_cons htokens)]

theorem isEmpty_ofBody_iff (redirect : Option Redirect) (body : String) :
    (ofBody redirect body).isEmpty = true ↔ (ofBody redirect body).words = [] := by
  rw [words_ofBody, isEmpty, decide_eq_true_iff, ofBody]
  split
  · rename_i htokens
    exact iff_of_true rfl htokens
  · rename_i htokens
    rw [htokens]
    exact iff_of_false (Text.ne_of_tokens_eq_cons htokens) (List.cons_ne_nil _ _)

section

variable {line : String} {before after : List Char} {mode : RedirectMode}

theorem parse_of_cutAt_of_blank (h : CutAt line.toList mode before after)
    (hblank : ∀ c ∈ after, Text.isBlank c = true) :
    parse line = .error (.missingTarget mode.operator) := by
  rw [parse, findOperator_eq_some_iff.mpr h]
  simp only [Text.tokens_trim_eq_nil_iff.mpr hblank]

theorem parse_of_cutAt {target : String} {rest : List String}
    (h : CutAt line.toList mode before after)
    (hrest : Text.tokens (String.ofList (Text.trim Text.isBlank after)) = target :: rest) :
    parse line =
      .ok (ofBody (some ⟨mode, target⟩) (Text.join ' ' (String.ofList before :: rest))) := by
  rw [parse, findOperator_eq_some_iff.mpr h]
  simp only [hrest]

end

/-- A line without an operator is all body; a line with one is refused or loses its target. -/
theorem parse_cases (line : String) :
    ('>' ∉ line.toList ∧ parse line = .ok (ofBody none line)) ∨
      ∃ mode before after, CutAt line.toList mode before after ∧
        ((∀ c ∈ after, Text.isBlank c = true) ∧
            parse line = .error (.missingTarget mode.operator) ∨
          ∃ target rest,
            Text.tokens (String.ofList (Text.trim Text.isBlank after)) = target :: rest ∧
            parse line =
              .ok (ofBody (some ⟨mode, target⟩)
                (Text.join ' ' (String.ofList before :: rest)))) := by
  by_cases hmem : '>' ∈ line.toList
  · obtain ⟨mode, before, after, hcut⟩ := mem_iff_exists_cutAt.mp hmem
    refine .inr ⟨mode, before, after, hcut, ?_⟩
    cases hrest : Text.tokens (String.ofList (Text.trim Text.isBlank after)) with
    | nil =>
        have hblank := Text.tokens_trim_eq_nil_iff.mp hrest
        exact .inl ⟨hblank, parse_of_cutAt_of_blank hcut hblank⟩
    | cons target rest => exact .inr ⟨target, rest, rfl, parse_of_cutAt hcut hrest⟩
  · exact .inl ⟨hmem, parse_of_not_mem hmem⟩

theorem parse_eq_error_iff {line : String} {e : ShellError} :
    parse line = .error e ↔ ∃ mode before after, CutAt line.toList mode before after ∧
      (∀ c ∈ after, Text.isBlank c = true) ∧ e = .missingTarget mode.operator := by
  constructor
  · intro h
    obtain ⟨-, hok⟩ | ⟨mode, before, after, hcut, ⟨hblank, herror⟩ | ⟨_, _, _, hok⟩⟩ :=
      parse_cases line
    · rw [hok] at h
      cases h
    · exact ⟨mode, before, after, hcut, hblank, Except.error.inj (h.symm.trans herror)⟩
    · rw [hok] at h
      cases h
  · rintro ⟨mode, before, after, hcut, hblank, rfl⟩
    exact parse_of_cutAt_of_blank hcut hblank

theorem tokens_body {line : String} {cmd : Command} (h : parse line = .ok cmd) :
    Text.tokens cmd.body = cmd.words ∧ (cmd.isEmpty = true ↔ cmd.words = []) := by
  obtain ⟨redirect, body, rfl⟩ : ∃ redirect body, cmd = ofBody redirect body := by
    obtain ⟨-, hok⟩ | ⟨_, _, _, -, ⟨-, herror⟩ | ⟨_, _, -, hok⟩⟩ := parse_cases line
    · exact ⟨_, _, Except.ok.inj (h.symm.trans hok)⟩
    · rw [herror] at h
      cases h
    · exact ⟨_, _, Except.ok.inj (h.symm.trans hok)⟩
  rw [body_ofBody, ← words_ofBody redirect body]
  exact ⟨rfl, isEmpty_ofBody_iff redirect body⟩

theorem body_of_redirect_eq_none {line : String} {cmd : Command} (h : parse line = .ok cmd)
    (hr : cmd.redirect = none) : cmd.body = line := by
  have hok := parse_of_not_mem (not_mem_of_parse h hr)
  obtain rfl := Except.ok.inj (h.symm.trans hok)
  exact body_ofBody none line

theorem words_of_redirect {line : String} {cmd : Command} {r : Redirect}
    (h : parse line = .ok cmd) (hr : cmd.redirect = some r) :
    ∃ before after rest, CutAt line.toList r.mode before after ∧
      Text.tokens (String.ofList (Text.trim Text.isBlank after)) = r.target :: rest ∧
      cmd.words = Text.tokens (String.ofList before) ++ rest := by
  obtain ⟨-, hok⟩ | ⟨mode, before, after, hcut, ⟨-, herror⟩ | ⟨target, rest, hrest, hok⟩⟩ :=
    parse_cases line
  · obtain rfl := Except.ok.inj (h.symm.trans hok)
    rw [redirect_ofBody] at hr
    cases hr
  · rw [herror] at h
    cases h
  · obtain rfl := Except.ok.inj (h.symm.trans hok)
    rw [redirect_ofBody] at hr
    cases hr
    refine ⟨before, after, rest, hcut, hrest, ?_⟩
    have hwords : ∀ w ∈ rest, w ≠ "" ∧ ' ' ∉ w.toList := fun w hw ↦
      Text.ne_and_not_mem_of_mem_tokens (hrest ▸ List.mem_cons_of_mem target hw)
    rw [words_ofBody, Text.tokens_join hwords]

/-- A line is refused exactly if nothing but blanks follows its operator. Otherwise the words that
stand before the operator and behind the target are those of the command, in the same order, and
so are the words of its body. -/
theorem parse_conserves_words (line : String) :
    ('>' ∈ line.toList ↔
      ∃! parts : RedirectMode × List Char × List Char,
        CutAt line.toList parts.1 parts.2.1 parts.2.2) ∧
    (∀ e, parse line = .error e ↔ ∃ mode before after, CutAt line.toList mode before after ∧
      (∀ c ∈ after, Text.isBlank c = true) ∧ e = .missingTarget mode.operator) ∧
    ∀ cmd, parse line = .ok cmd →
      Text.tokens cmd.body = cmd.words ∧
      (cmd.isEmpty = true ↔ cmd.words = []) ∧
      (cmd.redirect = none → '>' ∉ line.toList ∧ cmd.body = line) ∧
      ∀ r, cmd.redirect = some r →
        ∃ before after rest, CutAt line.toList r.mode before after ∧
          Text.tokens (String.ofList (Text.trim Text.isBlank after)) = r.target :: rest ∧
          cmd.words = Text.tokens (String.ofList before) ++ rest := by
  refine ⟨mem_iff_existsUnique_cutAt, fun e ↦ parse_eq_error_iff, fun cmd h ↦ ?_⟩
  obtain ⟨hbody, hempty⟩ := tokens_body h
  refine ⟨hbody, hempty, fun hr ↦ ?_, fun r hr ↦ words_of_redirect h hr⟩
  exact ⟨not_mem_of_parse h hr, body_of_redirect_eq_none h hr⟩

/-- The longest operator is cut out, and the rest of a run of `>` belongs to the target. -/
theorem words_around_glued_operator :
    parse "echo a>>>b c" = .ok ⟨"echo", ["a", "c"], some ⟨.append, ">b"⟩, "echo a c"⟩ ∧
      ∃ before after rest, CutAt "echo a>>>b c".toList .append before after ∧
        Text.tokens (String.ofList (Text.trim Text.isBlank after)) = ">b" :: rest ∧
        ["echo", "a", "c"] = Text.tokens (String.ofList before) ++ rest := by
  have hparse :
      parse "echo a>>>b c" = .ok ⟨"echo", ["a", "c"], some ⟨.append, ">b"⟩, "echo a c"⟩ := by
    rfl
  exact ⟨hparse, ((parse_conserves_words "echo a>>>b c").2.2 _ hparse).2.2.2 _ rfl⟩

end Command

end TreeShell
