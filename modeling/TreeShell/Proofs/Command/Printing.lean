import TreeShell.Proofs.Command.Tokens

/-!
# What is written is read

A line is written as words with single spaces between them, a redirect behind them. No word has an
operator, so the first operator of the line is the one that was written; the target may have more of
them. Only a `>>` in a target behind `>` is not told from an operator.
-/

namespace TreeShell

namespace Text

theorem trimEnd_eq_self_iff {p : Char → Bool} {cs : List Char} :
    trimEnd p cs = cs ↔ ∀ c ∈ cs.getLast?, p c = false := by
  rw [trimEnd, List.reverse_eq_iff, List.dropWhile_eq_self_iff_head?, List.head?_reverse]

theorem trim_eq_self_iff {p : Char → Bool} {cs : List Char} :
    trim p cs = cs ↔
      (∀ c ∈ cs.head?, p c = false) ∧ ∀ c ∈ cs.getLast?, p c = false := by
  rw [← List.dropWhile_eq_self_iff_head?, ← trimEnd_eq_self_iff]
  constructor
  · intro h
    have hfront : cs.dropWhile p = cs := by
      apply (List.dropWhile_sublist p).eq_of_length_le
      have hlength := (trimEnd_sublist p (cs.dropWhile p)).length_le
      rwa [show trimEnd p (cs.dropWhile p) = cs from h] at hlength
    exact ⟨hfront, by rwa [trim, hfront] at h⟩
  · rintro ⟨hfront, hback⟩
    rw [trim, hfront, hback]

theorem tokens_join_words {ws : List String} (hws : ∀ w ∈ ws, w ≠ "" ∧ ' ' ∉ w.toList) :
    tokens (join ' ' ws) = ws := by
  cases ws with
  | nil => rfl
  | cons w ws =>
      obtain ⟨⟨hne, hone⟩, hrest⟩ := List.forall_mem_cons.mp hws
      rw [tokens_join hrest, tokens_of_not_mem hne hone]
      rfl

theorem notMem_join {sep c : Char} (h : c ≠ sep) {ws : List String}
    (hws : ∀ w ∈ ws, c ∉ w.toList) : c ∉ (join sep ws).toList := by
  rw [← List.count_eq_zero, count_join h, List.count_eq_zero, List.mem_flatMap]
  rintro ⟨w, hw, hc⟩
  exact hws w hw hc

end Text

namespace Command

/-- The operator that stands behind a text without operators is the one that the line is cut at. -/
theorem cutAt_operator {before target : List Char} {mode : RedirectMode} (hb : '>' ∉ before)
    (ht : mode = .truncate → ¬ RedirectMode.append.operator.toList <:+: target) :
    CutAt (before ++ mode.operator.toList ++ ' ' :: target) mode before (' ' :: target) where
  first := by cases mode <;> exact cut_eq_some_iff.mp (cut_append hb _)
  only := by
    rintro rfl hinfix
    rw [List.append_assoc] at hinfix
    have hoperator : ['>', '>'] <:+: '>' :: ' ' :: target := List.infix_of_infix_append hinfix hb
    -- The space behind the operator keeps it from being half of a longer one.
    rw [List.infix_cons_iff, List.cons_prefix_cons, List.cons_prefix_cons] at hoperator
    rcases hoperator with ⟨-, hspace, -⟩ | hbehind
    · exact absurd hspace (by decide)
    · have htarget : ['>', '>'] <:+: [' '] ++ target := hbehind
      exact ht rfl (List.infix_of_infix_append htarget (by decide))

/-- A text that can be written behind an operator to name a target: one word without blank ends,
in which the line is not cut. -/
structure Target (mode : RedirectMode) (t : String) : Prop where
  ne : t ≠ ""
  one : ' ' ∉ t.toList
  begins : ∀ c ∈ t.toList.head?, Text.isBlank c = false
  ends : ∀ c ∈ t.toList.getLast?, Text.isBlank c = false
  uncut : mode = .truncate → ¬ RedirectMode.append.operator.toList <:+: t.toList

instance (mode : RedirectMode) (t : String) : Decidable (Target mode t) :=
  decidable_of_iff
    (t ≠ "" ∧ ' ' ∉ t.toList ∧ t.toList.head?.any Text.isBlank = false ∧
      t.toList.getLast?.any Text.isBlank = false ∧
      (mode = .truncate → ¬ RedirectMode.append.operator.toList <:+: t.toList))
    ⟨fun ⟨h₁, h₂, h₃, h₄, h₅⟩ ↦
        ⟨h₁, h₂, (Option.any_eq_false _ _).mp h₃, (Option.any_eq_false _ _).mp h₄, h₅⟩,
      fun ⟨h₁, h₂, h₃, h₄, h₅⟩ ↦
        ⟨h₁, h₂, (Option.any_eq_false _ _).mpr h₃, (Option.any_eq_false _ _).mpr h₄, h₅⟩⟩

theorem Word.target {t : String} (h : Word t) (mode : RedirectMode) : Target mode t where
  ne := h.ne
  one := h.one
  begins := (Text.trim_eq_self_iff.mp h.trimmed).1
  ends := (Text.trim_eq_self_iff.mp h.trimmed).2
  uncut _ hoperator := h.plain (hoperator.subset List.mem_cons_self)

/-- A command with a redirect behind it; the space in front of the operator stays in the body. -/
theorem parse_redirect {c t : String} {mode : RedirectMode} (hc : '>' ∉ c.toList)
    (ht : Target mode t) :
    parse (c ++ " " ++ mode.operator ++ " " ++ t) =
      .ok (ofBody (some ⟨mode, t⟩) (c ++ " ")) := by
  have hcut : CutAt (c ++ " " ++ mode.operator ++ " " ++ t).toList mode (c ++ " ").toList
      (' ' :: t.toList) := by
    have hbefore : '>' ∉ (c ++ " ").toList := by simp [hc]
    simpa using cutAt_operator hbefore ht.uncut
  have htrim : Text.trim Text.isBlank (' ' :: t.toList) = t.toList :=
    Text.trim_eq_self_iff.mpr ⟨ht.begins, ht.ends⟩
  have hwords : Text.tokens (String.ofList (Text.trim Text.isBlank (' ' :: t.toList))) = [t] := by
    rw [htrim, String.ofList_toList, Text.tokens_of_not_mem ht.ne ht.one]
  rw [parse_of_cutAt hcut hwords, String.ofList_toList, Text.join_singleton]

theorem ofBody_eq (redirect : Option Redirect) (body : String) :
    ofBody redirect body =
      ⟨(Text.tokens body).headD "", (Text.tokens body).tail, redirect, body⟩ := by
  rw [ofBody]
  split <;> simp [*]

/-- A line that words and a redirect are written as is read as these again. -/
theorem parse_print (words : List String) (redirect : Option Redirect)
    (hwords : ∀ w ∈ words, Argument w) (hredirect : ∀ r ∈ redirect, Target r.mode r.target) :
    parse (print words redirect) = .ok
      { name := words.headD ""
        args := words.tail
        redirect
        body := Text.join ' ' words ++ if redirect.isSome then " " else "" } := by
  have hplain : '>' ∉ (Text.join ' ' words).toList :=
    Text.notMem_join (by decide) fun w hw ↦ (hwords w hw).plain
  have htokens : Text.tokens (Text.join ' ' words) = words :=
    Text.tokens_join_words fun w hw ↦ ⟨(hwords w hw).ne, (hwords w hw).one⟩
  cases redirect with
  | none =>
      have hparse := parse_of_not_mem hplain
      rw [ofBody_eq, htokens] at hparse
      simpa [print] using hparse
  | some r =>
      have hparse := parse_redirect hplain (hredirect r rfl)
      rw [ofBody_eq, Text.tokens_append_single_space, htokens] at hparse
      simpa [print] using hparse

/-- A target may have operators in it, and begin or end with one. -/
theorem target_with_operators_is_read :
    (∀ w ∈ ["echo", "a"], Argument w) ∧ Target .truncate ">b>c" ∧ Target .append "a>>" ∧
      parse "echo a > >b>c" = .ok ⟨"echo", ["a"], some ⟨.truncate, ">b>c"⟩, "echo a "⟩ ∧
      parse " >> a>>" = .ok ⟨"", [], some ⟨.append, "a>>"⟩, " "⟩ := by
  have hwords : ∀ w ∈ ["echo", "a"], Argument w := by decide
  have hnone : ∀ w ∈ [], Argument w := by simp
  have htruncate : Target .truncate ">b>c" := by decide
  have happend : Target .append "a>>" := by decide
  refine ⟨hwords, htruncate, happend, ?_, ?_⟩
  · exact parse_print ["echo", "a"] (some ⟨.truncate, ">b>c"⟩) hwords (by rintro r ⟨⟩; assumption)
  · exact parse_print [] (some ⟨.append, "a>>"⟩) hnone (by rintro r ⟨⟩; assumption)

end Command

end TreeShell
