import Mathlib.Data.List.Induction
import TreeShell.Console.Start
import TreeShell.Proofs.Session.Takeover

/-!
# Tabs in a row

Several candidates are shown at a tab only if a tab before it has found several. Between the two no
other key can have been pressed; but an interrupt, which empties the line, does not count as a key.
-/

namespace TreeShell

namespace Session

/-- What comes from the keyboard: a key, or an interrupt while a line is read. -/
inductive Stroke where
  | key (k : KeyEvent)
  | interrupt

def stroke (reg : Registry) (s : Session) : Stroke → Session
  | .key k => (s.press reg k).1
  | .interrupt => (Console.take true reg s .interrupt).1

def strokes (reg : Registry) (s : Session) (xs : List Stroke) : Session := xs.foldl (stroke reg) s

def Lists (s s' : Session) : Prop :=
  ∃ line names, s'.screen = s.screen ++ [.line line, .inline names]

structure SilentTab (reg : Registry) (s : Session) (k : KeyEvent) : Prop where
  tab : k.key = .tab
  editor : s.editor = none
  screen : (s.press reg k).1.screen = s.screen

variable {s : Session} {reg : Registry} {k : KeyEvent} {xs : List Stroke}

theorem strokes_concat (x : Stroke) :
    s.strokes reg (xs ++ [x]) = (s.strokes reg xs).stroke reg x := by
  simp [strokes]

theorem strokes_append (ys : List Stroke) :
    s.strokes reg (xs ++ ys) = (s.strokes reg xs).strokes reg ys := by
  simp [strokes]

/-! ## Keys -/

def quiet (s : Session) : Session := { s with tabPending := false, log := [] }

theorem complete_cases (reg : Registry) (s : Session) :
    (s.complete reg).1.tabPending = false ∨ (s.complete reg).1.quiet = s.quiet := by
  unfold complete
  dsimp only
  split
  · exact .inr rfl
  · exact .inl rfl
  · split
    · split
      · exact .inr rfl
      · exact .inl rfl
    · exact .inr rfl

theorem tab_cases (reg : Registry) (s : Session) :
    (s.tab reg).1.tabPending = false ∨ (s.tab reg).1.quiet = s.quiet := by
  rcases fst_tab reg s with htab | htab
  · exact .inr (congrArg quiet htab)
  · rw [htab]
    exact complete_cases reg s

theorem tabPending_enter (hreg : reg.Keeps Session.tabPending) (h : s.tabPending = false) :
    (s.enter reg).1.tabPending = false := by
  unfold enter
  split
  · exact h
  · rename_i prompt hprompt
    have hsubmit : (s.submit reg prompt s.buffer).1.tabPending = s.tabPending :=
      keeps_submit hreg (fun h ↦ (congrArg Session.tabPending h :)) s prompt s.buffer
    split
    · exact h
    · split <;> (rename_i hs; rw [hs] at hsubmit; exact hsubmit.trans h)

theorem shellKey_cases (hreg : reg.Keeps Session.tabPending) (s : Session) (k : KeyEvent) :
    (s.shellKey reg k).1.tabPending = false ∨
      k.key = .tab ∧ (s.shellKey reg k).1.quiet = s.quiet := by
  unfold shellKey
  split
  · rename_i hk
    exact (tab_cases reg s).imp id fun h ↦ ⟨hk, h⟩
  · refine .inl ?_
    dsimp only
    split
    · exact tabPending_enter hreg rfl
    · rfl
    · unfold older
      split <;> rfl
    · unfold newer
      split <;> rfl
    · rfl

theorem press_cases (hreg : reg.Keeps Session.tabPending) (s : Session) (k : KeyEvent) :
    (s.press reg k).1.tabPending = false ∨ (s.editor ≠ none ∧ s.tabPending = true) ∨
      s.SilentTab reg k ∧ (s.press reg k).1.quiet = s.quiet := by
  cases he : s.editor with
  | some e =>
      have hpress : s.press reg k = s.editorKey e k := by rw [press, he]
      have hkept : (s.editorKey e k).1.tabPending = s.tabPending :=
        (congrArg Session.tabPending (beside_editorKey s e k) :)
      cases hpending : s.tabPending with
      | false => exact .inl (by rw [hpress, hkept, hpending])
      | true => exact .inr (.inl ⟨Option.some_ne_none e, rfl⟩)
  | none =>
      rw [press_of_shell he]
      rcases shellKey_cases hreg s k with h | ⟨hk, hquiet⟩
      · exact .inl h
      · refine .inr (.inr ⟨⟨hk, he, ?_⟩, hquiet⟩)
        rw [press_of_shell he]
        exact (congrArg Session.screen hquiet :)

theorem screen_tab (reg : Registry) (h : s.tabPending = false) :
    (s.tab reg).1.screen = s.screen := by
  have hcomplete : (s.complete reg).1.screen = s.screen := by
    unfold complete
    dsimp only
    split
    · rfl
    · rfl
    · rw [if_neg (by simp [h])]
  rcases fst_tab reg s with htab | htab
  · exact congrArg Session.screen htab
  · exact (congrArg Session.screen htab).trans hcomplete

theorem pending_of_lists (hk : k.key = .tab) (h : s.Lists (s.press reg k).1) :
    s.editor = none ∧ s.tabPending = true := by
  obtain ⟨line, names, hscreen⟩ := h
  have hlonger : (s.press reg k).1.screen.length ≠ s.screen.length := by simp [hscreen]
  cases he : s.editor with
  | some e =>
      refine absurd ?_ hlonger
      rw [press, he]
      unfold editorKey
      dsimp only
      split
      · rw [screen_share, List.length_map]
      · rename_i hpress
        cases hk.symm.trans (Editor.press_eq_ok_some hpress).2.1
      · rfl
  | none =>
      refine ⟨rfl, ?_⟩
      by_contra hpending
      refine hlonger ?_
      rw [press_of_shell he, shellKey, hk]
      exact congrArg List.length (screen_tab reg (by simpa using hpending))

/-! ## Runs -/

/-- Strokes end with a silent tab and interrupts, by which the line is empty if there are any. -/
structure EndsWithTab (reg : Registry) (s : Session) (xs before : List Stroke) (k : KeyEvent)
    (interrupts : Nat) : Prop where
  split : xs = before ++ .key k :: List.replicate interrupts .interrupt
  silent : (s.strokes reg before).SilentTab reg k
  editor : (s.strokes reg xs).editor = none
  buffer : (s.strokes reg xs).buffer =
    if interrupts = 0 then (s.strokes reg before).buffer else ""

theorem EndsWithTab.interrupt {before : List Stroke} {n : Nat}
    (h : EndsWithTab reg s xs before k n) :
    EndsWithTab reg s (xs ++ [.interrupt]) before k (n + 1) where
  split := by rw [h.split, List.replicate_succ', List.append_assoc, List.cons_append]
  silent := h.silent
  editor := by
    rw [strokes_concat]
    exact h.editor
  buffer := by
    rw [strokes_concat]
    rfl

theorem endsWithTab_of_pending (hreg : reg.Keeps Session.tabPending) (hnew : s.tabPending = false)
    (h : (s.strokes reg xs).tabPending = true) :
    ∃ before k n, EndsWithTab reg s xs before k n := by
  induction xs using List.reverseRecOn with
  | nil => cases hnew.symm.trans h
  | append_singleton xs x ih =>
      rw [strokes_concat] at h
      cases x with
      | interrupt =>
          obtain ⟨before, k, n, hends⟩ := ih h
          exact ⟨before, k, n + 1, hends.interrupt⟩
      | key k =>
          rcases press_cases hreg (s.strokes reg xs) k with
            hnone | ⟨hopen, hpending⟩ | ⟨htab, hquiet⟩
          · cases hnone.symm.trans h
          · -- A tab is never pending while the editor is open.
            obtain ⟨before, k', n, hends⟩ := ih hpending
            exact absurd hends.editor hopen
          · refine ⟨xs, k, 0, rfl, htab, ?_, ?_⟩
            · rw [strokes_concat]
              exact (congrArg Session.editor hquiet :).trans htab.editor
            · rw [strokes_concat]
              exact (congrArg Session.buffer hquiet :)

theorem screen_second_tab (reg : Registry) {prompt : String} (hk : k.key = .tab)
    (heditor : s.editor = none) (hpending : s.tabPending = true)
    (hon : s.settings.enableAutocomplete.isOn = true) (hprompt : s.prompt = .ok prompt)
    (hseveral : 2 ≤ (s.candidates reg s.buffer).names.length) :
    (s.press reg k).1.screen = s.screen ++
      [.line (.text (prompt ++ s.buffer)), .inline (s.candidates reg s.buffer).names] := by
  have hcomplete : ∃ s' c, s.complete reg = (s', .ok c) ∧ s'.screen = s.screen ++
      [.line (.text (prompt ++ s.buffer)), .inline (s.candidates reg s.buffer).names] := by
    unfold complete
    dsimp only
    split
    · rename_i hnone
      simp [hnone] at hseveral
    · rename_i hone
      simp [hone] at hseveral
    · rw [if_pos hpending, hprompt]
      exact ⟨_, _, rfl, List.append_assoc ..⟩
  obtain ⟨s', c, hc, hscreen⟩ := hcomplete
  rw [press_of_shell heditor, shellKey, hk]
  dsimp only
  rw [tab, if_pos hon, hc]
  exact hscreen

theorem strokes_interrupts (reg : Registry) (s : Session) (n : Nat) :
    ∃ screen, s.strokes reg (List.replicate (n + 1) .interrupt) =
      { s with buffer := "", screen } := by
  induction n with
  | zero => exact ⟨_, rfl⟩
  | succ n ih =>
      obtain ⟨screen, h⟩ := ih
      rw [List.replicate_succ', strokes_concat, h]
      exact ⟨_, rfl⟩

/-- Interrupts empty the line and leave the tab pending: the next one lists all commands. -/
theorem screen_tab_of_interrupts {prompt : String} (hk : k.key = .tab) (heditor : s.editor = none)
    (hpending : s.tabPending = true) (hon : s.settings.enableAutocomplete.isOn = true)
    (hprompt : s.prompt = .ok prompt) (hnames : 2 ≤ reg.names.length) (n : Nat) :
    let s' := s.strokes reg (List.replicate (n + 1) .interrupt)
    (s'.press reg k).1.screen = s'.screen ++ [.line (.text prompt), .inline reg.names] := by
  intro s'
  obtain ⟨screen, hs'⟩ := strokes_interrupts reg s n
  rw [show s' = _ from hs']
  let emptied : Session := { s with buffer := "", screen }
  have hprompt' : emptied.prompt = .ok prompt := hprompt
  -- To an empty line there are all commands as candidates.
  have hscreen : (emptied.press reg k).1.screen = emptied.screen ++
      [.line (.text (prompt ++ "")), .inline reg.names] :=
    screen_second_tab reg hk heditor hpending hon hprompt' hnames
  rwa [String.append_empty] at hscreen

/-- In a run from a new session, candidates are listed at a tab only if the last key before was a
tab for the shell that showed nothing, and at the same line unless an interrupt came between.
Interrupts do not count as keys: after any number of them a pending tab lists all commands. -/
theorem candidates_are_listed_after_tab (hreg : reg.Keeps Session.tabPending) (tree : Tree)
    (settings : ShellSettings) (surface : Surface) (xs : List Stroke) {k : KeyEvent}
    (hk : k.key = .tab) :
    let s₀ : Session := { ofTree tree settings with surface }
    let s := s₀.strokes reg xs
    (s.Lists (s.press reg k).1 → ∃ before k n, EndsWithTab reg s₀ xs before k n) ∧
      ∀ prompt n, s.tabPending = true → s.settings.enableAutocomplete.isOn = true →
        s.prompt = .ok prompt → 2 ≤ reg.names.length →
        let s' := s₀.strokes reg (xs ++ List.replicate (n + 1) .interrupt)
        (s'.press reg k).1.screen = s'.screen ++ [.line (.text prompt), .inline reg.names] := by
  intro s₀ s
  constructor
  · intro hlists
    obtain ⟨-, hpending⟩ := pending_of_lists hk hlists
    exact endsWithTab_of_pending hreg rfl hpending
  · intro prompt n hpending hon hprompt hnames
    obtain ⟨before, k', m, hends⟩ := endsWithTab_of_pending hreg rfl hpending
    rw [strokes_append]
    exact screen_tab_of_interrupts hk hends.editor hpending hon hprompt hnames n

/-- On an empty line all commands are listed at the second tab, and no less if an interrupt came in
between. -/
theorem second_tab_lists_commands :
    let s : Session := ofTree {} {}
    let tab : KeyEvent := .ofKey .tab
    let s₁ := s.strokes .standard [.key tab]
    let s₂ := s.strokes .standard [.key tab, .interrupt]
    let shown : List Drawing :=
      [.line (.text "guest@www.carlegbert.com:~$ "), .inline Registry.standard.names]
    (s₁.press .standard tab).1.screen = s₁.screen ++ shown ∧
      (∃ before k n, EndsWithTab .standard s [.key tab] before k n) ∧
      (s₂.press .standard tab).1.screen = s₂.screen ++ shown := by
  intro s tab s₁ s₂ shown
  have hkeeps : Registry.standard.Keeps Session.tabPending :=
    Registry.standard_ofBuiltins.keeps fun h ↦ (congrArg Session.tabPending h :)
  obtain ⟨hends, hinterrupted⟩ :=
    candidates_are_listed_after_tab hkeeps {} {} .page [.key tab] (k := tab) rfl
  have hshown : (s₁.press .standard tab).1.screen = s₁.screen ++ shown := by decide +kernel
  exact ⟨hshown, hends ⟨_, _, hshown⟩,
    hinterrupted _ 0 (by decide +kernel) (by decide +kernel) rfl (by decide)⟩

end Session

end TreeShell
