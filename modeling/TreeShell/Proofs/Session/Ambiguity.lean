import Mathlib.Logic.Function.Iterate
import TreeShell.Proofs.Session.Insertion

/-!
# Tabs at an ambiguous line

As long as only tabs are pressed, the candidates stay those of the line. If there are several, the
line stays as well, and every second tab lists them below it.
-/

namespace TreeShell

/-- On a page a list of candidates is one line, and so a line with candidates below it is two. -/
theorem Page.drawAll_listings (page : Page) (l : Line) (names : List String) (n : Nat) :
    page.drawAll (List.replicate n [.line l, .inline names]).flatten =
      { page with
        lines := page.lines ++
          (List.replicate n [l, .text ("  ".intercalate names)]).flatten } := by
  induction n generalizing page with
  | zero => simp [drawAll]
  | succ n ih =>
      have hfirst : page.drawAll [.line l, .inline names] =
          { page with lines := page.lines ++ [l, .text ("  ".intercalate names)] } := by
        simp [drawAll, draw, Drawing.row]
      rw [List.replicate_succ, List.flatten_cons, drawAll, List.foldl_append]
      change (page.drawAll [.line l, .inline names]).drawAll _ = _
      rw [hfirst, ih, List.replicate_succ, List.flatten_cons, List.append_assoc]

namespace Session

variable {s : Session} {reg : Registry} {k : KeyEvent} {ks : List KeyEvent} {prompt : String}

/-! ## Only tabs -/

def tabs (reg : Registry) (s : Session) (n : Nat) : Session :=
  (fun s ↦ (s.complete reg).1)^[n] s

theorem tabs_succ (reg : Registry) (s : Session) (n : Nat) :
    s.tabs reg (n + 1) = (s.complete reg).1.tabs reg n := rfl

theorem tabs_succ' (reg : Registry) (s : Session) (n : Nat) :
    s.tabs reg (n + 1) = ((s.tabs reg n).complete reg).1 := Function.iterate_succ_apply' _ n s

theorem press_tab (hk : k.key = .tab) (heditor : s.editor = none)
    (hon : s.settings.enableAutocomplete.isOn = true) (hprompt : s.prompt = .ok prompt) :
    s.press reg k = ((s.complete reg).1, none) := by
  obtain ⟨c, hc⟩ := complete_ok reg hprompt
  rw [press_of_shell heditor, shellKey, hk]
  exact Prod.ext (fst_tab_of_isOn reg hon) (snd_tab_of_ok hc)

theorem pressAll_tabs (reg : Registry) (heditor : s.editor = none)
    (hon : s.settings.enableAutocomplete.isOn = true) (hprompt : s.prompt = .ok prompt)
    (hks : ∀ k ∈ ks, k.key = .tab) : s.pressAll reg ks = (s.tabs reg ks.length, none) := by
  induction ks generalizing s with
  | nil => rfl
  | cons k ks ih =>
      obtain ⟨hk, hrest⟩ := List.forall_mem_cons.mp hks
      obtain ⟨buffer, tabPending, screen, log, hcomplete⟩ := exists_complete reg s
      rw [pressAll, press_tab hk heditor hon hprompt, List.length_cons, tabs_succ, hcomplete]
      exact ih heditor hon hprompt hrest

/-! ## Several candidates -/

def listing (s : Session) (reg : Registry) (prompt : String) : List Drawing :=
  [.line (.text (prompt ++ s.buffer)), .inline (s.candidates reg s.buffer).names]

theorem complete_of_several (hprompt : s.prompt = .ok prompt)
    (h : 2 ≤ (s.candidates reg s.buffer).names.length) :
    (s.complete reg).1 = { s with
      tabPending := !s.tabPending
      screen := s.screen ++ if s.tabPending then s.listing reg prompt else [] } := by
  unfold complete
  dsimp only
  split
  · rename_i hnone
    simp [hnone] at h
  · rename_i hone
    simp [hone] at h
  · cases hpending : s.tabPending with
    | true => simp [hprompt, listing, print, draw]
    | false => simp

theorem complete_of_none (h : (s.candidates reg s.buffer).names = []) :
    (s.complete reg).1 = s := by
  unfold complete
  dsimp only
  rw [h]

theorem tabs_of_several (hprompt : s.prompt = .ok prompt) (hnew : s.tabPending = false)
    (h : 2 ≤ (s.candidates reg s.buffer).names.length) (n : Nat) :
    s.tabs reg n = { s with
      tabPending := decide (n % 2 = 1)
      screen := s.screen ++ (List.replicate (n / 2) (s.listing reg prompt)).flatten } := by
  induction n with
  | zero => simp [tabs, ← hnew]
  | succ n ih =>
      -- The line and its candidates are those from the start, so the next tab meets them again.
      have hnext := complete_of_several (s := s.tabs reg n) (by rw [ih]; exact hprompt)
        (by rw [ih]; exact h)
      rw [tabs_succ', hnext, ih]
      rcases Nat.mod_two_eq_zero_or_one n with heven | hodd
      · have hmod : (n + 1) % 2 = 1 := by omega
        have hdiv : (n + 1) / 2 = n / 2 := by omega
        simp [heven, hmod, hdiv]
      · have hmod : (n + 1) % 2 = 0 := by omega
        have hdiv : (n + 1) / 2 = n / 2 + 1 := by omega
        simp [hodd, hmod, hdiv, List.replicate_succ', listing, candidates, pathOptions]

theorem tabs_of_none (h : (s.candidates reg s.buffer).names = []) (n : Nat) :
    s.tabs reg n = s :=
  Function.iterate_fixed (complete_of_none h) n

/-- While nothing but tabs is pressed at a line with several candidates, the line stays and every
second tab lists the candidates below it: on a page that adds two lines. Where there is no
candidate, tabs change nothing at all. -/
theorem every_second_tab_lists (s : Session) (reg : Registry) (heditor : s.editor = none)
    (hon : s.settings.enableAutocomplete.isOn = true) (hprompt : s.prompt = .ok prompt)
    (hnew : s.tabPending = false) (ks : List KeyEvent) (hks : ∀ k ∈ ks, k.key = .tab) :
    let names := (s.candidates reg s.buffer).names
    let line : Line := .text (prompt ++ s.buffer)
    let shown := (List.replicate (ks.length / 2) [Drawing.line line, .inline names]).flatten
    (2 ≤ names.length →
      s.pressAll reg ks =
          ({ s with tabPending := decide (ks.length % 2 = 1), screen := s.screen ++ shown }, none) ∧
        ∀ page : Page, page.drawAll shown = { page with
          lines := page.lines ++
            (List.replicate (ks.length / 2) [line, .text ("  ".intercalate names)]).flatten }) ∧
      (names = [] → s.pressAll reg ks = (s, none)) := by
  intro names line shown
  have hrun := pressAll_tabs reg heditor hon hprompt hks
  constructor
  · intro hseveral
    constructor
    · rw [hrun, tabs_of_several hprompt hnew hseveral]
      rfl
    · exact fun page ↦ page.drawAll_listings line names (ks.length / 2)
  · intro hnone
    rw [hrun, tabs_of_none hnone]

/-- Five tabs behind `cat`, for which there are two files, list them twice and announce the next
list. There is no command that begins with an `x`. -/
theorem files_are_listed_twice :
    let s (line : String) : Session := { (ofConfig {}).1 with buffer := line }
    let tabs : List KeyEvent := List.replicate 5 (.ofKey .tab)
    let line : Line := .text "guest@www.carlegbert.com:~$ cat "
    let names : Line := .text "about.txt  contact.txt"
    let s' := ((s "cat ").pressAll .standard tabs).1
    (∀ line, (s line).prompt = .ok "guest@www.carlegbert.com:~$ ") ∧ (∀ k ∈ tabs, k.key = .tab) ∧
      s'.tabPending = true ∧
      (({} : Page).drawAll s'.screen).lines = [line, names, line, names] ∧
      (s "x").pressAll .standard tabs = (s "x", none) := by
  intro s tabs line names s'
  have hprompt (line : String) : (s line).prompt = .ok "guest@www.carlegbert.com:~$ " := rfl
  have hks : ∀ k ∈ tabs, k.key = .tab := by decide
  obtain ⟨hseveral, -⟩ :=
    every_second_tab_lists (s "cat ") .standard rfl rfl (hprompt _) rfl tabs hks
  obtain ⟨-, hnone⟩ := every_second_tab_lists (s "x") .standard rfl rfl (hprompt _) rfl tabs hks
  obtain ⟨hpress, hpage⟩ := hseveral (by decide +kernel)
  refine ⟨hprompt, hks, ?_, ?_, hnone (by decide +kernel)⟩
  · rw [show s' = _ from congrArg Prod.fst hpress]
    decide
  · rw [show s' = _ from congrArg Prod.fst hpress]
    refine (congrArg Page.lines (hpage {})).trans ?_
    decide +kernel

end Session

end TreeShell
