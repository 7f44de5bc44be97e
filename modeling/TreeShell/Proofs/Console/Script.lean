import TreeShell.Console.Start
import TreeShell.Proofs.Session.Failures
import TreeShell.Proofs.Session.Output
import TreeShell.Proofs.Session.Typing
import TreeShell.Proofs.Session.Unseen

/-!
# Scripts

A script is an input that is not typed at a terminal: lines, each with its line end. The session
gets them as keystrokes, one for each character, and does the same as if every line was submitted at
once, up to the first line that fails.
-/

namespace TreeShell

namespace Console

variable {lines : List String}

def script (lines : List String) : String := String.join (lines.map (· ++ "\n"))

theorem linesFrom_append {cs : List Char} (h : '\n' ∉ cs) (read rest : List Char) :
    linesFrom read (cs ++ '\n' :: rest) =
      .line (String.ofList (read.reverse ++ cs ++ ['\n'])) :: linesFrom [] rest := by
  induction cs generalizing read with
  | nil => simp [linesFrom]
  | cons c cs ih =>
      simp only [List.mem_cons, not_or] at h
      rw [List.cons_append, linesFrom, if_neg (Ne.symm h.1), ih h.2]
      simp

theorem linesOf_script (h : ∀ line ∈ lines, '\n' ∉ line.toList) :
    linesOf (script lines) = lines.map fun line ↦ .line (line ++ "\n") := by
  induction lines with
  | nil => rfl
  | cons line lines ih =>
      obtain ⟨hline, hlines⟩ := List.forall_mem_cons.mp h
      have htext : (script (line :: lines)).toList =
          line.toList ++ '\n' :: (script lines).toList := by
        simp [script]
      rw [linesOf, htext, linesFrom_append hline, List.map_cons, ← ih hlines]
      simp [linesOf]

theorem chomp_append_end {line : String} (h : '\n' ∉ line.toList) :
    chomp false (line ++ "\n") = line := by
  have hlast : line.toList.reverse.dropWhile (· == '\n') = line.toList.reverse := by
    cases hr : line.toList.reverse with
    | nil => rfl
    | cons c cs =>
        have hc : c ≠ '\n' := by
          rintro rfl
          exact h (List.mem_reverse.mp (hr ▸ List.mem_cons_self))
        exact List.dropWhile_cons_of_neg (by simpa using hc)
  simp [chomp, Text.trimEnd, hlast]

end Console

namespace Session

open KeyEvent (Plain)

variable {s s' t : Session} {reg : Registry} {line : String} {lines : List String}
  {Q : Line → Prop}

/-- A line can be typed: the editor is closed and there is a prompt. -/
abbrev AtPrompt (s : Session) : Prop := s.editor = none ∧ s.prompt.toOption.isSome = true

theorem AtPrompt.exists_prompt (h : s.AtPrompt) : ∃ prompt, s.prompt = .ok prompt := by
  obtain ⟨-, hprompt⟩ := h
  cases hp : s.prompt with
  | error failure => simp [hp, Except.toOption] at hprompt
  | ok prompt => exact ⟨prompt, rfl⟩

def forLines (one : Session → String → Session × Option Failure) (s : Session) :
    List String → Session × Option Failure
  | [] => (s, none)
  | line :: lines =>
      match one s line with
      | (s, none) => forLines one s lines
      | (s, some failure) => (s, some failure)

def enterLine (reg : Registry) (s : Session) (line : String) : Session × Option Failure :=
  ({ s with buffer := line, tabPending := false } : Session).enter reg

/-- What is done with a line that nobody types: it is shown behind the prompt and, unless it is
empty, kept in the history, executed and answered. -/
def processLine (reg : Registry) (s : Session) (line : String) : Session × Option Failure :=
  match s.prompt with
  | .error failure => (s, some failure)
  | .ok prompt =>
      if Text.isEmptyLine line then (s.print prompt, none) else s.submit reg prompt line

/-- Before each line and after the last the editor is closed and there is a prompt. -/
def ReadyFor (reg : Registry) (s : Session) : List String → Prop
  | [] => s.AtPrompt
  | line :: lines =>
      s.AtPrompt ∧
        ((s.enterLine reg line).2 = none → ReadyFor reg (s.enterLine reg line).1 lines)

instance decidableReadyFor (reg : Registry) (s : Session) :
    (lines : List String) → Decidable (s.ReadyFor reg lines)
  | [] => inferInstanceAs (Decidable s.AtPrompt)
  | line :: lines =>
      have := decidableReadyFor reg (s.enterLine reg line).1 lines
      inferInstanceAs (Decidable (s.AtPrompt ∧
        ((s.enterLine reg line).2 = none → ReadyFor reg (s.enterLine reg line).1 lines)))

theorem ReadyFor.tail (h : s.ReadyFor reg (line :: lines))
    (hline : s.enterLine reg line = (s', none)) : s'.ReadyFor reg lines := by
  have hrest := h.2
  rw [hline] at hrest
  exact hrest rfl

/-! ## Entering lines -/

theorem ask_of_atPrompt (h : s.AtPrompt) : Console.ask false s = (s, none) := by
  obtain ⟨prompt, hprompt⟩ := h.exists_prompt
  simp [Console.ask, h.1, hprompt, Except.map]

theorem take_of_plain (heditor : s.editor = none) (hbuffer : s.buffer = "") (h : Plain line) :
    Console.take false reg s (.line (line ++ "\n")) = s.enterLine reg line := by
  have hfeed : s.feedLine reg line = s.enterLine reg line := by
    rw [feedLine_eq_enter heditor h, hbuffer, String.empty_append]
    rfl
  rw [← hfeed]
  simp only [Console.take, Console.chomp_append_end h.2.1, Bool.false_eq_true, false_and, if_false]
  rcases s.feedLine reg line with ⟨s', failure | _⟩ <;> rfl

theorem buffer_enterLine (h : s.enterLine reg line = (s', none)) : s'.buffer = "" := by
  obtain ⟨after, rfl⟩ := exists_freshLine_of_enter h
  rfl

theorem run_script (hbuffer : s.buffer = "") (hplain : ∀ line ∈ lines, Plain line)
    (hready : s.ReadyFor reg lines) :
    Console.run false reg s (Console.linesOf (Console.script lines)) =
      s.forLines (enterLine reg) lines := by
  rw [Console.linesOf_script fun line hline ↦ (hplain line hline).2.1]
  -- Enter leaves the buffer empty, so that every line is typed the way the first one is.
  induction lines generalizing s with
  | nil =>
      rw [List.map_nil, Console.run, ask_of_atPrompt hready]
      rfl
  | cons line lines ih =>
      obtain ⟨hline, hlines⟩ := List.forall_mem_cons.mp hplain
      have hat : s.AtPrompt := hready.1
      rw [List.map_cons, Console.run, ask_of_atPrompt hat]
      dsimp only
      rw [take_of_plain hat.1 hbuffer hline, forLines]
      cases h : s.enterLine reg line with
      | mk s' failure =>
          cases failure with
          | none => exact ih (buffer_enterLine h) hlines (hready.tail h)
          | some failure => rfl

/-! ## Processing lines -/

theorem enter_eq_processLine (s : Session) :
    s.enter reg =
      match s.processLine reg s.buffer with
      | (s, none) => (s.freshLine, none)
      | (s, some failure) => (s, some failure) := by
  unfold enter processLine
  cases s.prompt with
  | error failure => rfl
  | ok prompt =>
      dsimp only
      split <;> rfl

theorem processLine_untyped (hreg : reg.LeavesTyping) (s : Session) (line : String) :
    s.untyped.processLine reg line = (s.processLine reg line).map untyped id := by
  have hprompt : s.untyped.prompt = s.prompt := rfl
  unfold processLine
  rw [hprompt]
  split
  · rfl
  · split
    · rfl
    · exact submit_untyped hreg s _ line

theorem enterLine_processLine (hreg : reg.LeavesTyping) (h : s.untyped = t.untyped)
    (line : String) :
    (s.enterLine reg line).map untyped id = (t.processLine reg line).map untyped id := by
  have htyped : (({ s with buffer := line, tabPending := false } : Session).processLine reg
      line).map untyped id = (t.processLine reg line).map untyped id := by
    rw [← processLine_untyped hreg, ← processLine_untyped hreg, ← h]
    rfl
  rw [enterLine, enter_eq_processLine, ← htyped]
  split
  · rename_i hs
    rw [hs]
    rfl
  · rename_i hs
    rw [hs]

theorem forLines_untyped (hreg : reg.LeavesTyping) (h : s.untyped = t.untyped)
    (lines : List String) :
    (s.forLines (enterLine reg) lines).map untyped id =
      (t.forLines (processLine reg) lines).map untyped id := by
  induction lines generalizing s t with
  | nil => exact Prod.ext h rfl
  | cons line lines ih =>
      have hline := enterLine_processLine hreg h line
      unfold forLines
      generalize s.enterLine reg line = o at hline
      generalize t.processLine reg line = o' at hline
      obtain ⟨s', failure⟩ := o
      obtain ⟨t', failure'⟩ := o'
      obtain ⟨huntyped, hfailure⟩ := Prod.mk.inj hline
      obtain rfl : failure = failure' := hfailure
      cases failure with
      | none => exact ih huntyped
      | some failure => exact hline

structure Fresh (s : Session) : Prop where
  buffer : s.buffer = ""
  cursor : s.cursor = s.history.length
  tabPending : s.tabPending = false

theorem history_processLine (hreg : reg.LeavesTyping) (h : s.processLine reg line = (s', none)) :
    s'.history = s.history ++ [line].filter (fun line ↦ !Text.isEmptyLine line) ∧
      s'.tabPending = s.tabPending := by
  unfold processLine at h
  split at h
  · cases h
  · rename_i prompt hprompt
    split at h
    · rename_i hblank
      cases h
      simp [hblank, print, draw]
    · rename_i hline
      have hhistory :=
        keeps_submit hreg.history (fun h ↦ (congrArg Session.history h :)) s prompt line
      have htab :=
        keeps_submit hreg.tabPending (fun h ↦ (congrArg Session.tabPending h :)) s prompt line
      rw [h] at hhistory htab
      exact ⟨by simpa [hline] using hhistory, htab⟩

theorem fresh_enterLine (hreg : reg.LeavesTyping) (h : s.enterLine reg line = (s', none)) :
    s'.history = s.history ++ [line].filter (fun line ↦ !Text.isEmptyLine line) ∧ s'.Fresh := by
  rw [enterLine, enter_eq_processLine] at h
  split at h
  · rename_i after hafter
    obtain ⟨hhistory, htab⟩ := history_processLine hreg hafter
    cases h
    exact ⟨hhistory, ⟨rfl, rfl, htab⟩⟩
  · cases h

theorem history_forLines (hreg : reg.LeavesTyping)
    (h : s.forLines (enterLine reg) lines = (s', none)) :
    s'.history = s.history ++ lines.filter (fun line ↦ !Text.isEmptyLine line) ∧
      (lines ≠ [] → s'.Fresh) := by
  induction lines generalizing s with
  | nil =>
      cases h
      exact ⟨by simp, fun hne ↦ absurd rfl hne⟩
  | cons line lines ih =>
      unfold forLines at h
      split at h
      · rename_i after hafter
        obtain ⟨hfirst, hfresh⟩ := fresh_enterLine hreg hafter
        obtain ⟨hrest, hlast⟩ := ih h
        refine ⟨?_, fun _ ↦ ?_⟩
        · rw [hrest, hfirst, List.append_assoc, ← List.filter_append]
          rfl
        · by_cases hne : lines = []
          · subst hne
            cases h
            exact hfresh
          · exact hlast hne
      · cases h

/-! ## Lines that do not fail -/

structure CanShow (Q : Line → Prop) (s : Session) : Prop where
  directory : s.InDirectory
  lines : s.LinesAre Q
  surface : ∀ l, Q l → s.surface.refusal l = none

theorem CanShow.of_same (h : s.CanShow Q) (htree : s'.tree = s.tree) (hcwd : s'.cwd = s.cwd)
    (hsettings : s'.settings = s.settings) (hsurface : s'.surface = s.surface) : s'.CanShow Q where
  directory := by
    rw [InDirectory, htree, hcwd]
    exact h.directory
  lines := by
    refine ⟨h.lines.texts, ?_, ?_, ?_⟩
    · rw [htree]
      exact h.lines.files
    · rw [htree]
      exact h.lines.label
    · rw [hsettings]
      exact h.lines.user
  surface := by
    rw [hsurface]
    exact h.surface

theorem CanShow.submit (hreg : reg.OfBuiltins) (h : s.CanShow Q) (prompt line : String) :
    (s.submit reg prompt line).2 = none ∧ (s.submit reg prompt line).1.CanShow Q := by
  let start : Session := { s.print (prompt ++ line) with history := s.history ++ [line] }
  have hstart : start.CanShow Q := h.of_same rfl rfl rfl rfl
  obtain ⟨hkept, hout⟩ := linesAre_execute hreg line hstart.lines
  have hsurface : (start.execute reg line).1.surface = s.surface :=
    (congrArg Session.surface (frame_execute hreg line start) :)
  have hafter : (start.execute reg line).1.CanShow Q :=
    ⟨inDirectory_execute hreg line hstart.directory, hkept, by rw [hsurface]; exact h.surface⟩
  obtain ⟨result, hresult⟩ := (execute_eq_ok_iff reg start line).mpr
    (.inl (inDirectory_execute hreg _ hstart.directory))
  have hexecute : start.execute reg line = ((start.execute reg line).1, .ok result) :=
    Prod.ext rfl hresult
  obtain ⟨drawn, hshown⟩ := exists_shown (start.execute reg line)
  change (shown (start.execute reg line)).2 = none ∧
    CanShow Q (shown (start.execute reg line)).1
  refine ⟨?_, ?_⟩
  · rw [hexecute]
    exact printAll_of_taken fun l hl ↦ hafter.surface l (hout result hresult l hl)
  · rw [hshown]
    exact hafter.of_same rfl rfl rfl rfl

theorem CanShow.enterLine (hreg : reg.OfBuiltins) (h : s.CanShow Q) (hat : s.AtPrompt)
    (line : String) :
    (s.enterLine reg line).2 = none ∧ (s.enterLine reg line).1.CanShow Q := by
  let typed : Session := { s with buffer := line, tabPending := false }
  have htyped : typed.CanShow Q := h.of_same rfl rfl rfl rfl
  obtain ⟨prompt, hprompt⟩ := hat.exists_prompt
  have htypedPrompt : typed.prompt = .ok prompt := hprompt
  obtain ⟨hdone, hkept⟩ := htyped.submit hreg prompt line
  change (typed.enter reg).2 = none ∧ CanShow Q (typed.enter reg).1
  rw [enter, htypedPrompt]
  dsimp only
  split
  · exact ⟨rfl, h.of_same rfl rfl rfl rfl⟩
  · split
    · rename_i hs
      rw [hs] at hkept
      exact ⟨rfl, hkept.of_same rfl rfl rfl rfl⟩
    · rename_i hs
      rw [hs] at hdone
      cases hdone

theorem CanShow.forLines (hreg : reg.OfBuiltins) (h : s.CanShow Q)
    (hready : s.ReadyFor reg lines) : (s.forLines (Session.enterLine reg) lines).2 = none := by
  induction lines generalizing s with
  | nil => rfl
  | cons line lines ih =>
      obtain ⟨hdone, hkept⟩ := h.enterLine hreg hready.1 line
      unfold Session.forLines
      split
      · rename_i hs
        rw [hs] at hkept
        exact ih hkept (hready.tail hs)
      · rename_i hs
        rw [hs] at hdone
        cases hdone

theorem CanShow.forLines_of_texts (hreg : reg.OfBuiltins) (hin : s.InDirectory)
    (h : s.surface = .page ∨ s.LinesAre fun l ↦ ∃ t, l = .text t)
    (hready : s.ReadyFor reg lines) : (s.forLines (Session.enterLine reg) lines).2 = none := by
  rcases h with hpage | htexts
  · have hlines : s.LinesAre fun _ ↦ True :=
      ⟨fun _ ↦ trivial, fun _ _ _ _ _ _ _ ↦ trivial, fun _ _ _ _ _ ↦ trivial,
        fun _ _ _ _ _ ↦ trivial⟩
    have htaken : s.CanShow fun _ ↦ True := ⟨hin, hlines, fun _ _ ↦ by rw [hpage]; rfl⟩
    exact htaken.forLines hreg hready
  · have htaken : s.CanShow fun l ↦ ∃ t, l = .text t := by
      refine ⟨hin, htexts, ?_⟩
      rintro l ⟨t, rfl⟩
      cases s.surface <;> rfl
    exact htaken.forLines hreg hready

/-- A script of lines that can be typed does what Enter behind each of them does, one line after the
other. Unless commands of their own look at the line being typed, that is what comes of processing
the lines; if none fails, an empty line is left behind, and the history has grown by the lines that
were not empty. With the shell's own commands no line fails in a directory on a page, and none
fails in a directory where all lines are texts. -/
theorem typing_is_submitting (reg : Registry) (s : Session) (lines : List String)
    (hbuffer : s.buffer = "") (hplain : ∀ line ∈ lines, Plain line)
    (hready : s.ReadyFor reg lines) :
    let o := Console.run false reg s (Console.linesOf (Console.script lines))
    o = s.forLines (enterLine reg) lines ∧
      (reg.LeavesTyping →
        o.map untyped id = (s.forLines (processLine reg) lines).map untyped id ∧
          (o.2 = none →
            o.1.history = s.history ++ lines.filter (fun line ↦ !Text.isEmptyLine line) ∧
              o.1.buffer = "" ∧ (lines ≠ [] → o.1.Fresh))) ∧
      (reg.OfBuiltins → reg.LeavesTyping ∧
        (s.InDirectory → (s.surface = .page ∨ s.LinesAre fun l ↦ ∃ t, l = .text t) →
          o.2 = none)) := by
  intro o
  have hrun : o = s.forLines (enterLine reg) lines := run_script hbuffer hplain hready
  refine ⟨hrun, fun hreg ↦ ⟨?_, fun hdone ↦ ?_⟩, fun hreg ↦ ⟨hreg.leavesTyping, ?_⟩⟩
  · rw [hrun]
    exact forLines_untyped hreg rfl lines
  · have hlines : s.forLines (enterLine reg) lines = (o.1, none) := by rw [← hrun, ← hdone]
    obtain ⟨hhistory, hfresh⟩ := history_forLines hreg hlines
    refine ⟨hhistory, ?_, hfresh⟩
    by_cases hne : lines = []
    · subst hne
      have hsame : s = o.1 := congrArg Prod.fst hlines
      rw [← hsame, hbuffer]
    · exact (hfresh hne).buffer
  · intro hin h
    rw [hrun]
    exact CanShow.forLines_of_texts hreg hin h hready

/-- A file is written and shown, with lines of spaces between, and the directory is changed. -/
theorem script_writes_file :
    let s : Session := { (ofConfig {}).1 with surface := .stream }
    let lines := ["echo hi > f", "", "cat f", "  ", "cd projects"]
    let o := Console.run false .standard s (Console.linesOf (Console.script lines))
    o.2 = none ∧ o.1.history = ["echo hi > f", "cat f", "cd projects"] ∧ o.1.Fresh ∧
      o.1.tree.lines? [3] = some [.text "hi"] ∧ o.1.cwd = [2] := by
  intro s lines o
  have hplain : ∀ line ∈ lines, Plain line := by decide +kernel
  have hready : s.ReadyFor .standard lines := by decide +kernel
  obtain ⟨-, hprocess, hbuiltin⟩ := typing_is_submitting .standard s lines rfl hplain hready
  obtain ⟨hleaves, hshow⟩ := hbuiltin Registry.standard_ofBuiltins
  have htexts : s.LinesAre fun l ↦ ∃ t, l = .text t := by
    refine ⟨fun t ↦ ⟨t, rfl⟩, ?_, Json.linesAre_text (fun t ↦ ⟨t, rfl⟩) _,
      Json.linesAre_text (fun t ↦ ⟨t, rfl⟩) _⟩
    have hroot : s.tree.root = .directory ""
        [.file "about.txt" [.text "Hi, I'm Carl.",
            .text "Type 'help' to see what this shell can do."] 2,
          .file "contact.txt" [.text "email: carl@carlegbert.com",
            .text "github: github.com/carlegbert"] 2,
          .directory "projects" [.file "shell.txt" [.text "This website."] 2]] := rfl
    rw [Tree.LinesAre, hroot]
    simp [Node.linesAre_directory_iff, Node.linesAre_file_iff]
  have hdone : o.2 = none := hshow (inDirectory_ofConfig {}) (.inr htexts)
  obtain ⟨hhistory, -, hfresh⟩ := (hprocess hleaves).2 hdone
  have hfile : o.1.tree.lines? [3] = some [.text "hi"] ∧ o.1.cwd = [2] := by decide +kernel
  exact ⟨hdone, hhistory, hfresh (by decide), hfile⟩

/-- A stream does not take a number, so that `whoami` breaks the script off for a user that is a
list with a number in it; the line stays in the buffer, and the next one is never read. -/
theorem script_breaks_off :
    let s : Session := { ofTree {} { user := .list [.int 5] } with surface := .stream }
    let lines := ["whoami", "echo hi"]
    let o := Console.run false .standard s (Console.linesOf (Console.script lines))
    s.buffer = "" ∧ (∀ line ∈ lines, Plain line) ∧ s.ReadyFor .standard lines ∧ o.1.AtPrompt ∧
      o.1.buffer = "whoami" ∧ o.1.history = ["whoami"] := by
  decide +kernel

end Session

end TreeShell
