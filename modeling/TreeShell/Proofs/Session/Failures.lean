import TreeShell.Proofs.Command.Tokens
import TreeShell.Proofs.Session.Frame
import TreeShell.Proofs.Session.Turns

/-!
# Lines that fail

Whatever a command does ends up in a result, so only the redirects of a line can make it fail. In a
directory none of them does. In a text file a target in another directory is refused with an error
line, while a target without a slash would have to be made a child of the file, which has none.
-/

namespace TreeShell

namespace Command

variable {line : String} {cmd : Command} {r : Redirect}

theorem target_ne_of_parse (h : parse line = .ok cmd) (hr : cmd.redirect = some r) :
    r.target ≠ "" := by
  obtain ⟨before, after, rest, -, htarget, -⟩ := words_of_redirect h hr
  exact Text.ne_of_tokens_eq_cons htarget

theorem target_ne_of_mem_unwrap (h : r ∈ (unwrap line).1) : r.target ≠ "" := by
  induction line using chain_induction with
  | error line e hp =>
      rw [unwrap_of_error hp] at h
      cases h
  | plain line cmd hp hr =>
      rw [unwrap_of_plain hp hr] at h
      cases h
  | redirect line cmd outer hp hr ih =>
      rw [unwrap_of_redirect hp hr] at h
      rcases List.mem_cons.mp h with rfl | h
      · exact target_ne_of_parse hp hr
      · exact ih h

end Command

namespace Tree

variable {t : Tree} {cwd : Place} {path : String}

theorem create_childless (hcwd : ¬ t.isDirectory cwd = true) (hne : path ≠ "")
    (hslash : Path.separator ∉ path.toList) (kind : Kind) :
    t.create cwd (Path.split path) kind = .error childless := by
  have hparent : t.parent? cwd [path] = some cwd := rfl
  rw [Path.split_of_not_mem hslash, create, hparent]
  change (if path = "" then _ else _) = _
  rw [if_neg hne, if_neg hcwd]

end Tree

namespace Session

variable {s : Session} {reg : Registry} {r : Redirect} {line : String}

/-! ## Redirects outside of directories -/

theorem redirect_childless (h : ¬ s.InDirectory) (hne : r.target ≠ "")
    (hslash : Path.separator ∉ r.target.toList) (inner : Result Place) :
    s.redirect r inner = (s, .error Tree.childless) := by
  have hnone (kind : Kind) : s.tree.resolvePath s.cwd r.target (some kind) = none :=
    Tree.resolve_of_not_isDirectory h (Path.split_ne_nil r.target)
  have hc := Tree.create_childless h hne hslash .text
  unfold redirect redirectTarget
  rw [hnone, hnone]
  simp only [create, hc]
  rfl

theorem foldr_send_childless (h : ¬ s.InDirectory) (inner : Result Place) {rs : List Redirect}
    (hne : ∀ r ∈ rs, r.target ≠ "") (hslash : ∃ r ∈ rs, Path.separator ∉ r.target.toList) :
    ∃ records, rs.foldr (fun r o ↦ o.send r) (s.done inner) =
      (s.written s.tree records, .error Tree.childless) := by
  induction rs with
  | nil =>
      obtain ⟨r, hr, -⟩ := hslash
      cases hr
  | cons r rs ih =>
      obtain ⟨hne, hne'⟩ := List.forall_mem_cons.mp hne
      rw [List.foldr_cons]
      by_cases hinner : ∃ r ∈ rs, Path.separator ∉ r.target.toList
      · -- An inner redirect has failed already; the outer ones pass that on.
        obtain ⟨records, hfailed⟩ := ih hne' hinner
        exact ⟨records, by rw [hfailed]; rfl⟩
      · push Not at hinner
        obtain ⟨records, hturns⟩ := @foldr_send_eq_turns s rs (fun r hr ↦ .inr (hinner r hr)) inner
        rw [Tree.turns_outside h] at hturns
        have houter : Path.separator ∉ r.target.toList := by
          obtain ⟨r', hr', hslash⟩ := hslash
          rcases List.mem_cons.mp hr' with rfl | hmem
          · exact hslash
          · exact absurd (hinner r' hmem) hslash
        have hout : ¬ (s.written s.tree records).InDirectory := h
        exact ⟨records, by rw [hturns]; exact redirect_childless hout hne houter _⟩

/-- The redirects of a line have their turns, unless the session is in a text file and a target has
no slash: that one fails, and no file is written. -/
theorem foldr_send_eq (s : Session) (inner : Result Place) {rs : List Redirect}
    (hne : ∀ r ∈ rs, r.target ≠ "") :
    ∃ records, rs.foldr (fun r o ↦ o.send r) (s.done inner) =
      if s.InDirectory ∨ ∀ r ∈ rs, Path.separator ∈ r.target.toList then
        let turns := s.tree.turns s.cwd inner.out rs.reverse
        (s.written turns.1 records).done (inner.after turns.2)
      else
        (s.written s.tree records, .error Tree.childless) := by
  split_ifs with hturns
  · exact foldr_send_eq_turns (fun r hr ↦ hturns.imp_right (· r hr)) inner
  · push Not at hturns
    exact foldr_send_childless hturns.1 inner hne hturns.2

theorem exists_done_unwrap (reg : Registry) (s : Session) (line : String) :
    ∃ (after : Session) (inner : Result Place),
      s.execute reg (Command.unwrap line).2 = after.done inner := by
  rcases Command.parse_unwrap_snd line with ⟨e, he⟩ | ⟨cmd, hcmd, hr⟩
  · exact ⟨_, _, execute_of_error he⟩
  · exact ⟨_, _, execute_of_plain hcmd hr⟩

theorem execute_eq_ok_iff (reg : Registry) (s : Session) (line : String) :
    (∃ result, (s.execute reg line).2 = .ok result) ↔
      (s.execute reg (Command.unwrap line).2).1.InDirectory ∨
        ∀ r ∈ (Command.unwrap line).1, Path.separator ∈ r.target.toList := by
  obtain ⟨after, inner, hexec⟩ := exists_done_unwrap reg s line
  obtain ⟨records, hsend⟩ :=
    foldr_send_eq after inner fun _ hr ↦ Command.target_ne_of_mem_unwrap hr
  rw [execute_eq_foldr, hexec, hsend]
  change _ ↔ after.InDirectory ∨ _
  split_ifs with hturns
  · exact iff_of_true ⟨_, rfl⟩ hturns
  · exact iff_of_false (fun ⟨_, h⟩ ↦ nomatch h) hturns

/-- What a line does in whatever place the session is. Its targets have their turns, unless the
command leaves the session in a text file and a target has no slash. Then the line fails at that
target, and no file is written. -/
theorem execute_turns_or_fails (s : Session) (line : String) :
    ∃ after inner records, s.RunsPlain (Command.unwrap line).2 after inner ∧
      s.execute .standard line =
        if after.InDirectory ∨ ∀ r ∈ (Command.unwrap line).1, Path.separator ∈ r.target.toList then
          let turns := after.tree.turns after.cwd inner.out (Command.unwrap line).1.reverse
          (after.written turns.1 records).done (inner.after turns.2)
        else
          (after.written after.tree records, .error Tree.childless) := by
  obtain ⟨after, inner, hruns, hexec⟩ := runsPlain_unwrap s line
  obtain ⟨records, hsend⟩ :=
    foldr_send_eq after inner fun _ hr ↦ Command.target_ne_of_mem_unwrap hr
  refine ⟨after, inner, records, hruns, ?_⟩
  rw [execute_eq_foldr, hexec]
  exact hsend

/-! ## Enter -/

theorem printAll_of_taken {lines : List Line} (h : ∀ l ∈ lines, s.surface.refusal l = none) :
    (s.printAll lines).2 = none := by
  induction lines generalizing s with
  | nil => rfl
  | cons line lines ih =>
      obtain ⟨hline, hlines⟩ := List.forall_mem_cons.mp h
      rw [printAll, hline]
      exact @ih (s.draw (.line line)) hlines

theorem submit_page (hreg : reg.OfBuiltins) (hsurface : s.surface = .page) {prompt : String}
    {result : Result Place}
    (hresult : ((s.submitting prompt).execute reg s.buffer).2 = .ok result) :
    ∃ s', ({ s with tabPending := false } : Session).submit reg prompt s.buffer = (s', none) ∧
      s'.frame = (s.submitting prompt).frame := by
  have hframe := frame_execute hreg s.buffer (s.submitting prompt)
  have hshown := aside_shown ((s.submitting prompt).execute reg s.buffer)
  change ∃ s', shown ((s.submitting prompt).execute reg s.buffer) = (s', none) ∧ _
  generalize (s.submitting prompt).execute reg s.buffer = o at hframe hresult hshown
  obtain ⟨after, _⟩ := o
  cases hresult
  have hpage : after.surface = .page := (congrArg Session.surface hframe).trans hsurface
  have htaken : ∀ l ∈ result.render, after.surface.refusal l = none := fun l _ ↦ by
    rw [hpage]
    rfl
  exact ⟨_, Prod.ext rfl (printAll_of_taken htaken), (frame_of_aside hshown).trans hframe⟩

theorem press_enter (hreg : reg.OfBuiltins) (heditor : s.editor = none)
    (hsurface : s.surface = .page) {k : KeyEvent} (hk : k.key = .enter) {prompt : String}
    (hprompt : s.prompt = .ok prompt)
    (hreturns : ∃ result, ((s.submitting prompt).execute reg s.buffer).2 = .ok result) :
    ∃ s', s.press reg k = (s', none) ∧ s'.buffer = "" ∧ s'.cursor = s'.history.length ∧
      s'.tabPending = false ∧
        s'.history = if Text.isEmptyLine s.buffer then s.history else s.history ++ [s.buffer] := by
  have hprompt' : ({ s with tabPending := false } : Session).prompt = .ok prompt := hprompt
  rw [press_of_enter heditor hk]
  unfold enter
  rw [hprompt']
  dsimp only
  split_ifs with hblank
  · exact ⟨_, rfl, rfl, rfl, rfl, rfl⟩
  · obtain ⟨result, hresult⟩ := hreturns
    obtain ⟨s', hsubmit, hframe⟩ := submit_page hreg hsurface hresult
    have htab : s'.tabPending = false := congrArg Session.tabPending hframe
    have hhistory : s'.history = s.history ++ [s.buffer] := congrArg Session.history hframe
    refine ⟨s'.freshLine, ?_, rfl, rfl, htab, hhistory⟩
    rw [hsubmit]

/-- With whatever commands, a line returns a result exactly if its command leaves the session in a
directory or no target of its redirects is without a slash. With the shell's own commands, Enter in
a directory therefore never leaves the line behind. -/
theorem execute_returns_iff (reg : Registry) (s : Session) :
    (∀ line, (∃ result, (s.execute reg line).2 = .ok result) ↔
      (s.execute reg (Command.unwrap line).2).1.InDirectory ∨
        ∀ r ∈ (Command.unwrap line).1, Path.separator ∈ r.target.toList) ∧
      (reg.OfBuiltins → s.InDirectory → s.editor = none → s.surface = .page →
        ∀ prompt, s.prompt = .ok prompt → ∀ k : KeyEvent, k.key = .enter →
          ∃ s', s.press reg k = (s', none) ∧ s'.buffer = "" ∧ s'.cursor = s'.history.length ∧
            s'.tabPending = false ∧ s'.history =
              if Text.isEmptyLine s.buffer then s.history else s.history ++ [s.buffer]) := by
  refine ⟨execute_eq_ok_iff reg s, ?_⟩
  intro hreg hin heditor hsurface prompt hprompt k hk
  refine press_enter hreg heditor hsurface hk hprompt ?_
  exact (execute_eq_ok_iff reg (s.submitting prompt) s.buffer).mpr
    (.inl (inDirectory_execute (s := s.submitting prompt) hreg _ hin))

/-- A command that moves into the file that it makes can be redirected to `d/x`, but not to `x`. -/
theorem redirect_of_moving_command :
    let move : Handler := fun s _ ↦
      (((s.make ["f"] .text).1.changeDirectory [0]), .error (.raised "Moved" "into a file"))
    let reg := Registry.standard.register ⟨"move", .custom move, none, ""⟩
    let s := ofTree {} {}
    (∃ result, (s.execute reg "move > d/x").2 = .ok result) ∧
      (¬ ∃ result, (s.execute reg "move > x").2 = .ok result) ∧
      ∃ s', s.press .standard (.ofKey .enter) = (s', none) ∧ s'.buffer = "" := by
  intro move reg s
  have hin : s.InDirectory := Tree.isDirectory_nil _
  obtain ⟨prompt, hprompt⟩ : ∃ prompt, s.prompt = .ok prompt := ⟨_, rfl⟩
  obtain ⟨s', hpress, hbuffer, -⟩ := (execute_returns_iff .standard s).2
    Registry.standard_ofBuiltins hin rfl rfl _ hprompt (.ofKey .enter) rfl
  refine ⟨?_, ?_, s', hpress, hbuffer⟩
  · exact ((execute_returns_iff reg s).1 "move > d/x").mpr (.inr (by decide +kernel))
  · rw [(execute_returns_iff reg s).1 "move > x", not_or]
    exact ⟨by decide +kernel, by decide +kernel⟩

/-- In a text file a redirect to a name fails, whatever the command was. -/
theorem redirect_in_file_fails :
    let s := (ofTree {} {}).run .standard [.execute "touch f", .changeDirectory [0]]
    ¬ ∃ result, (s.execute .standard "echo hi > x").2 = .ok result := by
  intro s
  rintro ⟨result, hresult⟩
  have hnone : (s.execute .standard "echo hi > x").2.toOption.isSome = false := by decide +kernel
  rw [hresult] at hnone
  cases hnone

end Session

end TreeShell
