import TreeShell.Proofs.Session.Commands
import TreeShell.Proofs.Session.Run

/-!
# Failed lines leave no trace

A command of the shell that works at one path does all of its work or none: whatever can go wrong
goes wrong before anything is changed. In the same way a redirect whose target is refused adds
nothing to what the body of its line has done. Only the log tells of a failure.
-/

namespace TreeShell

/-- A line that cannot be parsed, or one without a redirect and with at most one argument. -/
def Command.IsSingle (line : String) : Prop :=
  ∀ cmd, parse line = .ok cmd → cmd.redirect = none ∧ cmd.args.length ≤ 1

/-- No text file can be had at a path: it leads to a directory only, or it leads nowhere and no file
can be made there. -/
inductive Tree.Refuses (t : Tree) (cwd : Place) (path : String) : Prop
  | directory {place : Place} {kind : Kind}
      (only : ∀ q, t.resolvePath cwd path (some .text) = some q → t.isDirectory q = true)
      (found : t.resolvePath cwd path (some kind) = some place)
      (isDirectory : t.isDirectory place = true)
  | rejected {failure : Failure} (nowhere : ∀ kind, t.resolvePath cwd path (some kind) = none)
      (create : t.create cwd (Path.split path) .text = .error failure)

namespace Session

def unlogged (s : Session) : Session := { s with log := [] }

/-- An outcome has no error, or it has nothing else and the session is as it was. -/
inductive AllOrNothing (s : Session) : Outcome → Prop
  | done {s' : Session} {r : Result Place} (noError : r.err = []) : AllOrNothing s (s', .ok r)
  | refused {s' : Session} {r : Result Place} (same : s'.unlogged = s.unlogged)
      (noOutput : r.out = []) (noData : r.data = none) : AllOrNothing s (s', .ok r)
  | failed {s' : Session} (same : s'.unlogged = s.unlogged) (failure : Failure) :
      AllOrNothing s (s', .error failure)

variable {s : Session} {reg : Registry} {line : String} {cmd : Command} {r : Redirect}
  {path : String}

/-! ## Commands -/

theorem allOrNothing_make (s : Session) (segments : List String) (kind : Kind) :
    s.AllOrNothing (s.make segments kind) := by
  unfold make
  split
  · exact .done rfl
  · exact .refused rfl rfl rfl
  · exact .failed rfl _

theorem allOrNothing_touchOne (s : Session) (path : String) :
    s.AllOrNothing (s.touchOne path) := by
  unfold touchOne
  split
  · exact allOrNothing_make s _ _
  · split <;> exact .done rfl

theorem allOrNothing_mkdirOne (s : Session) (path : String) :
    s.AllOrNothing (s.mkdirOne path) := by
  unfold mkdirOne
  split
  · exact .done rfl
  · exact allOrNothing_make s _ _

theorem allOrNothing_catOne (s : Session) (path : String) : s.AllOrNothing (s.catOne path) := by
  unfold catOne
  split
  · exact .refused rfl rfl rfl
  · split
    · exact .done rfl
    · exact .refused rfl rfl rfl
    · exact .done rfl

theorem allOrNothing_listOne (several : Bool) (s : Session) (path : String) :
    s.AllOrNothing (s.listOne several path) := by
  unfold listOne
  split
  · exact .done rfl
  · exact .refused rfl rfl rfl

theorem allOrNothing_showValue (s : Session) (group : Nat) (v : Json) :
    s.AllOrNothing (s.showValue group v) := by
  unfold showValue
  split
  · exact .done rfl
  · exact .failed rfl _

theorem allOrNothing_each {one : Session → String → Outcome}
    (hone : ∀ path, s.AllOrNothing (one s path)) {paths : List String}
    (hpaths : paths.length ≤ 1) : s.AllOrNothing (s.each one paths) := by
  match paths, hpaths with
  | [], _ => exact .done rfl
  | [path], _ =>
      rw [each_singleton]
      exact hone path

/-- With more than one argument this fails: some paths may be worked on and others refused. -/
theorem allOrNothing_run (b : Builtin) (listing : List String) (s : Session)
    (hargs : cmd.args.length ≤ 1) : s.AllOrNothing (b.run listing s cmd) := by
  cases b with
  | clear => exact .done rfl
  | echo => exact .done rfl
  | help => exact .done rfl
  | pwd => exact allOrNothing_showValue s _ _
  | whoami => exact allOrNothing_showValue s _ _
  | cat => exact allOrNothing_each (allOrNothing_catOne s) hargs
  | touch => exact allOrNothing_each (allOrNothing_touchOne s) hargs
  | mkdir => exact allOrNothing_each (allOrNothing_mkdirOne s) hargs
  | cd =>
      simp only [Builtin.run, cd]
      split
      · exact .done rfl
      · split
        · exact .done rfl
        · exact .refused rfl rfl rfl
  | ls =>
      simp only [Builtin.run, ls]
      split
      · split
        · exact .done rfl
        · exact .failed rfl _
      · exact allOrNothing_each (allOrNothing_listOne _ s) hargs
  | vi =>
      simp only [Builtin.run, vi]
      split
      · exact .refused rfl rfl rfl
      · exact .done rfl

/-! ## Lines -/

theorem AllOrNothing.of_unlogged {s' : Session} {o : Outcome} (h : s'.AllOrNothing o)
    (hsame : s'.unlogged = s.unlogged) : s.AllOrNothing o := by
  cases h with
  | done noError => exact .done noError
  | refused same noOutput noData => exact .refused (same.trans hsame) noOutput noData
  | failed same failure => exact .failed (same.trans hsame) failure

theorem allOrNothing_settle {o : Outcome} (h : s.AllOrNothing o) (cmd : Command) :
    s.AllOrNothing ((settle cmd o).1.done (settle cmd o).2) := by
  cases h with
  | done noError => exact .done noError
  | refused same noOutput noData => exact .refused same noOutput noData
  | failed same failure =>
      cases failure with
      | shell e => exact .refused same rfl rfl
      | _ => exact .refused same rfl rfl

theorem allOrNothing_dispatch (hreg : reg.OfBuiltins) (s : Session)
    (hargs : cmd.args.length ≤ 1) :
    s.AllOrNothing ((s.dispatch reg cmd).1.done (s.dispatch reg cmd).2) := by
  unfold dispatch
  split
  · exact .done rfl
  · split
    · exact .refused rfl rfl rfl
    · rename_i spec hspec
      obtain ⟨b, hb⟩ := hreg spec (List.mem_of_find?_eq_some hspec)
      have hrun : s.AllOrNothing (b.run reg.listing (s.note (dispatchRecord cmd)) cmd) :=
        (allOrNothing_run b reg.listing _ hargs).of_unlogged rfl
      rw [hb]
      exact allOrNothing_settle hrun cmd

theorem allOrNothing_execute (hreg : reg.OfBuiltins) (s : Session)
    (hline : Command.IsSingle line) : s.AllOrNothing (s.execute reg line) := by
  cases hparse : Command.parse line with
  | error e =>
      rw [execute_of_error hparse]
      exact .refused rfl rfl rfl
  | ok cmd =>
      obtain ⟨hr, hargs⟩ := hline cmd hparse
      rw [execute_of_plain hparse hr]
      exact allOrNothing_dispatch hreg s hargs

theorem exists_result_of_isSingle (reg : Registry) (s : Session)
    (hline : Command.IsSingle line) : ∃ result, (s.execute reg line).2 = .ok result := by
  cases hparse : Command.parse line with
  | error e => exact ⟨_, by rw [execute_of_error hparse]; rfl⟩
  | ok cmd => exact ⟨_, by rw [execute_of_plain hparse (hline cmd hparse).1]; rfl⟩

/-! ## Redirects -/

theorem redirectTarget_cases (s : Session) (path : String) :
    (s.tree.Refuses s.cwd path ∧ (s.redirectTarget path).1.unlogged = s.unlogged ∧
        ∃ failure, (s.redirectTarget path).2 = .error failure) ∨
      ¬ s.tree.Refuses s.cwd path ∧ ∃ place, (s.redirectTarget path).2 = .ok place := by
  unfold redirectTarget
  cases htext : s.tree.resolvePath s.cwd path (some .text) with
  | some place =>
      dsimp only
      split_ifs with hd
      · refine .inl ⟨.directory (fun q hq ↦ ?_) htext hd, rfl, _, rfl⟩
        cases htext.symm.trans hq
        exact hd
      · refine .inr ⟨?_, _, rfl⟩
        rintro (⟨only, -, -⟩ | ⟨nowhere, -⟩)
        · exact hd (only place htext)
        · cases htext.symm.trans (nowhere .text)
  | none =>
      cases hdir : s.tree.resolvePath s.cwd path (some .directory) with
      | some place =>
          have hd := Tree.isDirectory_of_resolvePath hdir
          refine .inl ⟨.directory (fun q hq ↦ ?_) hdir hd, rfl, _, rfl⟩
          cases htext.symm.trans hq
      | none =>
          have hnowhere (kind : Kind) : s.tree.resolvePath s.cwd path (some kind) = none := by
            cases kind <;> assumption
          cases hc : s.tree.create s.cwd (Path.split path) .text with
          | ok made =>
              refine .inr ⟨?_, ?_⟩
              · rintro (⟨-, found, -⟩ | ⟨-, create⟩)
                · cases found.symm.trans (hnowhere _)
                · cases hc.symm.trans create
              · simp only [create, hc]
                exact ⟨_, rfl⟩
          | error failure =>
              refine .inl ⟨.rejected hnowhere hc, ?_⟩
              simp only [create, hc]
              cases failure <;> exact ⟨rfl, _, rfl⟩

theorem redirect_of_refuses (h : s.tree.Refuses s.cwd r.target) (inner : Result Place) :
    (s.redirect r inner).1.unlogged = s.unlogged := by
  rcases redirectTarget_cases s r.target with ⟨-, hsame, failure, hfailure⟩ | ⟨hnot, -⟩
  · unfold redirect
    generalize s.redirectTarget r.target = o at hsame hfailure
    obtain ⟨s', _⟩ := o
    cases hfailure
    cases failure <;> exact hsame
  · exact absurd h hnot

theorem redirect_of_not_refuses (h : ¬ s.tree.Refuses s.cwd r.target) (inner : Result Place) :
    ∃ place, (s.redirect r inner).2 = .ok { err := inner.err, data := some place } := by
  rcases redirectTarget_cases s r.target with ⟨hrefuses, -⟩ | ⟨-, place, hplace⟩
  · exact absurd hrefuses h
  · refine ⟨place, ?_⟩
    unfold redirect
    generalize s.redirectTarget r.target = o at hplace
    obtain ⟨s', _⟩ := o
    cases hplace
    rfl

theorem unlogged_send {o : Outcome} (h : o.1.tree.Refuses o.1.cwd r.target) :
    (o.send r).1.unlogged = o.1.unlogged := by
  obtain ⟨s', result⟩ := o
  cases result with
  | error failure => rfl
  | ok inner => exact redirect_of_refuses h inner

theorem send_of_not_refuses {o : Outcome} {inner : Result Place} (hinner : o.2 = .ok inner)
    (h : ¬ o.1.tree.Refuses o.1.cwd r.target) :
    ∃ place, (o.send r).2 = .ok { err := inner.err, data := some place } := by
  obtain ⟨s', _⟩ := o
  cases hinner
  exact redirect_of_not_refuses h inner

/-- With the shell's own commands, a line with a single argument that reports an error has changed
nothing but the log, and has no output and no file. A redirect whose target is refused leaves the
session as the body of the line left it, but for the log; any other target gets its file. -/
theorem failed_lines_leave_no_trace (reg : Registry) (s : Session) (line : String) :
    (reg.OfBuiltins → Command.IsSingle line →
        ∃ result, (s.execute reg line).2 = .ok result ∧
          (result.err ≠ [] → (s.execute reg line).1.unlogged = s.unlogged ∧
            result.out = [] ∧ result.data = none)) ∧
      ∀ cmd r, Command.parse line = .ok cmd → cmd.redirect = some r →
        let body := s.execute reg cmd.body
        (body.1.tree.Refuses body.1.cwd r.target →
            (s.execute reg line).1.unlogged = body.1.unlogged) ∧
          ∀ inner, body.2 = .ok inner → ¬ body.1.tree.Refuses body.1.cwd r.target →
            ∃ place, (s.execute reg line).2 = .ok { err := inner.err, data := some place } := by
  constructor
  · intro hreg hline
    obtain ⟨result, hresult⟩ := exists_result_of_isSingle reg s hline
    refine ⟨result, hresult, fun herr ↦ ?_⟩
    have hall := allOrNothing_execute hreg s hline
    generalize s.execute reg line = o at hresult hall
    cases hall with
    | done noError =>
        cases hresult
        exact absurd noError herr
    | refused same noOutput noData =>
        cases hresult
        exact ⟨same, noOutput, noData⟩
    | failed same failure => cases hresult
  · intro cmd r hparse hr body
    rw [execute_of_redirect hparse hr]
    exact ⟨unlogged_send, fun inner hinner ↦ send_of_not_refuses hinner⟩

/-- Neither a file in a directory that is missing nor a redirect to a directory changes anything. -/
theorem refused_touch_and_redirect :
    let s := (ofTree {} {}).run .standard [.execute "mkdir d"]
    (s.execute .standard "touch a/b").1.unlogged = s.unlogged ∧
      (s.execute .standard "echo hi > d").1.unlogged =
        (s.execute .standard "echo hi ").1.unlogged := by
  intro s
  constructor
  · have hsingle : Command.IsSingle "touch a/b" := by
      intro cmd hcmd
      cases hcmd.symm.trans (rfl : Command.parse "touch a/b" = .ok ⟨"touch", ["a/b"], none, _⟩)
      exact ⟨rfl, by decide⟩
    obtain ⟨result, hresult, htraceless⟩ := (failed_lines_leave_no_trace .standard s "touch a/b").1
      Registry.standard_ofBuiltins hsingle
    have herr : result.err ≠ [] := by
      have hfailed : ((s.execute .standard "touch a/b").2.map Result.err).toOption ≠ some [] := by
        decide +kernel
      intro hnil
      rw [hresult] at hfailed
      exact hfailed (congrArg some hnil)
    exact (htraceless herr).1
  · have hparse : Command.parse "echo hi > d" =
        .ok ⟨"echo", ["hi"], some ⟨.truncate, "d"⟩, "echo hi "⟩ := rfl
    let body := s.execute .standard "echo hi "
    have hnone : body.1.tree.resolvePath body.1.cwd "d" (some .text) = none := by decide +kernel
    have hfound : body.1.tree.resolvePath body.1.cwd "d" (some .directory) = some [0] := by
      decide +kernel
    have hrefuses : body.1.tree.Refuses body.1.cwd "d" :=
      .directory (fun q hq ↦ by cases hnone.symm.trans hq) hfound (by decide +kernel)
    exact ((failed_lines_leave_no_trace .standard s "echo hi > d").2 _ _ hparse rfl).1 hrefuses

end Session

end TreeShell
