import TreeShell.Proofs.Session.Frame

/-!
# What commands do not see

The shell's own commands do not see the line that is being typed, so a line does the same whether or
not it has been typed before it is executed.
-/

namespace TreeShell

namespace Session

variable {s : Session} {reg : Registry}

def untyped (s : Session) : Session := { s with buffer := "", cursor := 0, tabPending := false }

@[simp] theorem tree_untyped (s : Session) : s.untyped.tree = s.tree := rfl

@[simp] theorem cwd_untyped (s : Session) : s.untyped.cwd = s.cwd := rfl

@[simp] theorem surface_untyped (s : Session) : s.untyped.surface = s.surface := rfl

theorem create_untyped (s : Session) (start : Place) (segments : List String) (kind : Kind) :
    s.untyped.create start segments kind =
      (s.create start segments kind).map (Prod.map untyped id) := by
  unfold create
  rw [tree_untyped]
  cases s.tree.create start segments kind <;> rfl

theorem make_untyped (s : Session) (segments : List String) (kind : Kind) :
    s.untyped.make segments kind = (s.make segments kind).map untyped id := by
  unfold make
  rw [cwd_untyped, create_untyped]
  rcases s.create s.cwd segments kind with (e | _) | _ <;> rfl

theorem showValue_untyped (s : Session) (group : Nat) (v : Json) :
    s.untyped.showValue group v = (s.showValue group v).map untyped id := by
  unfold showValue
  split <;> rfl

theorem each_untyped {one : Session → String → Outcome}
    (hone : ∀ s path, one s.untyped path = (one s path).map untyped id) (s : Session)
    (paths : List String) : s.untyped.each one paths = (s.each one paths).map untyped id := by
  induction paths generalizing s with
  | nil => rfl
  | cons path paths ih =>
      unfold each
      rw [hone]
      rcases one s path with ⟨s', _ | first⟩
      · rfl
      · dsimp only [Prod.map, id]
        rw [ih]
        rfl

theorem listOne_untyped (several : Bool) (s : Session) (path : String) :
    s.untyped.listOne several path = (s.listOne several path).map untyped id := by
  unfold listOne
  rw [tree_untyped, cwd_untyped]
  split <;> rfl

theorem touchOne_untyped (s : Session) (path : String) :
    s.untyped.touchOne path = (s.touchOne path).map untyped id := by
  unfold touchOne
  rw [tree_untyped, cwd_untyped, make_untyped]
  split
  · rfl
  · split <;> rfl

theorem mkdirOne_untyped (s : Session) (path : String) :
    s.untyped.mkdirOne path = (s.mkdirOne path).map untyped id := by
  unfold mkdirOne
  rw [tree_untyped, cwd_untyped, make_untyped]
  split <;> rfl

theorem run_untyped (b : Builtin) (listing : List String) (s : Session) (cmd : Command) :
    b.run listing s.untyped cmd = (b.run listing s cmd).map untyped id := by
  cases b with
  | clear => rfl
  | pwd => exact showValue_untyped s _ _
  | whoami => exact showValue_untyped s _ _
  | cd =>
      simp only [Builtin.run, cd, tree_untyped, cwd_untyped]
      split
      · rfl
      · split <;> rfl
  | ls =>
      simp only [Builtin.run, ls]
      split
      · change (if s.tree.isDirectory s.cwd then _ else _) = _
        split <;> rfl
      · exact each_untyped (listOne_untyped _) s _
  | cat => exact each_untyped (fun _ _ ↦ rfl) s _
  | touch => exact each_untyped touchOne_untyped s _
  | mkdir => exact each_untyped mkdirOne_untyped s _
  | echo => rfl
  | vi =>
      simp only [Builtin.run, vi]
      split <;> rfl
  | help => rfl

end Session

/-- No command sees the line that is being typed, and none changes it or the history. -/
structure Registry.LeavesTyping (reg : Registry) : Prop where
  unseen : ∀ spec ∈ reg.specs, ∀ listing s cmd,
    spec.action.run listing (Session.untyped s) cmd =
      (spec.action.run listing s cmd).map Session.untyped id
  history : reg.Keeps Session.history
  tabPending : reg.Keeps Session.tabPending

theorem Registry.OfBuiltins.leavesTyping {reg : Registry} (hreg : reg.OfBuiltins) :
    reg.LeavesTyping where
  unseen := by
    intro spec hspec listing s cmd
    obtain ⟨b, hb⟩ := hreg spec hspec
    rw [hb]
    exact Session.run_untyped b listing s cmd
  history := hreg.keeps fun h ↦ (congrArg Session.history h :)
  tabPending := hreg.keeps fun h ↦ (congrArg Session.tabPending h :)

namespace Session

variable {s : Session} {reg : Registry}

/-! ## Lines -/

theorem settle_untyped (cmd : Command) (o : Outcome) :
    settle cmd (o.map untyped id) = (settle cmd o).map untyped id := by
  obtain ⟨s, result⟩ := o
  rcases result with (e | _) | _ <;> rfl

theorem dispatch_untyped (hreg : reg.LeavesTyping) (s : Session) (cmd : Command) :
    s.untyped.dispatch reg cmd = (s.dispatch reg cmd).map untyped id := by
  unfold dispatch
  split
  · rfl
  · split
    · rfl
    · rename_i spec hspec
      have hrun := hreg.unseen spec (List.mem_of_find?_eq_some hspec) reg.listing
        (s.note (dispatchRecord cmd)) cmd
      rw [← settle_untyped]
      exact congrArg (settle cmd) hrun

theorem redirectTarget_untyped (s : Session) (target : String) :
    s.untyped.redirectTarget target = (s.redirectTarget target).map untyped id := by
  unfold redirectTarget
  dsimp only
  rw [tree_untyped, cwd_untyped, create_untyped]
  split
  · rfl
  · split
    · rfl
    · rcases s.create s.cwd (Path.split target) .text with (e | _) | _ <;> rfl

theorem redirect_untyped (s : Session) (r : Redirect) (inner : Result Place) :
    s.untyped.redirect r inner = (s.redirect r inner).map untyped id := by
  unfold redirect
  rw [redirectTarget_untyped]
  rcases s.redirectTarget r.target with ⟨s', failure | place⟩
  · cases failure <;> rfl
  · cases r.mode <;> rfl

theorem execute_untyped (hreg : reg.LeavesTyping) (line : String) (s : Session) :
    s.untyped.execute reg line = (s.execute reg line).map untyped id := by
  induction line using Command.chain_induction with
  | error line e h =>
      rw [execute_of_error h, execute_of_error h]
      rfl
  | plain line cmd h hr =>
      rw [execute_of_plain h hr, execute_of_plain h hr, dispatch_untyped hreg]
      rfl
  | redirect line cmd r h hr ih =>
      rw [execute_of_redirect h hr, execute_of_redirect h hr, ih]
      rcases s.execute reg cmd.body with ⟨s', failure | inner⟩
      · rfl
      · exact redirect_untyped s' r inner

theorem printAll_untyped (s : Session) (lines : List Line) :
    s.untyped.printAll lines = (s.printAll lines).map untyped id := by
  induction lines generalizing s with
  | nil => rfl
  | cons line lines ih =>
      unfold printAll
      rw [surface_untyped]
      split
      · rfl
      · exact ih (s.draw (.line line))

theorem shown_untyped (o : Outcome) : shown (o.map untyped id) = (shown o).map untyped id := by
  obtain ⟨s, failure | result⟩ := o
  · rfl
  · exact printAll_untyped s result.render

theorem submit_untyped (hreg : reg.LeavesTyping) (s : Session) (prompt line : String) :
    s.untyped.submit reg prompt line = (s.submit reg prompt line).map untyped id := by
  have hline := execute_untyped hreg line
    { s.print (prompt ++ line) with history := s.history ++ [line] }
  rw [submit_eq_shown, submit_eq_shown, ← shown_untyped, ← hline]
  rfl

end Session

end TreeShell
