import TreeShell.Session.Execute

/-!
# Chains of redirects

The body of a line may hold redirects of its own. Taking them off one by one ends, since every body
has fewer operators than its line, with a line that holds no redirect or cannot be parsed.
-/

namespace TreeShell

namespace Command

/-- The redirects of a line, the outermost first, and the line that is left without them. -/
def unwrap (line : String) : List Redirect × String :=
  match _hp : parse line with
  | .error _ => ([], line)
  | .ok cmd =>
      match _hr : cmd.redirect with
      | none => ([], line)
      | some r => (r :: (unwrap cmd.body).1, (unwrap cmd.body).2)
termination_by line.toList.count '>'
decreasing_by all_goals exact count_body_lt _hp _hr

/-- What holds of lines without a redirect, and of a line with one if it holds of the body, holds of
all lines. -/
theorem chain_induction {motive : String → Prop}
    (error : ∀ line e, parse line = .error e → motive line)
    (plain : ∀ line cmd, parse line = .ok cmd → cmd.redirect = none → motive line)
    (redirect : ∀ line cmd r, parse line = .ok cmd → cmd.redirect = some r → motive cmd.body →
      motive line)
    (line : String) : motive line := by
  -- The body of a line with a redirect has fewer operators than the line.
  induction hn : line.toList.count '>' using Nat.strongRecOn generalizing line with
  | _ n ih =>
      cases hp : parse line with
      | error e => exact error line e hp
      | ok cmd =>
          cases hr : cmd.redirect with
          | none => exact plain line cmd hp hr
          | some r => exact redirect line cmd r hp hr (ih _ (hn ▸ count_body_lt hp hr) _ rfl)

variable {line : String} {cmd : Command} {r : Redirect}

theorem unwrap_of_error {e : ShellError} (h : parse line = .error e) :
    unwrap line = ([], line) := by
  rw [unwrap]
  split <;> simp_all

theorem unwrap_of_plain (h : parse line = .ok cmd) (hr : cmd.redirect = none) :
    unwrap line = ([], line) := by
  rw [unwrap]
  split
  · rfl
  · rename_i c hc
    obtain rfl : cmd = c := Except.ok.inj (h.symm.trans hc)
    split <;> simp_all

theorem unwrap_of_redirect (h : parse line = .ok cmd) (hr : cmd.redirect = some r) :
    unwrap line = (r :: (unwrap cmd.body).1, (unwrap cmd.body).2) := by
  rw [unwrap]
  split
  · simp_all
  · rename_i c hc
    obtain rfl : cmd = c := Except.ok.inj (h.symm.trans hc)
    split <;> simp_all

theorem unwrap_snd_of_fst_eq_nil (h : (unwrap line).1 = []) : (unwrap line).2 = line := by
  cases hp : parse line with
  | error e => rw [unwrap_of_error hp]
  | ok cmd =>
      cases hr : cmd.redirect with
      | none => rw [unwrap_of_plain hp hr]
      | some r =>
          rw [unwrap_of_redirect hp hr] at h
          cases h

theorem parse_unwrap_snd (line : String) :
    (∃ e, parse (unwrap line).2 = .error e) ∨
      ∃ cmd, parse (unwrap line).2 = .ok cmd ∧ cmd.redirect = none := by
  induction line using chain_induction with
  | error line e h =>
      rw [unwrap_of_error h]
      exact .inl ⟨e, h⟩
  | plain line cmd h hr =>
      rw [unwrap_of_plain h hr]
      exact .inr ⟨cmd, h, hr⟩
  | redirect line cmd r h hr ih => rwa [unwrap_of_redirect h hr]

end Command

def Outcome.send (r : Redirect) : Outcome → Outcome
  | (s, .ok inner) => s.redirect r inner
  | (s, .error failure) => (s, .error failure)

namespace Session

variable {s : Session} {reg : Registry} {line : String} {cmd : Command} {r : Redirect}

def noTargetRecord (line : String) : Log.Record :=
  .debug "parser" "Redirect without target" [("line", Log.Detail.ofString line)]

theorem execute_of_error {e : ShellError} (h : Command.parse line = .error e) :
    s.execute reg line = (s.note (noTargetRecord line)).done (.ofError e.line) := by
  rw [execute]
  split
  · rename_i e' he
    obtain rfl : e = e' := Except.error.inj (h.symm.trans he)
    rfl
  · simp_all

theorem execute_of_plain (h : Command.parse line = .ok cmd) (hr : cmd.redirect = none) :
    s.execute reg line = (s.dispatch reg cmd).1.done (s.dispatch reg cmd).2 := by
  rw [execute]
  split
  · simp_all
  · rename_i c hc
    obtain rfl : cmd = c := Except.ok.inj (h.symm.trans hc)
    split
    · rfl
    · simp_all

theorem execute_of_redirect (h : Command.parse line = .ok cmd) (hr : cmd.redirect = some r) :
    s.execute reg line = (s.execute reg cmd.body).send r := by
  rw [execute]
  split
  · simp_all
  · rename_i c hc
    obtain rfl : cmd = c := Except.ok.inj (h.symm.trans hc)
    split
    · simp_all
    · rename_i r' hr'
      obtain rfl : r = r' := Option.some.inj (hr.symm.trans hr')
      rfl

/-- What holds of refused lines and of dispatched commands, and is kept by every redirect, holds of
whatever a line does. -/
theorem execute_preserves {I : Outcome → Prop}
    (hrefused : ∀ line error, I ((s.note (noTargetRecord line)).done (.ofError error)))
    (hdispatch : ∀ cmd, I ((s.dispatch reg cmd).1.done (s.dispatch reg cmd).2))
    (hredirect : ∀ s' r inner, I (s', .ok inner) → I (s'.redirect r inner)) (line : String) :
    I (s.execute reg line) := by
  induction line using Command.chain_induction with
  | error line e h =>
      rw [execute_of_error h]
      exact hrefused line e.line
  | plain line cmd h hr =>
      rw [execute_of_plain h hr]
      exact hdispatch cmd
  | redirect line cmd r h hr ih =>
      rw [execute_of_redirect h hr]
      generalize s.execute reg cmd.body = o at ih
      obtain ⟨s', result⟩ := o
      cases result with
      | ok inner => exact hredirect s' r inner ih
      | error failure => exact ih

/-- A line is executed from the inside: first what is left without the redirects, then one redirect
after the other, the outermost last. -/
theorem execute_eq_foldr (s : Session) (reg : Registry) (line : String) :
    s.execute reg line =
      (Command.unwrap line).1.foldr (fun r o ↦ o.send r)
        (s.execute reg (Command.unwrap line).2) := by
  induction line using Command.chain_induction with
  | error line e h => rw [Command.unwrap_of_error h, List.foldr_nil]
  | plain line cmd h hr => rw [Command.unwrap_of_plain h hr, List.foldr_nil]
  | redirect line cmd r h hr ih =>
      rw [Command.unwrap_of_redirect h hr, List.foldr_cons, ← ih, execute_of_redirect h hr]

end Session

end TreeShell
