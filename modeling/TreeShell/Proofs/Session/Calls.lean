import TreeShell.Proofs.Command.Tokens
import TreeShell.Proofs.Session.Commands

/-!
# What a line calls

The body of a line with a redirect is executed first, and it has fewer operators than the line. So
the executions that are nested in one another come to an end, at a line that has no redirect or is
refused. Only this innermost line calls a command, and it calls one at most.
-/

namespace TreeShell

namespace Text

theorem tokens_eq_nil_iff {s : String} : tokens s = [] ↔ ∀ c ∈ s.toList, c = ' ' := by
  constructor
  · intro h c hc
    exact eq_space_of_tokens_eq_nil h hc
  · intro h
    cases hs : tokens s with
    | nil => rfl
    | cons w ws =>
        obtain ⟨hne, hone⟩ := ne_and_not_mem_of_mem_tokens (hs ▸ List.mem_cons_self)
        obtain ⟨c, hc⟩ := List.exists_mem_of_ne_nil w.toList (by simpa using hne)
        have hspace : c ≠ ' ' := fun hc' ↦ hone (hc' ▸ hc)
        have hcount := count_tokens hspace s
        rw [hs, List.flatMap_cons, List.count_append] at hcount
        have hword : 0 < w.toList.count c := List.count_pos_iff.mpr hc
        have hmem : c ∈ s.toList := List.count_pos_iff.mp (by omega)
        exact absurd (h c hmem) hspace

end Text

/-- A line that calls no command: it is empty but for spaces, names a command that is not
registered, or is refused. -/
inductive Registry.Idle (reg : Registry) (line : String) : Prop
  | blank (h : ∀ c ∈ line.toList, c = ' ')
  | unknown (name : String) (args : List String) (hplain : '>' ∉ line.toList)
      (hwords : Text.tokens line = name :: args) (hname : reg.find? name = none)
  | refused (e : ShellError) (h : Command.parse line = .error e)

structure Call where
  spec : Spec
  session : Session
  command : Command

def Call.outcome (reg : Registry) (c : Call) : Outcome :=
  let (s, result) := Session.settle c.command (c.spec.action.run reg.listing c.session c.command)
  s.done result

namespace Session

def call (s : Session) (cmd : Command) (spec : Spec) : Call :=
  ⟨spec, s.note (dispatchRecord cmd), cmd⟩

def unknownRecord (cmd : Command) : Log.Record :=
  .info "interpreter" "Unknown command" [("command", Log.Detail.ofString cmd.name)]

/-- How a line is executed: with how many executions nested in its own, and with which calls, in
the order in which they are made. -/
inductive Executes (reg : Registry) (s : Session) : String → Nat → List Call → Outcome → Prop
  | refused {line : String} {e : ShellError} (h : Command.parse line = .error e) :
      Executes reg s line 0 [] ((s.note (noTargetRecord line)).done (.ofError e.line))
  | blank {line : String} {cmd : Command} (h : Command.parse line = .ok cmd)
      (hr : cmd.redirect = none) (hempty : cmd.isEmpty = true) :
      Executes reg s line 0 [] (s.done .empty)
  | unknown {line : String} {cmd : Command} (h : Command.parse line = .ok cmd)
      (hr : cmd.redirect = none) (hempty : cmd.isEmpty = false)
      (hname : reg.find? cmd.name = none) :
      Executes reg s line 0 []
        ((s.note (unknownRecord cmd)).done (.ofError (ShellError.commandNotFound cmd.name).line))
  | called {line : String} {cmd : Command} {spec : Spec} (h : Command.parse line = .ok cmd)
      (hr : cmd.redirect = none) (hempty : cmd.isEmpty = false)
      (hname : reg.find? cmd.name = some spec) :
      Executes reg s line 0 [s.call cmd spec] ((s.call cmd spec).outcome reg)
  | redirected {line : String} {cmd : Command} {r : Redirect} {nested : Nat} {calls : List Call}
      {o : Outcome} (h : Command.parse line = .ok cmd) (hr : cmd.redirect = some r)
      (hbody : Executes reg s cmd.body nested calls o) :
      Executes reg s line (nested + 1) calls (o.send r)

variable {s : Session} {reg : Registry} {line : String} {nested : Nat} {calls : List Call}
  {o : Outcome}

theorem executes_dispatch {cmd : Command} (h : Command.parse line = .ok cmd)
    (hr : cmd.redirect = none) :
    ∃ calls, s.Executes reg line 0 calls ((s.dispatch reg cmd).1.done (s.dispatch reg cmd).2) := by
  rw [dispatch]
  cases hempty : cmd.isEmpty with
  | true => exact ⟨_, .blank h hr hempty⟩
  | false =>
      cases hname : reg.find? cmd.name with
      | none => exact ⟨_, .unknown h hr hempty hname⟩
      | some spec => exact ⟨_, .called h hr hempty hname⟩

theorem executes_execute (s : Session) (reg : Registry) (line : String) :
    ∃ nested calls, s.Executes reg line nested calls (s.execute reg line) := by
  induction line using Command.chain_induction with
  | error line e h =>
      rw [execute_of_error h]
      exact ⟨0, [], .refused h⟩
  | plain line cmd h hr =>
      rw [execute_of_plain h hr]
      exact ⟨0, executes_dispatch h hr⟩
  | redirect line cmd r h hr ih =>
      obtain ⟨nested, calls, hbody⟩ := ih
      rw [execute_of_redirect h hr]
      exact ⟨nested + 1, calls, .redirected h hr hbody⟩

theorem Executes.unique {nested' : Nat} {calls' : List Call} {o' : Outcome}
    (h : s.Executes reg line nested calls o) (h' : s.Executes reg line nested' calls' o') :
    nested = nested' ∧ calls = calls' ∧ o = o' := by
  induction h generalizing nested' calls' o' with
  | refused h => cases h' <;> simp_all
  | blank h hr hempty => cases h' <;> simp_all
  | unknown h hr hempty hname => cases h' <;> simp_all
  | called h hr hempty hname => cases h' <;> simp_all
  | redirected h hr hbody ih =>
      cases h' with
      | redirected h' hr' hbody' =>
          cases h.symm.trans h'
          cases hr.symm.trans hr'
          obtain ⟨rfl, rfl, rfl⟩ := ih hbody'
          exact ⟨rfl, rfl, rfl⟩
      | _ => simp_all

/-- Every nested execution is of a line with an operator less. -/
theorem Executes.nested_le (h : s.Executes reg line nested calls o) :
    nested ≤ line.toList.count '>' := by
  induction h with
  | redirected h hr hbody ih =>
      have hless := Command.count_body_lt h hr
      omega
  | _ => exact Nat.zero_le _

theorem idle_of_isEmpty {cmd : Command} (h : Command.parse line = .ok cmd)
    (hr : cmd.redirect = none) (hempty : cmd.isEmpty = true) : reg.Idle line := by
  obtain ⟨hwords, hiff⟩ := Command.tokens_body h
  rw [Command.body_of_redirect_eq_none h hr, hiff.mp hempty] at hwords
  exact .blank (Text.tokens_eq_nil_iff.mp hwords)

theorem tokens_of_not_isEmpty {cmd : Command} (h : Command.parse line = .ok cmd)
    (hr : cmd.redirect = none) (hempty : cmd.isEmpty = false) :
    Text.tokens line = cmd.name :: cmd.args := by
  have hwords := (Command.tokens_body h).1
  have hname : cmd.name ≠ "" := of_decide_eq_false hempty
  rwa [Command.body_of_redirect_eq_none h hr, Command.words, if_neg hname] at hwords

theorem not_idle_of_find? {cmd : Command} {spec : Spec} (h : Command.parse line = .ok cmd)
    (hr : cmd.redirect = none) (hempty : cmd.isEmpty = false)
    (hname : reg.find? cmd.name = some spec) : ¬ reg.Idle line := by
  have hwords := tokens_of_not_isEmpty h hr hempty
  intro hidle
  cases hidle with
  | blank hblank =>
      rw [Text.tokens_eq_nil_iff.mpr hblank] at hwords
      cases hwords
  | unknown name args hplain hwords' hname' =>
      cases hwords.symm.trans hwords'
      cases hname.symm.trans hname'
  | refused e he => cases h.symm.trans he

/-- The innermost line calls one command, unless it is idle. -/
theorem Executes.calls_cases (h : s.Executes reg line nested calls o) :
    calls = [] ∧ reg.Idle (Command.unwrap line).2 ∨
      ¬ reg.Idle (Command.unwrap line).2 ∧
        ∃ cmd spec, calls = [s.call cmd spec] ∧
          Command.parse (Command.unwrap line).2 = .ok cmd ∧ reg.find? cmd.name = some spec := by
  induction h with
  | refused h =>
      rw [Command.unwrap_of_error h]
      exact .inl ⟨rfl, .refused _ h⟩
  | blank h hr hempty =>
      rw [Command.unwrap_of_plain h hr]
      exact .inl ⟨rfl, idle_of_isEmpty h hr hempty⟩
  | unknown h hr hempty hname =>
      rw [Command.unwrap_of_plain h hr]
      have hplain := Command.not_mem_of_parse h hr
      exact .inl ⟨rfl, .unknown _ _ hplain (tokens_of_not_isEmpty h hr hempty) hname⟩
  | called h hr hempty hname =>
      rw [Command.unwrap_of_plain h hr]
      exact .inr ⟨not_idle_of_find? h hr hempty hname, _, _, rfl, h, hname⟩
  | redirected h hr hbody ih =>
      rw [Command.unwrap_of_redirect h hr]
      exact ih

/-- The body of a line has fewer operators than the line, by the one that was cut out at least. So
executing a line ends, and with no more nested executions than the line has operators. One command
is called, once, and none exactly if the innermost line is idle. -/
theorem execute_calls_one_command (reg : Registry) (line : String) :
    (∀ cmd r, Command.parse line = .ok cmd → cmd.redirect = some r →
      cmd.body.toList.count '>' + r.mode.operator.length ≤ line.toList.count '>') ∧
    ∀ s : Session, ∃ nested calls,
      (∀ n cs o, s.Executes reg line n cs o ↔
        n = nested ∧ cs = calls ∧ o = s.execute reg line) ∧
      nested ≤ line.toList.count '>' ∧
      (calls = [] ∧ reg.Idle (Command.unwrap line).2 ∨
        ¬ reg.Idle (Command.unwrap line).2 ∧
          ∃ cmd spec, calls = [s.call cmd spec] ∧
            Command.parse (Command.unwrap line).2 = .ok cmd ∧ reg.find? cmd.name = some spec) := by
  refine ⟨fun cmd r h hr ↦ Command.count_body_add_operator_le h hr, fun s ↦ ?_⟩
  obtain ⟨nested, calls, hexecutes⟩ := executes_execute s reg line
  refine ⟨nested, calls, fun n cs o ↦ ⟨fun h ↦ h.unique hexecutes, ?_⟩, hexecutes.nested_le,
    hexecutes.calls_cases⟩
  rintro ⟨rfl, rfl, rfl⟩
  exact hexecutes

/-- Words that move in front of the place where a line was cut may be operators again. -/
theorem echo_is_called_once :
    let s := ofTree {} {}
    let line := "echo > a >> b > c"
    Command.parse line = .ok ⟨"echo", [">", "a", ">", "c"], some ⟨.append, "b"⟩, "echo > a  > c"⟩ ∧
      "echo > a  > c".toList.count '>' + RedirectMode.append.operator.length ≤
        line.toList.count '>' ∧
      s.Executes .standard line 3 [s.call ⟨"echo", [], none, "echo  "⟩ Builtin.echo.spec]
        (s.execute .standard line) := by
  have hparse : Command.parse "echo > a >> b > c" =
      .ok ⟨"echo", [">", "a", ">", "c"], some ⟨.append, "b"⟩, "echo > a  > c"⟩ := by rfl
  have hbody : Command.parse "echo > a  > c" =
      .ok ⟨"echo", [">", "c"], some ⟨.truncate, "a"⟩, "echo  > c"⟩ := by rfl
  have hinner : Command.parse "echo  > c" =
      .ok ⟨"echo", [], some ⟨.truncate, "c"⟩, "echo  "⟩ := by rfl
  have hinnermost : Command.parse "echo  " = .ok ⟨"echo", [], none, "echo  "⟩ := by rfl
  intro s line
  obtain ⟨hcount, hexecute⟩ := execute_calls_one_command .standard line
  obtain ⟨nested, calls, hiff, -, -⟩ := hexecute s
  obtain ⟨o, hexecutes⟩ : ∃ o,
      s.Executes .standard line 3 [s.call ⟨"echo", [], none, "echo  "⟩ Builtin.echo.spec] o :=
    ⟨_, .redirected hparse rfl (.redirected hbody rfl
      (.redirected hinner rfl (.called hinnermost rfl rfl rfl)))⟩
  obtain ⟨hnested, hcalls, -⟩ := (hiff _ _ _).mp hexecutes
  have hless := hcount _ _ hparse rfl
  have hexecuted := (hiff _ _ _).mpr ⟨hnested, hcalls, rfl⟩
  exact ⟨hparse, hless, hexecuted⟩

end Session

end TreeShell
