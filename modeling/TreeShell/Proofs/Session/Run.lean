import TreeShell.Console.Start
import TreeShell.Proofs.Command.Chain
import TreeShell.Proofs.Tree.Growth

/-!
# Runs of a session

A run takes one step after the other, also behind a step that fails. Whatever a session does to its
tree, it makes nodes in two ways only: at a path of a line that leads nowhere, and for an editor
that saves a text without a file. Lines change without a save in one way only: where the editor
changes a line that is a list. A policy says which of all these are allowed.
-/

namespace TreeShell

def ExCommand.saves : ExCommand → Bool
  | write | writeQuit => true
  | _ => false

def Builtin.makes : Builtin → Option Kind
  | touch => some .text
  | mkdir => some .directory
  | _ => none

namespace Registry

def OfBuiltins (reg : Registry) : Prop := ∀ spec ∈ reg.specs, ∃ b, spec.action = .builtin b

theorem standard_ofBuiltins : standard.OfBuiltins := by
  intro spec h
  obtain ⟨b, -, rfl⟩ := List.mem_map.mp h
  exact ⟨b, rfl⟩

def makes (reg : Registry) (cmd : Command) : Option Kind :=
  match (reg.find? cmd.name).map Spec.action with
  | some (.builtin b) => b.makes
  | _ => none

def argumentPaths (reg : Registry) (line : String) : List (String × Kind) :=
  match Command.parse line with
  | .error _ => []
  | .ok cmd => (reg.makes cmd).elim [] fun kind ↦ cmd.args.map (·, kind)

/-- The paths at which a line may make nodes, with their kinds: the targets of its redirects and
the arguments of the command that is left. -/
def paths (reg : Registry) (line : String) : List (String × Kind) :=
  (Command.unwrap line).1.map (fun r ↦ (r.target, .text)) ++
    reg.argumentPaths (Command.unwrap line).2

variable {reg : Registry} {line : String} {cmd : Command} {r : Redirect}

theorem paths_of_plain (h : Command.parse line = .ok cmd) (hr : cmd.redirect = none) :
    reg.paths line = (reg.makes cmd).elim [] fun kind ↦ cmd.args.map (·, kind) := by
  simp [paths, Command.unwrap_of_plain h hr, argumentPaths, h]

theorem paths_of_redirect (h : Command.parse line = .ok cmd) (hr : cmd.redirect = some r) :
    reg.paths line = (r.target, .text) :: reg.paths cmd.body := by
  simp [paths, Command.unwrap_of_redirect h hr]

end Registry

namespace Session

inductive Step where
  | execute (line : String)
  | key (k : KeyEvent)
  | feed (line : String)
  | complete
  | ex (command : String)
  | changeDirectory (place : Place)

variable (reg : Registry)

def step (s : Session) : Step → Session
  | .execute line => (s.execute reg line).1
  | .key k => (s.press reg k).1
  | .feed line => (s.feedLine reg line).1
  | .complete => (s.complete reg).1
  | .ex command => s.editor.elim s fun e ↦ (s.runEx e command).1
  | .changeDirectory place => s.changeDirectory place

def run (s : Session) (steps : List Step) : Session := steps.foldl (step reg) s

@[simp] theorem run_nil (s : Session) : s.run reg [] = s := rfl

@[simp] theorem run_cons (s : Session) (x : Step) (steps : List Step) :
    s.run reg (x :: steps) = (s.step reg x).run reg steps := rfl

theorem run_preserves {I : Session → Prop} {steps : List Step}
    (hstep : ∀ s, ∀ x ∈ steps, I s → I (s.step reg x)) {s : Session} (hi : I s) :
    I (s.run reg steps) := by
  induction steps generalizing s with
  | nil => exact hi
  | cons x steps ih =>
      have hfirst := hstep s x (by simp) hi
      exact ih (fun s y hy ↦ hstep s y (by simp [hy])) hfirst

theorem pressAll_preserves {I : Session → Prop} (hpress : ∀ s k, I s → I (s.press reg k).1)
    {s : Session} (hi : I s) (ks : List KeyEvent) : I (s.pressAll reg ks).1 := by
  induction ks generalizing s with
  | nil => exact hi
  | cons k ks ih =>
      have hkey := hpress s k hi
      unfold pressAll
      split
      · rename_i s' hs
        rw [hs] at hkey
        exact ih hkey
      · rename_i s' failure hs
        rwa [hs] at hkey

/-! ## Events -/

/-- What can happen to a session: a step, a run at the console with interrupts, or a change of its
settings. -/
inductive Event where
  | step (x : Step)
  | console (terminal : Bool) (inputs : List Console.Input)
  | setUser (user : Json)
  | configure (hostname promptTemplate enableAutocomplete : Json)

def undergo (reg : Registry) (s : Session) : Event → Session
  | .step x => s.step reg x
  | .console terminal inputs => (Console.run terminal reg s inputs).1
  | .setUser user => s.setUser user
  | .configure hostname promptTemplate enableAutocomplete =>
      { s with settings := { s.settings with hostname, promptTemplate, enableAutocomplete } }

/-- A property is kept by whatever can happen. -/
structure Endures (I : Session → Prop) : Prop where
  step : ∀ {s : Session} (x : Step), I s → I (s.step reg x)
  raw : ∀ {s : Session} (text : String), I s → I (s.draw (.raw text))
  emptied : ∀ {s : Session}, I s → I { s with buffer := "" }
  user : ∀ {s : Session} (user : Json), I s → I (s.setUser user)
  configured : ∀ {s : Session} (hostname promptTemplate enableAutocomplete : Json), I s →
    I { s with settings := { s.settings with hostname, promptTemplate, enableAutocomplete } }

namespace Endures

variable {reg} {I : Session → Prop} {s : Session}

theorem ask (h : Endures reg I) (terminal : Bool) (hi : I s) : I (Console.ask terminal s).1 := by
  unfold Console.ask
  dsimp only
  split
  · exact hi
  · split
    · exact h.raw _ hi
    · exact hi

theorem wipe (h : Endures reg I) (p : Prop) [Decidable p] (hi : I s) :
    I (if p then s.draw Console.wipe else s) := by
  split
  · exact h.raw _ hi
  · exact hi

theorem take (h : Endures reg I) (terminal : Bool) (input : Console.Input) (hi : I s) :
    I (Console.take terminal reg s input).1 := by
  cases input with
  | interrupt => exact h.emptied (h.raw _ hi)
  | line raw =>
      unfold Console.take
      dsimp only
      have hfeed := h.step (.feed (Console.chomp terminal raw)) (h.wipe (terminal = true ∧
        (!s.editor.isSome) = true ∧ (Console.chomp terminal raw).toList.getLast? ≠ some '\t') hi)
      split
      · rename_i hs
        rwa [Session.step, hs] at hfeed
      · rename_i hs
        rw [Session.step, hs] at hfeed
        exact h.wipe _ hfeed

theorem console (h : Endures reg I) (terminal : Bool) (inputs : List Console.Input) (hi : I s) :
    I (Console.run terminal reg s inputs).1 := by
  induction inputs generalizing s with
  | nil =>
      have hask := h.ask terminal hi
      unfold Console.run
      split
      · rename_i hs
        rwa [hs] at hask
      · rename_i hs
        rw [hs] at hask
        unfold Console.finish
        split
        · exact h.raw _ hask
        · exact hask
  | cons input inputs ih =>
      have hask := h.ask terminal hi
      unfold Console.run
      split
      · rename_i hs
        rwa [hs] at hask
      · rename_i asked hs
        rw [hs] at hask
        have htake := h.take terminal input hask
        split
        · rename_i ht
          rwa [ht] at htake
        · rename_i taken ht
          rw [ht] at htake
          exact ih htake

theorem undergo (h : Endures reg I) (event : Event) (hi : I s) : I (s.undergo reg event) := by
  cases event with
  | step x => exact h.step x hi
  | console terminal inputs => exact h.console terminal inputs hi
  | setUser user => exact h.user user hi
  | configure hostname promptTemplate enableAutocomplete =>
      exact h.configured hostname promptTemplate enableAutocomplete hi

theorem events (h : Endures reg I) (events : List Event) (hi : I s) :
    I (events.foldl (Session.undergo reg) s) := by
  induction events generalizing s with
  | nil => exact hi
  | cons event events ih => exact ih (h.undergo event hi)

/-- A run is a sequence of events that are all steps. -/
theorem run (h : Endures reg I) (steps : List Step) (hi : I s) : I (s.run reg steps) := by
  have hevents := h.events (steps.map .step) hi
  rwa [List.foldl_map] at hevents

end Endures

structure Submits (s : Session) (k : KeyEvent) (prompt : String) : Prop where
  key : k.key = .enter
  line : Text.isEmptyLine s.buffer = false
  prompt : s.prompt = .ok prompt

def submitting (s : Session) (prompt : String) : Session :=
  { s.print (prompt ++ s.buffer) with history := s.history ++ [s.buffer], tabPending := false }

/-! ## Policies -/

/-- Which lines may be executed in which session, where a text without a file may be saved, and
which lists the editor may leave changed. -/
structure Policy where
  line : Session → String → Prop
  save : Tree → Place → List String → Prop
  list : Mark → Prop

namespace Policy

variable (p : Policy)

/-- A command of the open editor is allowed: if it saves a text without a file, then the save is. -/
def AllowsEx (s : Session) (command : String) : Prop :=
  ∀ e, s.editor = some e → e.file = none → (ExCommand.ofString command).saves = true →
    p.save s.tree e.home e.segments

/-- A key is allowed: the line or the command that it submits is, and so is a list that it leaves
behind in the editor. -/
def AllowsKey (s : Session) (k : KeyEvent) : Prop :=
  match s.editor with
  | none => ∀ prompt, s.Submits k prompt → p.line (s.submitting prompt) s.buffer
  | some e =>
      (k.key = .enter → e.mode = .command → p.AllowsEx s e.command) ∧
        ∀ e', e.press ⟨s.freeGroup, 0⟩ k = .ok (e', none) → e'.line.Within p.list

def AllowsKeys (s : Session) : List KeyEvent → Prop
  | [] => True
  | k :: ks => p.AllowsKey s k ∧ ((s.press reg k).2 = none → AllowsKeys (s.press reg k).1 ks)

def Allows (s : Session) : Step → Prop
  | .execute line => p.line s line
  | .key k => p.AllowsKey s k
  | .feed line => p.AllowsKeys reg s (s.lineKeys line)
  | .ex command => p.AllowsEx s command
  | .complete | .changeDirectory _ => True

def AllowsRun (s : Session) : List Step → Prop
  | [] => True
  | x :: steps => p.Allows reg s x ∧ AllowsRun (s.step reg x) steps

end Policy

end Session

end TreeShell
