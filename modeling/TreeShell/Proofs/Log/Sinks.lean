import TreeShell.Log.Journal
import TreeShell.Proofs.Log.Buffer

/-!
# Sinks that agree

The journal has a level, and each of its sinks has one. Whatever is done to a journal that was set
up, these levels stay equal. A record that the journal passes on is then severe enough for every
sink, also at a level of zero, which means warnings to the journal and everything to a sink. So the
console, the file and the buffer are given the same records.
-/

namespace TreeShell

namespace Log

/-- The least severity that passes at a level. -/
def effective (level : Int) : Int := if level = 0 then warningLevel else level

theorem le_effective (level : Int) : level ≤ effective level := by
  unfold effective
  split_ifs with h
  · rw [h]
    decide
  · exact Int.le_refl level

namespace Journal

inductive Call where
  | debug (subsystem message : String) (context : List (String × Detail))
  | info (subsystem message : String) (context : List (String × Detail))
  | exception (subsystem message failure : String) (context : List (String × Detail))

def Call.record : Call → Record
  | debug subsystem message context => .debug subsystem message context
  | info subsystem message context => .info subsystem message context
  | exception subsystem message failure context => .exception subsystem message failure context

inductive Operation where
  | call (c : Call)
  | setLevel (level : Int)
  | start (openFault : String → Option Host.Fault) (setup : Setup)

namespace Operation

def starts : Operation → Bool
  | start .. => true
  | _ => false

/-- The record that passes at a level. -/
def passed (level : Int) : Operation → List Record
  | call c => if effective level ≤ c.record.severity then [c.record] else []
  | _ => []

def levelAfter (level : Int) : Operation → Int
  | setLevel level => level
  | _ => level

end Operation

/-- The records of calls that pass, each at the level that is set by then. -/
def passed (level : Int) : List Operation → List Record
  | [] => []
  | op :: ops => op.passed level ++ passed (op.levelAfter level) ops

def act (j : Journal) : Operation → Journal
  | .call c => j.emit c.record
  | .setLevel level => j.setLevel level
  | .start openFault setup => (j.start openFault setup).1

def after (j : Journal) (ops : List Operation) : Journal := ops.foldl act j

def targets (j : Journal) : List Target := j.sinks.map Sink.target

variable {j j' : Journal} {rs : List Record}

/-! ## One operation -/

/-- A journal was set up, and its sinks have the level that it has. -/
structure InStep (j : Journal) : Prop where
  started : j.started = true
  level : ∀ s ∈ j.sinks, s.level = j.level

theorem InStep.reached (h : j.InStep) (r : Record) :
    j.reached r = if effective j.level ≤ r.severity then j.targets else [] := by
  unfold Journal.reached
  split_ifs with hpass hpass' hpass'
  · have hall : j.sinks.filter (·.takes r) = j.sinks := by
      refine List.filter_eq_self.mpr fun s hs ↦ decide_eq_true ?_
      rw [h.level s hs]
      exact Int.le_trans (le_effective j.level) hpass'
    rw [hall, targets]
  · exact absurd hpass hpass'
  · exact absurd hpass' hpass
  · rfl

/-- Records were given to all sinks of a journal, one after the other. -/
structure Gave (j : Journal) (rs : List Record) (j' : Journal) : Prop where
  targets : j'.targets = j.targets
  deliveries : j'.deliveries = j.deliveries ++ rs.flatMap fun r ↦ j.targets.map (·, r)
  buffer : .buffer ∈ j.targets → j'.buffer = j.buffer.map fun b ↦ rs.foldl Buffer.push b

theorem gave_nothing (htargets : j'.targets = j.targets) (hdeliveries : j'.deliveries = j.deliveries)
    (hbuffer : j'.buffer = j.buffer) : j.Gave [] j' where
  targets := htargets
  deliveries := by simpa using hdeliveries
  buffer := fun _ ↦ by simpa using hbuffer

theorem Gave.trans {j'' : Journal} {rs' : List Record} (h : j.Gave rs j') (h' : j'.Gave rs' j'') :
    j.Gave (rs ++ rs') j'' where
  targets := h'.targets.trans h.targets
  deliveries := by
    rw [h'.deliveries, h.deliveries, h.targets, List.flatMap_append, List.append_assoc]
  buffer := by
    intro hmem
    rw [h'.buffer (h.targets ▸ hmem), h.buffer hmem, Option.map_map]
    simp [Function.comp_def]

theorem gave_emit (h : j.InStep) (r : Record) :
    j.Gave (if effective j.level ≤ r.severity then [r] else []) (j.emit r) := by
  have hreached := h.reached r
  split_ifs at hreached ⊢ with hpass
  · refine ⟨rfl, ?_, fun hmem ↦ ?_⟩
    · simp [emit, hreached]
    · simp [emit, hreached, hmem]
  · exact gave_nothing rfl (by simp [emit, hreached]) (by simp [emit, hreached])

theorem start_of_started (h : j.started = true) (openFault : String → Option Host.Fault)
    (setup : Setup) : j.start openFault setup = (j, none) := if_pos h

theorem inStep_act (h : j.InStep) (op : Operation) : (j.act op).InStep := by
  cases op with
  | call c => exact ⟨h.started, h.level⟩
  | setLevel level =>
      refine ⟨h.started, fun s hs ↦ ?_⟩
      obtain ⟨_, -, rfl⟩ := List.mem_map.mp hs
      rfl
  | start openFault setup => rwa [act, start_of_started h.started]

theorem level_act (h : j.InStep) (op : Operation) :
    (j.act op).level = op.levelAfter j.level := by
  cases op with
  | start openFault setup =>
      rw [act, start_of_started h.started]
      rfl
  | _ => rfl

theorem gave_act (h : j.InStep) (op : Operation) : j.Gave (op.passed j.level) (j.act op) := by
  cases op with
  | call c => exact gave_emit h c.record
  | setLevel level =>
      refine gave_nothing ?_ rfl rfl
      simp [targets, act, setLevel, Function.comp_def]
  | start openFault setup =>
      rw [act, start_of_started h.started]
      exact gave_nothing rfl rfl rfl

/-! ## Many operations -/

theorem gave_after (h : j.InStep) (ops : List Operation) :
    j.Gave (passed j.level ops) (j.after ops) := by
  induction ops generalizing j with
  | nil => exact gave_nothing rfl rfl rfl
  | cons op ops ih =>
      have hrest := ih (inStep_act h op)
      rw [level_act h] at hrest
      exact (gave_act h op).trans hrest

structure Unused (j : Journal) : Prop where
  started : j.started = false
  sinks : j.sinks = []
  deliveries : j.deliveries = []

theorem unused_act (h : j.Unused) {op : Operation} (hop : op.starts = false) :
    (j.act op).Unused := by
  cases op with
  | call c =>
      have hreached : j.reached c.record = [] := by simp [reached, h.sinks]
      refine ⟨h.started, h.sinks, ?_⟩
      simp [act, emit, hreached, h.deliveries]
  | setLevel level => exact ⟨h.started, by simp [act, setLevel, h.sinks], h.deliveries⟩
  | start openFault setup => cases hop

theorem unused_after (h : j.Unused) {ops : List Operation} (hops : ∀ op ∈ ops, op.starts = false) :
    (j.after ops).Unused := by
  induction ops generalizing j with
  | nil => exact h
  | cons op ops ih =>
      have hnext := unused_act h (hops op (by simp))
      exact ih hnext fun op' hop' ↦ hops op' (by simp [hop'])

/-! ## Three sinks -/

section

variable {coloured : Bool} {path : String}

def withSinks (j : Journal) (level : Int) (coloured : Bool) (path : String) : Journal :=
  { j with
    level
    sinks := [⟨.buffer, level⟩, ⟨.console coloured, level⟩, ⟨.file path, level⟩]
    buffer := some {}
    started := true }

theorem start_of_unused (h : j.Unused) {openFault : String → Option Host.Fault} {setup : Setup}
    (hconsole : setup.console = true) (hfile : setup.file = .text path) (hpath : path ≠ "")
    (hopen : openFault path = none) :
    j.start openFault setup =
      (j.withSinks setup.level (setup.colours && setup.terminal) path, none) := by
  simp [start, withSinks, h.started, h.sinks, hconsole, hfile, hopen, hpath, Json.isOn]

theorem inStep_withSinks (j : Journal) (level : Int) (coloured : Bool) (path : String) :
    (j.withSinks level coloured path).InStep :=
  ⟨rfl, by simp [withSinks]⟩

def toEach (coloured : Bool) (path : String) (rs : List Record) : List (Target × Record) :=
  rs.flatMap fun r ↦ [(.buffer, r), (.console coloured, r), (.file path, r)]

theorem received_of_toEach (h : j.deliveries = toEach coloured path rs) {target : Target}
    (htarget : target ∈ [.buffer, .console coloured, .file path]) : j.received target = rs := by
  rw [received, h, toEach, List.filter_flatMap, List.map_flatMap]
  have hone (r : Record) : List.map Prod.snd (List.filter (fun d ↦ decide (d.1 = target))
      [(.buffer, r), (.console coloured, r), (.file path, r)]) = [r] := by
    simp only [List.mem_cons, List.not_mem_nil, or_false] at htarget
    rcases htarget with rfl | rfl | rfl <;> simp
  simp [hone]

theorem consoleText_of_toEach (h : j.deliveries = toEach coloured path rs) (time : String) :
    j.consoleText time = String.join (rs.map fun r ↦ r.text coloured time ++ "\n") := by
  have hjoin (f : Record → String) (rs : List Record) :
      String.join (rs.flatMap fun r ↦ ["", f r, ""]) = String.join (rs.map f) := by
    induction rs with
    | nil => rfl
    | cons r rs ih => simp [ih]
  rw [consoleText, h, toEach, List.map_flatMap]
  exact hjoin _ rs

end

/-- The first time a journal is set up, a console and a file are asked for, and the file can be
opened. Then, whatever is done to the journal, the console, the file and the buffer are given the
same records, those of the calls that reach the effective level of their time. Each of them makes a
line on the console and a line in the file, and the last of them are in the buffer. -/
theorem sinks_agree {before : List Operation} (hbefore : ∀ op ∈ before, op.starts = false)
    {openFault : String → Option Host.Fault} {setup : Setup} {path : String}
    (hconsole : setup.console = true) (hfile : setup.file = .text path) (hpath : path ≠ "")
    (hopen : openFault path = none) (ops : List Operation) :
    let coloured := setup.colours && setup.terminal
    let first := (({} : Journal).after before).start openFault setup
    let j := first.1.after ops
    let rs := passed setup.level ops
    first.2 = none ∧
      j.received (.console coloured) = rs ∧ j.received (.file path) = rs ∧
      j.received .buffer = rs ∧
      j.buffer.map Buffer.records = some (rs.rtake 5000) ∧
      ∀ time, j.consoleText time = String.join (rs.map fun r ↦ r.text coloured time ++ "\n") ∧
        j.fileText time path = String.join (rs.map fun r ↦ r.text false time ++ "\n") := by
  intro coloured first j rs
  have hunused : (({} : Journal).after before).Unused := unused_after ⟨rfl, rfl, rfl⟩ hbefore
  have hfirst : first = (_, none) := start_of_unused hunused hconsole hfile hpath hopen
  have hgave : first.1.Gave rs j := by
    change first.1.Gave rs (first.1.after ops)
    rw [hfirst]
    exact gave_after (inStep_withSinks ..) ops
  have hdeliveries : j.deliveries = toEach coloured path rs := by
    rw [hgave.deliveries, hfirst]
    simp [withSinks, targets, toEach, hunused.deliveries, coloured]
  have hreceived {target : Target} (htarget : target ∈ [.buffer, .console coloured, .file path]) :
      j.received target = rs := received_of_toEach hdeliveries htarget
  have hheld : j.buffer.map Buffer.records = some (rs.rtake 5000) := by
    rw [hgave.buffer (by simp [hfirst, withSinks, targets]), hfirst]
    exact congrArg some (Buffer.records_foldl_push (by decide : (0 : Int) < 5000) rs)
  refine ⟨by rw [hfirst], hreceived (by simp), hreceived (by simp), hreceived (by simp), hheld,
    fun time ↦ ⟨consoleText_of_toEach hdeliveries time, ?_⟩⟩
  rw [fileText, hreceived (by simp)]
  rfl

/-- The level is set to zero and below, and the journal is set up once more. -/
theorem levels_stay_equal :
    let info (message : String) : Call := .info "a" message []
    let exception : Call := .exception "b" "4" "KeyError" []
    let before := [.setLevel debugLevel, .call exception]
    let openFault := Host.openFault []
    let setup : Setup := { level := infoLevel, file := .text "x.log", console := true }
    let ops := [.call (.debug "a" "1" []), .call (info "2"), .setLevel 0, .call (info "3"),
      .call exception, .start openFault { level := criticalLevel }, .setLevel (-1),
      .call (.debug "b" "5" [])]
    let first := (({} : Journal).after before).start openFault setup
    let j := first.1.after ops
    let rs : List Record := [(info "2").record, exception.record, .debug "b" "5" []]
    (∀ op ∈ before, op.starts = false) ∧ openFault "x.log" = none ∧ first.2 = none ∧
      j.received (.console false) = rs ∧ j.received (.file "x.log") = rs ∧
      j.received .buffer = rs := by
  intro info exception before openFault setup ops first j rs
  have hbefore : ∀ op ∈ before, op.starts = false := by simp [before, Operation.starts]
  have hopen : openFault "x.log" = none := by decide +kernel
  obtain ⟨hfirst, hconsole, hfile, hbuffer, -⟩ :=
    sinks_agree hbefore (rfl : setup.console = true) rfl (by decide) hopen ops
  exact ⟨hbefore, hopen, hfirst, hconsole, hfile, hbuffer⟩

end Journal

end Log

end TreeShell
