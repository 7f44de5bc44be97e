import TreeShell.Json.Basic
import TreeShell.Result
import TreeShell.Text.Character

/-!
# Records and the journal

What happens is recorded. Records of sufficient level go to the console, to a file and to a buffer
that keeps the last of them.
-/

namespace TreeShell

/-!
## Log records

A record has a level, the part of the program it comes from, a message and the values the
message is about.
-/

namespace Log

def debugLevel : Int := 10

def infoLevel : Int := 20

def warningLevel : Int := 30

def errorLevel : Int := 40

def criticalLevel : Int := 50

/-- The names of the levels, from the least to the most severe. -/
def levelNames : List (String × Int) :=
  [("DEBUG", debugLevel), ("INFO", infoLevel), ("WARNING", warningLevel), ("ERROR", errorLevel),
    ("CRITICAL", criticalLevel)]

def levelName (level : Int) : String :=
  match levelNames.find? (·.2 == level) with
  | some (name, _) => name
  | none => if level = 0 then "NOTSET" else "Level " ++ Number.intText level

/-- A capital letter for a small one. Outside ASCII only the dotless i has a capital that occurs
in the name of a level, so no other letter matters here. -/
def capital (c : Char) : Char := if c = 'ı' then 'I' else c.toUpper

/-- The level that a name in any case stands for. -/
def levelOfName? (name : String) : Option Int :=
  let wanted := String.ofList (name.toList.map capital)
  (levelNames.find? (·.1 == wanted)).map (·.2)

/-- A value that a message is about. -/
inductive Detail where
  | value (v : Json)
  | words (ws : List String)
  deriving Repr, Inhabited

/-- A list of words stands between parentheses; a comma follows a single one. -/
def Detail.text : Detail → String
  | value v => v.plain
  | words [w] => "(" ++ Text.quoted w ++ ",)"
  | words ws => "(" ++ ", ".intercalate (ws.map Text.quoted) ++ ")"

def Detail.ofString (s : String) : Detail := value (.text s)

structure Record where
  severity : Int
  level : String
  message : String
  subsystem : Option Json
  context : List (String × Detail)
  /-- The failure that a record tells of. -/
  failure : Option String
  deriving Repr, Inhabited

namespace Record

def ofLevel (severity : Int) (subsystem message : String)
    (context : List (String × Detail)) : Record :=
  ⟨severity, levelName severity, message, some (.text subsystem), context, none⟩

def debug := ofLevel debugLevel

def info := ofLevel infoLevel

/-- The text of a failure: its kind and, if it has one, its message. -/
def failureText (kind message : String) : String :=
  if message = "" then kind else kind ++ ": " ++ message

def exception (subsystem message failure : String) (context : List (String × Detail)) : Record :=
  { ofLevel errorLevel subsystem message context with failure := some failure }

def colours : List (String × String) :=
  [("DEBUG", "\x1b[36m"), ("INFO", "\x1b[32m"), ("WARNING", "\x1b[33m"), ("ERROR", "\x1b[31m"),
    ("CRITICAL", "\x1b[35m")]

def levelText (coloured : Bool) (level : String) : String :=
  match coloured, colours.find? (·.1 == level) with
  | true, some (_, colour) => colour ++ Text.padEnd 8 level ++ "\x1b[0m"
  | _, _ => Text.padEnd 8 level

def text (coloured : Bool) (time : String) (r : Record) : String :=
  let origin := r.subsystem.elim [] fun v ↦ ["[" ++ v.plain ++ "]"]
  let details :=
    match r.context with
    | [] => []
    | fields =>
        ["\x7b" ++ " ".intercalate (fields.map fun (k, d) ↦ k ++ "=" ++ d.text) ++ "\x7d"]
  " ".intercalate
      (["[" ++ time ++ "]", levelText coloured r.level] ++ origin ++ [r.message] ++ details) ++
    r.failure.elim "" ("\n" ++ ·)

end Record

end Log

/-!
## The buffer of recent records

The buffer keeps the last records it was given, up to its capacity.
-/

namespace Log

/-- The last `n` elements of a list. A bound that is not positive leaves out the first `-n`
elements instead, so that zero leaves out none. -/
def lastOf {α : Type} (n : Int) (as : List α) : List α :=
  if 0 < n then as.drop (as.length - n.toNat) else as.drop (-n).toNat

structure Buffer where
  capacity : Int := 5000
  records : List Record := []
  deriving Repr, Inhabited

namespace Buffer

def push (b : Buffer) (r : Record) : Buffer :=
  let records := b.records ++ [r]
  { b with records := if b.capacity < records.length then lastOf b.capacity records else records }

def clear (b : Buffer) : Buffer := { b with records := [] }

/-- Which records are asked for; an empty text asks for all. -/
structure Query where
  level : Option String := none
  subsystem : Option String := none
  limit : Int := 100
  deriving Repr

def Query.selects (q : Query) (r : Record) : Bool :=
  (match q.level with
    | none => true
    | some l => l == "" || r.level == l) &&
  match q.subsystem with
    | none => true
    | some s => s == "" || (r.subsystem.bind Json.text?) == some s

/-- The last of the records that a query selects. -/
def get (b : Buffer) (q : Query) : List Record := lastOf q.limit (b.records.filter q.selects)

end Buffer

end Log

/-!
## The journal

The journal gives every record of sufficient level to its sinks: the buffer, the console and a
file. The journal and each sink have a level of their own. A level of zero makes the journal
fall back on warnings, and a sink take everything. The journal is set up once.
-/

namespace Log

inductive Target where
  | buffer
  | console (coloured : Bool)
  | file (path : String)
  deriving DecidableEq, Repr

structure Sink where
  target : Target
  level : Int
  deriving DecidableEq, Repr

def Sink.takes (r : Record) (s : Sink) : Bool := s.level ≤ r.severity

structure Journal where
  level : Int := 0
  sinks : List Sink := []
  buffer : Option Buffer := none
  started : Bool := false
  /-- What each target was given, in the order of time. -/
  deliveries : List (Target × Record) := []
  deriving Repr, Inhabited

namespace Journal

/-- The least level that the journal passes on. -/
def threshold (j : Journal) : Int := if j.level = 0 then warningLevel else j.level

def reached (j : Journal) (r : Record) : List Target :=
  if j.threshold ≤ r.severity then (j.sinks.filter (·.takes r)).map Sink.target else []

def emit (j : Journal) (r : Record) : Journal :=
  let targets := j.reached r
  { j with
    buffer := if .buffer ∈ targets then j.buffer.map (·.push r) else j.buffer
    deliveries := j.deliveries ++ targets.map (·, r) }

def emitAll (j : Journal) (rs : List Record) : Journal := rs.foldl emit j

def received (j : Journal) (target : Target) : List Record :=
  (j.deliveries.filter (·.1 = target)).map Prod.snd

structure Setup where
  level : Int := warningLevel
  file : Json := .null
  colours : Bool := true
  console : Bool := false
  /-- Whether the console is a terminal; only terminals get colours. -/
  terminal : Bool := false
  deriving Repr

/-- Sets the journal up; later attempts change nothing. A file that is switched off is none. A
file that the host does not open is a failure, which leaves the journal with the sinks it has got
so far. -/
def start (j : Journal) (openFault : String → Option Host.Fault) (s : Setup) :
    Journal × Option Failure :=
  if j.started then (j, none)
  else
    let console := if s.console then [⟨.console (s.colours && s.terminal), s.level⟩] else []
    let j : Journal :=
      { j with
        level := s.level
        sinks := j.sinks ++ ⟨.buffer, s.level⟩ :: console
        buffer := some {} }
    if !s.file.isOn then ({ j with started := true }, none)
    else
      match s.file with
      | .text path =>
          match openFault path with
          | some f => (j, some (.host f))
          | none => ({ j with sinks := j.sinks ++ [⟨.file path, s.level⟩], started := true }, none)
      | v => (j, some (.mismatch (.notPath v.kindName)))

/-- Sets the level of the journal and of its sinks. -/
def setLevel (j : Journal) (level : Int) : Journal :=
  { j with level, sinks := j.sinks.map ({ · with level }) }

/-- The buffered records that a query asks for; there are none before the journal is set up. -/
def get (j : Journal) (q : Buffer.Query) : List Record := j.buffer.elim [] (·.get q)

def clear (j : Journal) : Journal := { j with buffer := j.buffer.map Buffer.clear }

/-- The paths of the files that are written to. -/
def files (j : Journal) : List String :=
  j.sinks.filterMap fun s ↦ match s.target with
    | .file path => some path
    | _ => none

/-- The line a record makes in a target; the buffer has none. -/
def line (time : String) : Target × Record → String
  | (.console coloured, r) => r.text coloured time ++ "\n"
  | (.file _, r) => r.text false time ++ "\n"
  | (.buffer, _) => ""

def consoleText (j : Journal) (time : String) : String :=
  String.join <| j.deliveries.map fun
    | (.console coloured, r) => line time (.console coloured, r)
    | _ => ""

def fileText (j : Journal) (time path : String) : String :=
  String.join ((j.received (.file path)).map fun r ↦ line time (.file path, r))

end Journal

end Log

end TreeShell
