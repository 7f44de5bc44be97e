import TreeShell.Settings

/-!
# The store of settings

The store holds the settings in use as a tree of groups. A setting is named by a key, the names
on the way to it with points between them. Only a setting that is there can be changed; what is
put in the place of a group has no settings of its own.
-/

namespace TreeShell

inductive Setting where
  | value (v : Json)
  | group (fields : List (String × Setting))
  deriving Repr, Inhabited

namespace Setting

def field? (name : String) : List (String × Setting) → Option Setting
  | [] => none
  | (n, s) :: fields => if n = name then some s else field? name fields

def setField (name : String) (s : Setting) : List (String × Setting) → List (String × Setting)
  | [] => []
  | (n, old) :: fields =>
      if n = name then (n, s) :: fields else (n, old) :: setField name s fields

def get? (s : Setting) : List String → Option Setting
  | [] => some s
  | name :: names =>
      match s with
      | value _ => none
      | group fields => (field? name fields).bind (·.get? names)

def set? (s new : Setting) : List String → Option Setting
  | [] => some new
  | name :: names =>
      match s with
      | value _ => none
      | group fields => do
          let changed ← (← field? name fields).set? new names
          pure (group (setField name changed fields))

mutual

/-- The settings as one value. -/
def toJson : Setting → Json
  | value v => v
  | group fields => .object (toFields fields)

def toFields : List (String × Setting) → List (String × Json)
  | [] => []
  | (name, s) :: fields => (name, s.toJson) :: toFields fields

end

end Setting

namespace Config

/-- The settings in groups. -/
def setting (c : Config) : Setting :=
  .group
    [("shell", .group
        [("user", .value c.shell.user), ("hostname", .value c.shell.hostname),
          ("prompt_template", .value c.shell.promptTemplate),
          ("enable_autocomplete", .value c.shell.enableAutocomplete)]),
      ("filesystem", .group
        [("root_label", .value c.filesystem.rootLabel),
          ("seed", .value (.object c.filesystem.seed))]),
      ("logging", .group
        [("level", .value (.text c.logging.level)), ("log_file", .value c.logging.logFile),
          ("console_output", .value c.logging.consoleOutput)])]

/-- The value that describes the settings. -/
def toJson (c : Config) : Json := c.setting.toJson

end Config

/-- The settings in use. -/
structure Store where
  current : Setting := ({} : Config).setting
  deriving Repr, Inhabited

namespace Store

def names (key : String) : List String := Text.split '.' key

def get? (s : Store) (key : String) : Option Setting := s.current.get? (names key)

def set (s : Store) (key : String) (v : Json) : Except Failure Store :=
  match s.current.set? (.value v) (names key) with
  | some current => .ok { current }
  | none => .error (Config.invalid ("Invalid configuration key: " ++ key))

/-- Takes over the settings in a file of the host. -/
def load (_ : Store) (path : String) (found : Host.Entry) : Except Failure Store := do
  let config ← Config.load path found
  pure { current := config.setting }

def reset (_ : Store) : Store := {}

def toJson (s : Store) : Json := s.current.toJson

end Store

end TreeShell
