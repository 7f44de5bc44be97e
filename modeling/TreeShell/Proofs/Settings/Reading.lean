import TreeShell.Proofs.Library
import TreeShell.Proofs.Tree.Seed
import TreeShell.Session.Basic
import TreeShell.Settings
import TreeShell.Settings.Store

/-!
# Settings that were read

A session is started with settings that were read, and they can be written out and read again.
-/

namespace TreeShell

/-!
## Starting with settings that were read

Settings are read section by section, and a section that is missing has its defaults. The seed of
settings that were read has passed the check, so an empty key is the one thing that keeps a session
from being started with them.
-/

variable {v : Json} {config : Config} {fields : List (String × Json)}

namespace Config

def sectionOr {α : Type} (usual : α) (read : List (String × Json) → Except Failure α)
    (fields : List (String × Json)) (name : String) : Except Failure α :=
  (section? fields name).bind fun inner ↦ inner.elim (.ok usual) read

theorem ofJson_object (fields : List (String × Json)) :
    ofJson (.object fields) = (do
      let shell ← sectionOr {} (fun inner ↦ .ok (readShell inner)) fields "shell"
      let filesystem ← sectionOr {} readFilesystem fields "filesystem"
      let logging ← sectionOr {} readLogging fields "logging"
      pure { shell, filesystem, logging }) := by
  rw [ofJson, sectionOr, sectionOr, sectionOr]
  rcases section? fields "shell" with e | _ | shell <;>
    rcases section? fields "filesystem" with e | _ | filesystem <;>
      rcases section? fields "logging" with e | _ | logging <;> rfl

theorem valid_of_checkSeed {path : String} (h : checkSeed path v = .ok fields) :
    Seed.Valid fields := by
  unfold checkSeed at h
  cases hcheck : Seed.check path v with
  | error e => simp [hcheck] at h
  | ok _ =>
      obtain ⟨inner, rfl, hvalid⟩ := Seed.check_eq_ok_iff.mp hcheck
      simp only [hcheck, Except.ok.injEq] at h
      exact h ▸ hvalid

theorem valid_of_readFilesystem {settings : FilesystemSettings}
    (h : readFilesystem fields = .ok settings) : Seed.Valid settings.seed := by
  obtain ⟨seed, hseed, hsettings⟩ := Except.exists_of_bind_eq_ok h
  cases hsettings
  exact valid_of_checkSeed hseed

theorem valid_defaultSeed : Seed.Valid defaultSeed := @Seed.valid_of_checkFields "" _ rfl

theorem eq_or_read_of_sectionOr {α : Type} {usual settings : α}
    {read : List (String × Json) → Except Failure α} {name : String}
    (h : sectionOr usual read fields name = .ok settings) :
    settings = usual ∨ ∃ inner, read inner = .ok settings := by
  obtain ⟨inner, -, hread⟩ := Except.exists_of_bind_eq_ok h
  cases inner with
  | none =>
      cases hread
      exact .inl rfl
  | some inner => exact .inr ⟨inner, hread⟩

theorem sections_of_ofJson (h : ofJson v = .ok config) :
    ∃ fields, sectionOr {} readFilesystem fields "filesystem" = .ok config.filesystem ∧
      sectionOr {} readLogging fields "logging" = .ok config.logging := by
  obtain ⟨fields, rfl⟩ : ∃ fields, v = .object fields := by
    cases v with
    | object fields => exact ⟨fields, rfl⟩
    | _ => cases h
  rw [ofJson_object] at h
  obtain ⟨shell, -, h⟩ := Except.exists_of_bind_eq_ok h
  obtain ⟨filesystem, hfilesystem, h⟩ := Except.exists_of_bind_eq_ok h
  obtain ⟨logging, hlogging, h⟩ := Except.exists_of_bind_eq_ok h
  cases h
  exact ⟨fields, hfilesystem, hlogging⟩

theorem valid_of_ofJson (h : ofJson v = .ok config) : Seed.Valid config.filesystem.seed := by
  obtain ⟨fields, hfilesystem, -⟩ := sections_of_ofJson h
  rcases eq_or_read_of_sectionOr hfilesystem with husual | ⟨inner, hread⟩
  · rw [husual]
    exact valid_defaultSeed
  · exact valid_of_readFilesystem hread

end Config

namespace Session

theorem ofConfig_snd (config : Config) :
    (ofConfig config).2 = (Seed.nodes config.filesystem.seed).2 := by
  rw [ofConfig, Tree.ofSeed_eq]

theorem entries_ofConfig (config : Config) :
    (ofConfig config).1.tree.entries = (Seed.nodes config.filesystem.seed).1 := by
  rw [ofConfig, Tree.ofSeed_eq]
  rfl

/-- A session starts with settings that were read exactly if no key of their seed is empty. Its tree
is then what the seed describes; else the first empty key is refused as a file without a name. -/
theorem starts_iff_keys_named (h : Config.ofJson v = .ok config) :
    let start := ofConfig config
    (start.2 = none ↔ Seed.Named config.filesystem.seed) ∧
      (Seed.Named config.filesystem.seed →
        List.Forall₂ Seed.Describes config.filesystem.seed start.1.tree.entries) ∧
      (¬ Seed.Named config.filesystem.seed → start.2 = some Seed.nameless) := by
  intro start
  have hvalid := Config.valid_of_ofJson h
  have hbuilt (hn : Seed.Named config.filesystem.seed) := hvalid.built hn
  have hnameless (hn : ¬ Seed.Named config.filesystem.seed) : start.2 = some Seed.nameless :=
    (ofConfig_snd config).trans (hvalid.nameless hn)
  refine ⟨⟨fun hstart ↦ ?_, fun hn ↦ ?_⟩, fun hn ↦ ?_, hnameless⟩
  · by_contra hn
    cases hstart.symm.trans (hnameless hn)
  · exact (ofConfig_snd config).trans (hbuilt hn).1
  · rw [entries_ofConfig]
    exact (hbuilt hn).2

/-- The check accepts a file in a directory with a name or without; a session starts with a name. -/
theorem nameless_file_is_accepted :
    let read (key : String) : Except Failure Config := Config.ofJson (.object
      [("filesystem", .object [("seed", .object [("d", .object [(key, .text "x")])])])])
    (∃ config, read "f" = .ok config ∧ (ofConfig config).2 = none) ∧
      ∃ config, read "" = .ok config ∧ (ofConfig config).2 = some Seed.nameless := by
  intro read
  let config (key : String) : Config :=
    { filesystem := { seed := [("d", .object [(key, .text "x")])] } }
  have hread (key : String) : read key = .ok (config key) := rfl
  have hnamed (key : String) : Seed.Named (config key).filesystem.seed ↔ key ≠ "" := by
    simp [config, Seed.named_cons, Seed.named_nil]
  refine ⟨⟨config "f", hread "f", ?_⟩, config "", hread "", ?_⟩
  · exact (starts_iff_keys_named (hread "f")).1.mpr ((hnamed "f").mpr (by decide))
  · exact (starts_iff_keys_named (hread "")).2.2 (by simp [hnamed])

end Session

/-!
## Settings that are written out

The value that describes settings has all three sections with all of their fields, so no default is
left to be filled in when it is read. What can still go wrong are the two checks, of the seed and of
the level. Settings that were read have passed both of them.
-/

namespace Config

variable {v : Json} {config : Config} {fields : List (String × Json)}

structure Passes (config : Config) : Prop where
  seed : Seed.Valid config.filesystem.seed
  level : (Log.levelOfName? config.logging.level).isSome = true

theorem checkLevel_eq_ok_iff {name : String} :
    checkLevel v = .ok name ↔ v = .text name ∧ (Log.levelOfName? name).isSome = true := by
  cases v with
  | text s =>
      rw [checkLevel]
      split_ifs with hs
      · constructor
        · rintro ⟨⟩
          exact ⟨rfl, hs⟩
        · rintro ⟨⟨⟩, -⟩
          rfl
      · refine iff_of_false nofun ?_
        rintro ⟨⟨⟩, hname⟩
        exact hs hname
  | _ => exact iff_of_false nofun fun h ↦ Json.noConfusion h.1

theorem checkSeed_object {path : String} (h : Seed.Valid fields) :
    checkSeed path (.object fields) = .ok fields := by
  have hcheck : Seed.check path (.object fields) = .ok () :=
    Seed.check_eq_ok_iff.mpr ⟨fields, rfl, h⟩
  unfold checkSeed
  rw [hcheck]

theorem level_of_readLogging {settings : LoggingSettings} (h : readLogging fields = .ok settings) :
    (Log.levelOfName? settings.level).isSome = true := by
  obtain ⟨level, hlevel, hsettings⟩ := Except.exists_of_bind_eq_ok h
  cases hsettings
  exact (checkLevel_eq_ok_iff.mp hlevel).2

theorem passes_of_ofJson (h : ofJson v = .ok config) : config.Passes where
  seed := valid_of_ofJson h
  level := by
    obtain ⟨fields, -, hlogging⟩ := sections_of_ofJson h
    rcases eq_or_read_of_sectionOr hlogging with husual | ⟨inner, hread⟩
    · rw [husual]
      decide
    · exact level_of_readLogging hread

/-! ### Reading the description -/

theorem sectionOr_of_field {α : Type} {usual : α} {read : List (String × Json) → Except Failure α}
    {name : String} {inner : List (String × Json)}
    (h : Json.field? name fields = some (.object inner)) :
    sectionOr usual read fields name = read inner := by
  have hsection : section? fields name = .ok (some inner) := by rw [section?, h]
  rw [sectionOr, hsection]
  rfl

def shellFields (settings : ShellSettings) : List (String × Json) :=
  [("user", settings.user), ("hostname", settings.hostname),
    ("prompt_template", settings.promptTemplate),
    ("enable_autocomplete", settings.enableAutocomplete)]

def filesystemFields (settings : FilesystemSettings) : List (String × Json) :=
  [("root_label", settings.rootLabel), ("seed", .object settings.seed)]

def loggingFields (settings : LoggingSettings) : List (String × Json) :=
  [("level", .text settings.level), ("log_file", settings.logFile),
    ("console_output", settings.consoleOutput)]

theorem toJson_eq (config : Config) :
    config.toJson = .object
      [("shell", .object (shellFields config.shell)),
        ("filesystem", .object (filesystemFields config.filesystem)),
        ("logging", .object (loggingFields config.logging))] := rfl

theorem readShell_shellFields (settings : ShellSettings) :
    readShell (shellFields settings) = settings := rfl

theorem readFilesystem_filesystemFields {settings : FilesystemSettings}
    (h : Seed.Valid settings.seed) : readFilesystem (filesystemFields settings) = .ok settings := by
  have hseed : checkSeed "filesystem.seed" (.object settings.seed) = .ok settings.seed :=
    checkSeed_object h
  exact congrArg (Except.map fun seed ↦ { settings with seed }) hseed

theorem readLogging_loggingFields {settings : LoggingSettings}
    (h : (Log.levelOfName? settings.level).isSome = true) :
    readLogging (loggingFields settings) = .ok settings := by
  have hlevel : checkLevel (.text settings.level) = .ok settings.level :=
    checkLevel_eq_ok_iff.mpr ⟨rfl, h⟩
  exact congrArg (Except.map fun level ↦ { settings with level }) hlevel

/-- Settings are read from their own description exactly if they pass the checks. -/
theorem ofJson_toJson_iff : ofJson config.toJson = .ok config ↔ config.Passes := by
  refine ⟨passes_of_ofJson, fun h ↦ ?_⟩
  have hfilesystem := readFilesystem_filesystemFields h.seed
  have hlogging := readLogging_loggingFields h.level
  rw [toJson_eq, ofJson_object, sectionOr_of_field rfl, sectionOr_of_field rfl,
    sectionOr_of_field rfl, hfilesystem, hlogging, readShell_shellFields]
  rfl

/-- Settings that were read from any value are read from their own description again, and also from
the description that a store gives after it has taken them over from a file. -/
theorem ofJson_toJson (h : ofJson v = .ok config) :
    ofJson config.toJson = .ok config ∧
      ∀ (store : Store) (path content : String),
        Json.read (Host.plainNewlines content) = .ok v →
          ∃ loaded, store.load path (.file content) = .ok loaded ∧
            ofJson loaded.toJson = .ok config := by
  have hagain : ofJson config.toJson = .ok config := ofJson_toJson_iff.mpr (passes_of_ofJson h)
  refine ⟨hagain, ?_⟩
  intro store path content hread
  have hload : load path (.file content) = .ok config := by
    rw [load, hread]
    exact h
  refine ⟨{ current := config.setting }, ?_, hagain⟩
  rw [Store.load, hload]
  rfl

theorem read_braces : Json.read (Host.plainNewlines "\x7b\x7d") = .ok (.object []) := by
  have htext : (Host.plainNewlines "\x7b\x7d").toList = ['\x7b', '\x7d'] := by decide +kernel
  have hskip : Json.Reader.skip ['\x7b', '\x7d'] = ['\x7b', '\x7d'] := by decide
  have hvalue : Json.Reader.value ['\x7b', '\x7d'] = .ok ⟨.object [], [], by decide⟩ := by
    rw [Json.Reader.value]
    rfl
  rw [Json.read, htext, hskip, hvalue]
  rfl

/-- Settings that are incomplete and of odd kinds are described in full; an empty object stands for
the defaults. -/
theorem incomplete_settings_are_read_again :
    let seed := [("b", .object [("a", .list [.text "x", .text ""])]), ("a", .text "")]
    let user := .list [.null, .object [("b", .int 1)]]
    let config : Config :=
      { shell := { user }, filesystem := { seed }, logging := { level := "debug" } }
    ofJson (.object
        [("logging", .object [("level", .text "debug")]),
          ("filesystem", .object [("seed", .object seed)]),
          ("shell", .object [("user", user)])]) = .ok config ∧
      ofJson config.toJson = .ok config ∧
      ∃ loaded, Store.load {} "c.json" (.file "\x7b\x7d") = .ok loaded ∧
        ofJson loaded.toJson = .ok {} := by
  intro seed user config
  have hread : ofJson (.object
      [("logging", .object [("level", .text "debug")]),
        ("filesystem", .object [("seed", .object seed)]),
        ("shell", .object [("user", user)])]) = .ok config := rfl
  have husual : ofJson (.object []) = .ok {} := rfl
  exact ⟨hread, (ofJson_toJson hread).1, (ofJson_toJson husual).2 {} "c.json" "\x7b\x7d" read_braces⟩

end Config

end TreeShell
