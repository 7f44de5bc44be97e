import TreeShell.Proofs.Settings.Reading

/-!
# Settings that are refused

A value that describes no settings is refused with an error of the settings: at the root, at a
section that is no object, anywhere in the seed, or at a level that is not known. One value gets
around that. A level that is no text is asked for its name all the same, and has none.
-/

namespace TreeShell

namespace Seed

theorem exists_message_of_checkFields {path : String} {fields : List (String × Json)}
    {e : ShellError} (h : checkFields path fields = .error e) :
    ∃ m, e = .invalidConfig m none := by
  match fields with
  | [] => cases h
  | (name, v) :: fields =>
      rw [checkFields] at h
      obtain hentry | ⟨_, -, hmore⟩ := Except.bind_eq_error_iff.mp h
      · cases v with
        | object inner => exact exists_message_of_checkFields hentry
        | text s => cases hentry
        | list items =>
            rw [checkEntry] at hentry
            split at hentry
            · cases hentry
            · cases hentry
              exact ⟨_, rfl⟩
        | _ =>
            cases hentry
            exact ⟨_, rfl⟩
      · exact exists_message_of_checkFields hmore

theorem exists_message_of_check {path : String} {v : Json} {e : ShellError}
    (h : check path v = .error e) : ∃ m, e = .invalidConfig m none := by
  cases v with
  | object fields => exact exists_message_of_checkFields h
  | _ =>
      cases h
      exact ⟨_, rfl⟩

end Seed

namespace Config

/-- A field is missing or has a value with a property. -/
def FieldFits (P : Json → Prop) (name : String) (fields : List (String × Json)) : Prop :=
  ∀ v, Json.field? name fields = some v → P v

def ObjectWith (P : List (String × Json) → Prop) (v : Json) : Prop :=
  ∃ fields, v = .object fields ∧ P fields

def LevelName (v : Json) : Prop := ∃ name, v = .text name ∧ (Log.levelOfName? name).isSome = true

/-- The sections that are checked before the one for the log describe settings. -/
structure SoundSections (fields : List (String × Json)) : Prop where
  shell : FieldFits (ObjectWith fun _ ↦ True) "shell" fields
  filesystem :
    FieldFits (ObjectWith (FieldFits (ObjectWith Seed.Valid) "seed")) "filesystem" fields

def Describes (v : Json) : Prop :=
  ObjectWith (fun fields ↦ SoundSections fields ∧
    FieldFits (ObjectWith (FieldFits LevelName "level")) "logging" fields) v

/-- The level in a value is no text, and there is nothing to complain about before it. -/
def OddLevel (v level : Json) : Prop :=
  ObjectWith (fun fields ↦ SoundSections fields ∧ ∃ inner,
    Json.field? "logging" fields = some (.object inner) ∧
      Json.field? "level" inner = some level ∧ level.text? = none) v

def nameless (level : Json) : Failure := .mismatch (.noMember level.kindName "upper")

variable {α : Type} {v level : Json} {fields : List (String × Json)} {name : String}
  {failure : Failure}

/-! ## Sections -/

section

variable {usual : α} {read : List (String × Json) → Except Failure α}

theorem sectionOr_eq_ok_iff {P : List (String × Json) → Prop}
    (hread : ∀ inner, (∃ a, read inner = .ok a) ↔ P inner) :
    (∃ a, sectionOr usual read fields name = .ok a) ↔ FieldFits (ObjectWith P) name fields := by
  unfold sectionOr section? FieldFits ObjectWith
  cases Json.field? name fields with
  | none => simp [Except.bind]
  | some v => cases v <;> simp [Except.bind, hread]

theorem sectionOr_eq_error (h : sectionOr usual read fields name = .error failure) :
    (∃ m, failure = invalid m) ∨
      ∃ inner, Json.field? name fields = some (.object inner) ∧ read inner = .error failure := by
  obtain hsection | ⟨inner?, hsection, hread⟩ := Except.bind_eq_error_iff.mp h
  · unfold section? at hsection
    split at hsection
    · cases hsection
    · cases hsection
    · cases hsection
      exact .inl ⟨_, rfl⟩
  · unfold section? at hsection
    split at hsection
    · cases hsection
      cases hread
    · rename_i inner hfield
      cases hsection
      exact .inr ⟨inner, hfield, hread⟩
    · cases hsection

end

/-! ## Fields -/

theorem fieldFits_iff {P : Json → Prop} {usual : Json} (h : P usual) :
    FieldFits P name fields ↔ P ((Json.field? name fields).getD usual) := by
  unfold FieldFits
  cases Json.field? name fields with
  | none => exact iff_of_true nofun h
  | some v => exact ⟨fun hv ↦ hv v rfl, by rintro hv _ ⟨⟩; exact hv⟩

theorem checkSeed_eq_ok_iff (path : String) :
    (∃ fields, checkSeed path v = .ok fields) ↔ ObjectWith Seed.Valid v := by
  constructor
  · rintro ⟨fields, h⟩
    cases hcheck : Seed.check path v with
    | error e => simp [checkSeed, hcheck] at h
    | ok u => exact Seed.check_eq_ok_iff.mp hcheck
  · rintro ⟨fields, rfl, h⟩
    exact ⟨fields, checkSeed_object h⟩

theorem checkSeed_eq_error {path : String} (h : checkSeed path v = .error failure) :
    ∃ m, failure = invalid m := by
  cases hcheck : Seed.check path v with
  | error e =>
      obtain ⟨m, rfl⟩ := Seed.exists_message_of_check hcheck
      simp only [checkSeed, hcheck, Except.error.injEq] at h
      exact ⟨m, h.symm⟩
  | ok u =>
      obtain ⟨fields, rfl, hvalid⟩ := Seed.check_eq_ok_iff.mp hcheck
      cases (checkSeed_object hvalid).symm.trans h

theorem checkLevel_eq_error (h : checkLevel v = .error failure) :
    (∃ m, failure = invalid m) ∨ v.text? = none ∧ failure = nameless v := by
  cases v with
  | text name =>
      rw [checkLevel] at h
      split_ifs at h
      cases h
      exact .inl ⟨_, rfl⟩
  | _ =>
      cases h
      exact .inr ⟨rfl, rfl⟩

theorem checkLevel_of_text?_eq_none (h : level.text? = none) :
    checkLevel level = .error (nameless level) := by
  cases level with
  | text name => cases h
  | _ => rfl

theorem readFilesystem_eq_ok_iff :
    (∃ settings, readFilesystem fields = .ok settings) ↔
      FieldFits (ObjectWith Seed.Valid) "seed" fields := by
  have husual : ObjectWith Seed.Valid (.object defaultSeed) := ⟨_, rfl, valid_defaultSeed⟩
  rw [fieldFits_iff husual, ← checkSeed_eq_ok_iff "filesystem.seed"]
  exact Except.exists_bind_ok_iff

theorem readFilesystem_eq_error {failure : Failure} (h : readFilesystem fields = .error failure) :
    ∃ m, failure = invalid m := by
  obtain hseed | ⟨_, -, hread⟩ := Except.bind_eq_error_iff.mp h
  · exact checkSeed_eq_error hseed
  · cases hread

theorem readLogging_eq_ok_iff :
    (∃ settings, readLogging fields = .ok settings) ↔ FieldFits LevelName "level" fields := by
  have husual : LevelName (.text "WARNING") := ⟨_, rfl, by decide⟩
  rw [fieldFits_iff husual]
  refine Except.exists_bind_ok_iff.trans ?_
  simp only [checkLevel_eq_ok_iff]
  rfl

theorem readLogging_eq_error (h : readLogging fields = .error failure) :
    (∃ m, failure = invalid m) ∨
      ∃ level, Json.field? "level" fields = some level ∧ level.text? = none ∧
        failure = nameless level := by
  obtain hlevel | ⟨_, -, hread⟩ := Except.bind_eq_error_iff.mp h
  · obtain hm | ⟨htext, hfailure⟩ := checkLevel_eq_error hlevel
    · exact .inl hm
    · cases hfield : Json.field? "level" fields with
      | none =>
          rw [hfield] at htext
          cases htext
      | some level =>
          rw [hfield] at htext hfailure
          exact .inr ⟨level, rfl, htext, hfailure⟩
  · cases hread

theorem readLogging_of_odd (h : Json.field? "level" fields = some level)
    (htext : level.text? = none) : readLogging fields = .error (nameless level) := by
  simp only [readLogging, h, Option.getD_some, checkLevel_of_text?_eq_none htext]
  rfl

/-! ## Values -/

theorem ofJson_object_eq_ok_iff :
    (∃ config, ofJson (.object fields) = .ok config) ↔
      (∃ shell, sectionOr {} (fun inner ↦ .ok (readShell inner)) fields "shell" = .ok shell) ∧
        (∃ filesystem, sectionOr {} readFilesystem fields "filesystem" = .ok filesystem) ∧
        ∃ logging, sectionOr {} readLogging fields "logging" = .ok logging := by
  rw [ofJson_object]
  constructor
  · rintro ⟨config, h⟩
    obtain ⟨shell, hshell, h⟩ := Except.exists_of_bind_eq_ok h
    obtain ⟨filesystem, hfilesystem, h⟩ := Except.exists_of_bind_eq_ok h
    obtain ⟨logging, hlogging, -⟩ := Except.exists_of_bind_eq_ok h
    exact ⟨⟨shell, hshell⟩, ⟨filesystem, hfilesystem⟩, logging, hlogging⟩
  · rintro ⟨⟨shell, hshell⟩, ⟨filesystem, hfilesystem⟩, logging, hlogging⟩
    rw [hshell, hfilesystem, hlogging]
    exact ⟨_, rfl⟩

theorem soundSections_iff :
    SoundSections fields ↔
      (∃ shell, sectionOr {} (fun inner ↦ .ok (readShell inner)) fields "shell" = .ok shell) ∧
        ∃ filesystem, sectionOr {} readFilesystem fields "filesystem" = .ok filesystem := by
  have hshell (inner : List (String × Json)) :
      (∃ a, (.ok (readShell inner) : Except Failure ShellSettings) = .ok a) ↔ True :=
    iff_of_true ⟨_, rfl⟩ trivial
  rw [sectionOr_eq_ok_iff hshell, sectionOr_eq_ok_iff fun _ ↦ readFilesystem_eq_ok_iff]
  exact ⟨fun h ↦ ⟨h.shell, h.filesystem⟩, fun h ↦ ⟨h.1, h.2⟩⟩

theorem ofJson_eq_ok_iff : (∃ config, ofJson v = .ok config) ↔ Describes v := by
  cases v with
  | object fields =>
      rw [ofJson_object_eq_ok_iff, ← and_assoc, ← soundSections_iff,
        sectionOr_eq_ok_iff fun _ ↦ readLogging_eq_ok_iff]
      exact ⟨fun h ↦ ⟨fields, rfl, h⟩, by rintro ⟨_, ⟨⟩, h⟩; exact h⟩
  | _ => exact iff_of_false nofun nofun

theorem ofJson_eq_error (h : ofJson v = .error failure) :
    (∃ m, failure = invalid m) ∨ ∃ level, OddLevel v level ∧ failure = nameless level := by
  cases v with
  | object fields =>
      rw [ofJson_object] at h
      obtain hshell | ⟨shell, hshell, h⟩ := Except.bind_eq_error_iff.mp h
      · obtain hm | ⟨_, -, hread⟩ := sectionOr_eq_error hshell
        · exact .inl hm
        · cases hread
      obtain hfilesystem | ⟨filesystem, hfilesystem, h⟩ := Except.bind_eq_error_iff.mp h
      · obtain hm | ⟨_, -, hread⟩ := sectionOr_eq_error hfilesystem
        · exact .inl hm
        · exact .inl (readFilesystem_eq_error hread)
      have hsound := soundSections_iff.mpr ⟨⟨shell, hshell⟩, filesystem, hfilesystem⟩
      obtain hlogging | ⟨_, -, h⟩ := Except.bind_eq_error_iff.mp h
      · obtain hm | ⟨inner, hinner, hread⟩ := sectionOr_eq_error hlogging
        · exact .inl hm
        · obtain hm | ⟨level, hlevel, htext, rfl⟩ := readLogging_eq_error hread
          · exact .inl hm
          · exact .inr ⟨level, ⟨fields, rfl, hsound, inner, hinner, hlevel, htext⟩, rfl⟩
      · cases h
  | _ =>
      cases h
      exact .inl ⟨_, rfl⟩

theorem ofJson_of_oddLevel (h : OddLevel v level) : ofJson v = .error (nameless level) := by
  obtain ⟨fields, rfl, hsound, inner, hinner, hlevel, htext⟩ := h
  obtain ⟨⟨shell, hshell⟩, filesystem, hfilesystem⟩ := soundSections_iff.mp hsound
  have hlogging : sectionOr {} readLogging fields "logging" = .error (nameless level) := by
    rw [sectionOr_of_field hinner, readLogging_of_odd hlevel htext]
  rw [ofJson_object, hshell, hfilesystem, hlogging]
  rfl

/-- Settings are read from the values that describe them, and all others are refused with an error
of the settings, unless their level is no text and is all there is to complain about up to it: such
a level is asked for its name. -/
theorem read_or_refused_iff (v : Json) :
    ((∃ config, ofJson v = .ok config) ↔ Describes v) ∧
      ((∃ config, ofJson v = .ok config) ∨ (∃ m, ofJson v = .error (invalid m)) ↔
        ∀ level, ¬ OddLevel v level) ∧
      ∀ level, OddLevel v level → ofJson v = .error (nameless level) := by
  refine ⟨ofJson_eq_ok_iff, ⟨?_, fun hlevel ↦ ?_⟩, fun level ↦ ofJson_of_oddLevel⟩
  · rintro (⟨config, hok⟩ | ⟨m, herror⟩) level hodd
    · cases hok.symm.trans (ofJson_of_oddLevel hodd)
    · cases herror.symm.trans (ofJson_of_oddLevel hodd)
  · cases h : ofJson v with
    | ok config => exact .inl ⟨config, rfl⟩
    | error failure =>
        obtain ⟨m, rfl⟩ | ⟨level, hodd, -⟩ := ofJson_eq_error h
        · exact .inr ⟨m, rfl⟩
        · exact absurd hodd (hlevel level)

/-- A level that is a number breaks off with a failure of another kind; a text that names no level
is complained about. -/
theorem number_and_text_as_levels :
    let value (level : Json) := Json.object [("logging", .object [("level", level)])]
    OddLevel (value (.int 5)) (.int 5) ∧
      ofJson (value (.int 5)) = .error (.mismatch (.noMember "int" "upper")) ∧
      (∀ level, ¬ OddLevel (value (.text "loud")) level) ∧
      ((∃ config, ofJson (value (.text "loud")) = .ok config) ∨
        ∃ m, ofJson (value (.text "loud")) = .error (invalid m)) := by
  intro value
  have hodd : OddLevel (value (.int 5)) (.int 5) :=
    ⟨_, rfl, ⟨nofun, nofun⟩, _, rfl, rfl, rfl⟩
  have hloud (level : Json) : ¬ OddLevel (value (.text "loud")) level := by
    rintro ⟨_, ⟨⟩, -, _, ⟨⟩, ⟨⟩, ⟨⟩⟩
  exact ⟨hodd, (read_or_refused_iff (value (.int 5))).2.2 (.int 5) hodd, hloud,
    (read_or_refused_iff (value (.text "loud"))).2.1.mpr hloud⟩

end Config

end TreeShell
