import TreeShell.Proofs.Settings.Refusal

/-!
# Operations on settings

The settings in use are loaded from files, changed, asked for and put back to the usual ones. An
operation that fails does so before it changes anything, so it might as well not have been there:
the operations left without it have the same answers, and the settings come out the same. What
fails are the loads of files that describe no settings and the changes of settings that are not
there.
-/

namespace TreeShell

theorem Setting.isSome_set? (s new : Setting) (names : List String) :
    (s.set? new names).isSome = (s.get? names).isSome := by
  induction names generalizing s with
  | nil => rfl
  | cons name names ih =>
      cases s with
      | value v => rfl
      | group fields => cases h : field? name fields <;> simp [set?, get?, h, ih, Option.isSome_bind]

namespace Settings

/-- What a load comes upon: what the host has at a path, or a file that breaks off the reading, as
one does whose bytes are no text. -/
inductive Source where
  | entry (found : Host.Entry)
  | unreadable (failure : Failure)

inductive Operation where
  | load (path : String) (source : Source)
  | set (key : String) (v : Json)
  | get (key : String) (usual : Json)
  | reset
  | toJson

def commit (f : Store → Except Failure Store) : ExceptT Failure (StateM Store) Store := do
  match f (← get) with
  | .ok changed =>
      set changed
      return changed
  | .error failure => throw failure

/-- Performs an operation, which may have a setting as its answer. If it fails, the settings stay
as they are by then. -/
def perform : Operation → ExceptT Failure (StateM Store) (Option Setting)
  | .load path (.entry found) => return some (← commit (·.load path found)).current
  | .load _ (.unreadable failure) => throw failure
  | .set key v => do
      let _ ← commit (·.set key v)
      return none
  | .get key usual => return some (((← get).get? key).getD (.value usual))
  | .reset => do
      modify Store.reset
      return none
  | .toJson => return some (.value (← get).toJson)

def outcome (s : Store) (op : Operation) : Except Failure (Option Setting) × Store :=
  (perform op).run.run s

def performAll (s : Store) :
    List Operation → List (Operation × Except Failure (Option Setting)) × Store
  | [] => ([], s)
  | op :: ops =>
      let r := outcome s op
      let rest := performAll r.2 ops
      ((op, r.1) :: rest.1, rest.2)

def Source.Describes : Source → Prop
  | .entry (.file content) =>
      ∃ v, Json.read (Host.plainNewlines content) = .ok v ∧ Config.Describes v
  | _ => False

def Allows (s : Store) : Operation → Prop
  | .load _ source => source.Describes
  | .set key _ => s.get? key ≠ none
  | _ => True

/-- What may come of an operation: an answer if it is allowed, and else a failure that has changed
nothing. -/
def AnsweredIf (allowed : Prop) (s : Store) (r : Except Failure (Option Setting) × Store) : Prop :=
  (allowed ∧ ∃ answer changed, r = (.ok answer, changed)) ∨
    (¬ allowed ∧ ∃ failure, r = (.error failure, s))

variable {s : Store} {path key : String} {found : Host.Entry} {v : Json}

/-! ## One operation -/

theorem exists_read_iff :
    (∃ config, Config.load path found = .ok config) ↔ (Source.entry found).Describes := by
  cases found with
  | file content =>
      rw [Config.load, Source.Describes]
      cases Json.read (Host.plainNewlines content) with
      | ok v => simpa using Config.ofJson_eq_ok_iff
      | error e =>
          obtain ⟨problem, _⟩ := e
          cases problem <;> simp
  | _ => simp [Config.load, Source.Describes]

theorem exists_load_iff :
    (∃ changed, s.load path found = .ok changed) ↔ (Source.entry found).Describes :=
  Except.exists_bind_ok_iff.trans exists_read_iff

theorem exists_set_iff : (∃ changed, s.set key v = .ok changed) ↔ s.get? key ≠ none := by
  have hsome := s.current.isSome_set? (.value v) (Store.names key)
  rw [Store.set, Store.get?, ← Option.isSome_iff_ne_none, ← hsome]
  cases s.current.set? (.value v) (Store.names key) <;> simp

theorem run_get_bind {α : Type} (f : Store → ExceptT Failure (StateM Store) α) (s : Store) :
    (get >>= f).run.run s = (f s).run.run s := rfl

theorem run_commit_bind {α : Type} (f : Store → Except Failure Store) (answer : Store → α)
    (s : Store) :
    (commit f >>= fun changed ↦ pure (answer changed)).run.run s =
      match f s with
      | .ok changed => (.ok (answer changed), changed)
      | .error failure => (.error failure, s) := by
  simp only [ExceptT.run_bind, StateT.run_bind]
  rw [commit, run_get_bind]
  cases f s <;> rfl

theorem answeredIf_commit {allowed : Prop} {f : Store → Except Failure Store}
    (hf : (∃ changed, f s = .ok changed) ↔ allowed) (answer : Store → Option Setting) :
    AnsweredIf allowed s ((commit f >>= fun changed ↦ pure (answer changed)).run.run s) := by
  rw [AnsweredIf, run_commit_bind, ← hf]
  cases f s with
  | ok changed => exact .inl ⟨⟨changed, rfl⟩, _, _, rfl⟩
  | error failure => exact .inr ⟨nofun, _, rfl⟩

/-- An operation that is allowed has an answer, any other fails and changes nothing. -/
theorem answeredIf_outcome (s : Store) (op : Operation) :
    AnsweredIf (Allows s op) s (outcome s op) := by
  cases op with
  | load path source =>
      cases source with
      | entry found => exact answeredIf_commit exists_load_iff _
      | unreadable failure => exact .inr ⟨id, _, rfl⟩
  | set key v => exact answeredIf_commit exists_set_iff _
  | _ => exact .inl ⟨trivial, _, _, rfl⟩

/-! ## Many operations -/

theorem performAll_cons {r : Except Failure (Option Setting) × Store} {op : Operation}
    (h : outcome s op = r) (ops : List Operation) :
    performAll s (op :: ops) = ((op, r.1) :: (performAll r.2 ops).1, (performAll r.2 ops).2) := by
  rw [performAll, h]

theorem map_fst_performAll (s : Store) (ops : List Operation) :
    (performAll s ops).1.map Prod.fst = ops := by
  induction ops generalizing s with
  | nil => rfl
  | cons op ops ih => rw [performAll_cons rfl, List.map_cons, ih]

def answered (report : List (Operation × Except Failure (Option Setting))) :
    List (Operation × Except Failure (Option Setting)) :=
  report.filter (·.2.isOk)

theorem performAll_answered (s : Store) (ops : List Operation) :
    performAll s ((answered (performAll s ops).1).map Prod.fst) =
      (answered (performAll s ops).1, (performAll s ops).2) := by
  induction ops generalizing s with
  | nil => rfl
  | cons op ops ih =>
      obtain ⟨-, answer, changed, hok⟩ | ⟨-, failure, hfailure⟩ := answeredIf_outcome s op
      · have hkept : answered (performAll s (op :: ops)).1 =
            (op, .ok answer) :: answered (performAll changed ops).1 := by
          rw [performAll_cons hok]
          rfl
        rw [hkept, List.map_cons, performAll_cons hok, performAll_cons hok, ih]
      -- What follows a failure runs from the same settings as it would without it.
      · have hkept : answered (performAll s (op :: ops)).1 = answered (performAll s ops).1 := by
          rw [performAll_cons hfailure]
          rfl
        rw [hkept, performAll_cons hfailure, ih]

/-- An operation that the settings in use do not allow fails and changes nothing, any other has an
answer. So the operations that fail can be left out: all others have the same answers without them,
and the settings are the same in the end. -/
theorem failed_operations_can_be_left_out (s : Store) (ops : List Operation) :
    let report := (performAll s ops).1
    let kept := answered report
    (∀ op, AnsweredIf (Allows s op) s (outcome s op)) ∧
      report.map Prod.fst = ops ∧
      performAll s (kept.map Prod.fst) = (kept, (performAll s ops).2) :=
  ⟨answeredIf_outcome s, map_fst_performAll s ops, performAll_answered s ops⟩

example :
    let user := Operation.set "shell.user" (.text "a")
    let number := Operation.set "shell" (.int 5)
    let ask := Operation.get "shell" .null
    answered (performAll {} [user, number, user, ask]).1 =
      [(user, .ok none), (number, .ok none), (ask, .ok (some (.value (.int 5))))] :=
  rfl

end Settings

end TreeShell
