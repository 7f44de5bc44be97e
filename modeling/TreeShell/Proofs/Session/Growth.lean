import TreeShell.Proofs.Session.Flat
import TreeShell.Proofs.Session.Frame

/-!
# What a session keeps

No node is ever lost, and so the directory that a session is in is not lost either.
-/

namespace TreeShell

/-!
## Nothing is lost

Whatever is done to a session with the shell's own commands, its tree grows: no node is removed,
renamed, moved or given another kind, and the lines of a file stay as they are until its
modification time is set. There is one exception. A line that is a list, as it can come from a
setting, is the same list in all files that hold it, and a key that is typed to it in the editor
shows in all of them at once.
-/

namespace Session

namespace Policy

def changing (M : Mark → Prop) : Policy := ⟨fun _ _ ↦ True, fun _ _ _ ↦ True, M⟩

variable {M : Mark → Prop} {reg : Registry} {I : Session → Prop}

theorem changing_enforces (M : Mark → Prop) (reg : Registry) :
    (changing M).Enforces reg fun _ _ _ _ ↦ True where
  line := fun _ _ _ _ _ _ _ _ ↦ trivial
  save := fun _ _ _ _ ↦ trivial

section

variable (hpress : ∀ s k, I s → I (s.press reg k).1)
  (hline : ∀ s e k e', I s → s.editor = some e →
    e.press ⟨s.freeGroup, 0⟩ k = .ok (e', none) → e'.line.Within M)

include hline in
theorem changing_allowsKey {s : Session} (hi : I s) (k : KeyEvent) :
    (changing M).AllowsKey s k := by
  unfold AllowsKey
  split
  · exact fun _ _ ↦ trivial
  · rename_i e he
    exact ⟨fun _ _ _ _ _ _ ↦ trivial, fun e' hk ↦ hline s e k e' hi he hk⟩

include hpress hline in
theorem changing_allowsKeys {s : Session} (hi : I s) (ks : List KeyEvent) :
    (changing M).AllowsKeys reg s ks := by
  induction ks generalizing s with
  | nil => trivial
  | cons k ks ih => exact ⟨changing_allowsKey hline hi k, fun _ ↦ ih (hpress s k hi)⟩

include hpress hline in
/-- If an invariant of keys keeps the editor to lists with marks in `M`, every step is allowed. -/
theorem changing_allows {s : Session} (hi : I s) (x : Step) : (changing M).Allows reg s x := by
  cases x with
  | execute line => trivial
  | key k => exact changing_allowsKey hline hi k
  | feed line => exact changing_allowsKeys hpress hline hi _
  | complete => trivial
  | ex command => exact fun _ _ _ _ ↦ trivial
  | changeDirectory place => trivial

end

end Policy

variable {reg : Registry} {s : Session}

abbrev AnyChanges : Tree → Tree → Prop := Tree.Changes (fun _ _ _ _ ↦ True) fun _ ↦ True

section

variable (hreg : reg.OfBuiltins) (s)

include hreg

theorem anyChanges_press (k : KeyEvent) : AnyChanges s.tree (s.press reg k).1.tree :=
  changes_press hreg (Policy.changing_enforces _ reg) s k
    (Policy.changing_allowsKey (I := fun _ ↦ True) (fun _ _ _ _ _ _ _ _ _ _ ↦ trivial) trivial k)

theorem anyChanges_pressAll (ks : List KeyEvent) :
    AnyChanges s.tree (s.pressAll reg ks).1.tree := by
  refine pressAll_preserves reg (I := fun s' ↦ AnyChanges s.tree s'.tree) ?_ .refl ks
  intro s' k hchanges
  exact hchanges.trans (anyChanges_press s' hreg k)

theorem anyChanges_step (x : Step) : AnyChanges s.tree (s.step reg x).tree :=
  changes_step hreg (Policy.changing_enforces _ reg) s x
    (Policy.changing_allows (I := fun _ ↦ True) (fun _ _ _ ↦ trivial)
      (fun _ _ _ _ _ _ _ _ _ _ ↦ trivial) trivial x)

theorem anyChanges_run (steps : List Step) : AnyChanges s.tree (s.run reg steps).tree := by
  refine run_preserves reg (I := fun s' ↦ AnyChanges s.tree s'.tree) ?_ .refl
  intro s' x _ hchanges
  exact hchanges.trans (anyChanges_step s' hreg x)

end

theorem Flat.grows_step (hreg : reg.OfBuiltins) (h : s.Flat) (x : Step) :
    s.tree.Grows (fun _ ↦ False) (s.step reg x).tree := by
  refine (changes_step hreg (Policy.changing_enforces _ reg) s x ?_).grows
  -- The line in the editor of a flat session is no list, so it is within any marks.
  refine Policy.changing_allows (I := Flat) (fun s k hs ↦ flat_press hreg hs k) ?_ h x
  intro s e k e' hs he hk
  have he' := Editor.flat_press (hs.editor e he) hk
  exact (Editor.flat_iff.mp he').2.within _

theorem Flat.grows_run (hreg : reg.OfBuiltins) (h : s.Flat) (steps : List Step) :
    s.tree.Grows (fun _ ↦ False) (s.run reg steps).tree := by
  have hrun : (s.run reg steps).Flat ∧ s.tree.Grows (fun _ ↦ False) (s.run reg steps).tree := by
    refine run_preserves reg (I := fun s' ↦ s'.Flat ∧ s.tree.Grows (fun _ ↦ False) s'.tree) ?_
      ⟨h, .refl _⟩
    rintro s' x - ⟨hflat, hgrows⟩
    exact ⟨flat_step hreg hflat x, hgrows.trans (hflat.grows_step hreg x)⟩
  exact hrun.2

/-- Between any two moments of a run, every node stays at its place with its name and kind and
directories gain children at the end only. A file reads differently only if it was touched in the
meantime, or in lines that are lists; the latter never happens to a session without such lines. -/
theorem tree_only_grows (s : Session) (steps : List Step) :
    s.tree.Grows (fun _ ↦ True) (s.run .standard steps).tree ∧
      (∀ place, s.tree.signatures place <+: (s.run .standard steps).tree.signatures place) ∧
      (s.Flat → s.tree.Grows (fun _ ↦ False) (s.run .standard steps).tree) := by
  have hrun := (anyChanges_run s Registry.standard_ofBuiltins steps).grows
  refine ⟨hrun, hrun.signatures_prefix, ?_⟩
  intro h
  exact h.grows_run Registry.standard_ofBuiltins steps

/-- The session that starts without any configuration keeps its files until they are touched. -/
theorem default_tree_only_grows :
    (ofConfig {}).1.Flat ∧ ∀ steps, (ofConfig {}).1.tree.Grows (fun _ ↦ False)
      ((ofConfig {}).1.run .standard steps).tree := by
  have hflat : (ofConfig {}).1.Flat := flat_ofConfig nofun nofun
  exact ⟨hflat, fun steps ↦ (tree_only_grows (ofConfig {}).1 steps).2.2 hflat⟩

/-- A key that is typed to a list in the editor changes a file that is not touched: the user is a
list with the list `["a"]` in it, which stands in the file `f` and is edited there. -/
theorem untouched_file_changes :
    let s := (ofTree {} { user := .list [.list [.text "a"]] }).run .standard
      [.execute "whoami > f", .execute "vi f"]
    let s' := s.step .standard (.key ⟨.character, "b"⟩)
    s.tree.lines? [0] = some [.list ⟨1, 0⟩ [.text "a"]] ∧
      s'.tree.lines? [0] = some [.list ⟨1, 0⟩ [.text "a", .text "b"]] ∧
      s'.tree.touchedSince s.tree = [] := by
  decide +kernel

end Session

/-!
## The current directory

A session is always in a directory of its tree. Only `cd` leaves the current one, for a directory
that its path leads to, and no directory is ever lost.
-/

namespace Session

variable {s : Session} {reg : Registry}

abbrev InDirectory (s : Session) : Prop := s.tree.isDirectory s.cwd = true

theorem inDirectory_of_grows {s' : Session} (h : s.InDirectory) (hcwd : s'.cwd = s.cwd)
    (hgrows : s.tree.Grows (fun _ ↦ True) s'.tree) : s'.InDirectory := by
  rw [InDirectory, hcwd]
  exact hgrows.isDirectory h

theorem inDirectory_of_location_eq {s' : Session} (h : s.InDirectory)
    (hlocation : s'.location = s.location) : s'.InDirectory := by
  obtain ⟨htree, hcwd⟩ := Prod.mk.inj hlocation
  rwa [InDirectory, htree, hcwd]

theorem inDirectory_of_core {s' : Session} (hcore : s'.core = s.core) (h : s.InDirectory) :
    s'.InDirectory :=
  inDirectory_of_location_eq h (congrArg location hcore :)

/-! ### Lines -/

theorem inDirectory_run_builtin (b : Builtin) (listing : List String) (cmd : Command)
    (h : s.InDirectory) : (b.run listing s cmd).1.InDirectory := by
  by_cases hcd : b = .cd
  · subst hcd
    rw [InDirectory, tree_cd]
    simp only [Builtin.run, cd]
    split
    · exact Tree.isDirectory_nil _
    · split
      · rename_i hplace
        exact Tree.isDirectory_of_resolve h hplace
      · exact h
  · have hchanges : AnyChanges s.tree (b.run listing s cmd).1.tree :=
      changes_run b listing s cmd fun _ _ _ _ _ _ _ ↦ trivial
    exact inDirectory_of_grows h (cwd_run hcd listing s cmd) hchanges.grows

theorem inDirectory_dispatch (hreg : reg.OfBuiltins) (cmd : Command) (h : s.InDirectory) :
    (s.dispatch reg cmd).1.InDirectory := by
  unfold dispatch
  split
  · exact h
  · split
    · exact h
    · rename_i spec hspec
      obtain ⟨b, hb⟩ := hreg spec (List.mem_of_find?_eq_some hspec)
      rw [InDirectory, tree_settle, cwd_settle, hb]
      exact inDirectory_run_builtin (s := s.note _) b reg.listing cmd h

theorem inDirectory_redirect (r : Redirect) (inner : Result Place) (h : s.InDirectory) :
    (s.redirect r inner).1.InDirectory := by
  have hprovides := provides_redirect s r inner
  have hchanges : AnyChanges s.tree (s.redirect r inner).1.tree :=
    changes_redirect s r inner fun _ _ _ ↦ trivial
  exact inDirectory_of_grows h hprovides.cwd hchanges.grows

theorem inDirectory_execute (hreg : reg.OfBuiltins) (line : String) (h : s.InDirectory) :
    (s.execute reg line).1.InDirectory := by
  refine execute_preserves (I := fun o ↦ o.1.InDirectory) ?_ ?_ ?_ line
  · intro line error
    exact h
  · intro cmd
    exact inDirectory_dispatch hreg cmd h
  · intro s' r inner hinner
    exact inDirectory_redirect r inner hinner

/-! ### Keys -/

theorem cwd_runEx (s : Session) (e : Editor) (command : String) :
    (s.runEx e command).1.cwd = s.cwd :=
  (congrArg Session.cwd (beside_runEx s e command) :)

theorem cwd_editorKey (s : Session) (e : Editor) (k : KeyEvent) :
    (s.editorKey e k).1.cwd = s.cwd :=
  (congrArg Session.cwd (beside_editorKey s e k) :)

theorem inDirectory_press (hreg : reg.OfBuiltins) (k : KeyEvent) (h : s.InDirectory) :
    (s.press reg k).1.InDirectory := by
  cases he : s.editor with
  | some e =>
      have hkey : (s.press reg k).1.cwd = s.cwd := by
        rw [press, he]
        exact cwd_editorKey s e k
      exact inDirectory_of_grows h hkey (anyChanges_press s hreg k).grows
  | none =>
      rw [press, he]
      exact shellKey_preserves inDirectory_of_core (inDirectory_execute hreg) k h

theorem inDirectory_runEx (e : Editor) (command : String) (h : s.InDirectory) :
    (s.runEx e command).1.InDirectory := by
  have hchanges : AnyChanges s.tree (s.runEx e command).1.tree :=
    changes_runEx s e command fun _ _ ↦ trivial
  exact inDirectory_of_grows h (cwd_runEx s e command) hchanges.grows

/-! ### Runs -/

theorem inDirectory_step (hreg : reg.OfBuiltins) (x : Step) (h : s.InDirectory)
    (hx : ∀ place, x = .changeDirectory place → s.tree.isDirectory place = true) :
    (s.step reg x).InDirectory :=
  step_preserves inDirectory_of_core (inDirectory_execute hreg) (inDirectory_press hreg)
    (fun _ command hs ↦ inDirectory_runEx _ command hs) x hx h

/-- A session stays in directories however it is run, as long as it is moved to directories only. -/
theorem inDirectory_run (hreg : reg.OfBuiltins) (h : s.InDirectory) (steps : List Step)
    (hmoves : ∀ place, .changeDirectory place ∈ steps → s.tree.isDirectory place = true) :
    (s.run reg steps).InDirectory := by
  -- The place that a step moves to may be read off the first tree, since directories stay.
  have hrun : AnyChanges s.tree (s.run reg steps).tree ∧ (s.run reg steps).InDirectory := by
    refine run_preserves reg (I := fun s' ↦ AnyChanges s.tree s'.tree ∧ s'.InDirectory) ?_
      ⟨.refl, h⟩
    rintro s' x hmem ⟨hchanges, hin⟩
    refine ⟨hchanges.trans (anyChanges_step s' hreg x), inDirectory_step hreg x hin ?_⟩
    rintro place rfl
    exact hchanges.grows.isDirectory (hmoves place hmem)
  exact hrun.2

theorem inDirectory_ofConfig (config : Config) : (ofConfig config).1.InDirectory :=
  Tree.isDirectory_nil _

end Session

end TreeShell
