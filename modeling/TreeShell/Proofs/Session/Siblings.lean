import TreeShell.Proofs.Session.Growth
import TreeShell.Proofs.Tree.Seed

/-!
# Two children of one name

`Tree.create` does not look for a node of the name it is given. Lines look their paths up before
they make anything, so at plain paths they never make a second node. At a path whose directory is
written with a slash at its end the look-up fails even if the node is there, and the editor does not
look up the path of a new text at all when it saves it. These are the only ways to two children of
one name and kind.
-/

namespace TreeShell

namespace Tree

variable {t t' : Tree} {M : Mark → Prop}

def Free (t : Tree) (start : Place) (segments : List String) (kind : Kind) : Prop :=
  ∀ t' place, t.create start segments kind = .ok (t', place) → ¬ t.Taken start segments kind

theorem SameNodes.siblingsUnique_iff (h : t.SameNodes t') :
    t'.SiblingsUnique ↔ t.SiblingsUnique := by
  apply forall_congr'
  intro place
  rw [h.signatures]

theorem SameNodes.namesAre_iff {P : String → Prop} (h : t.SameNodes t') :
    t'.NamesAre P ↔ t.NamesAre P := by
  apply forall_congr'
  intro place
  rw [h.signatures]

theorem Changes.siblingsUnique (h : Changes Free M t t') (hu : t.SiblingsUnique) :
    t'.SiblingsUnique := by
  refine h.preserves (fun t t' hsame hu ↦ hsame.siblingsUnique_iff.mpr hu) ?_ hu
  intro t t' start segments kind place hfree hc hu
  exact (siblingsUnique_create_iff hu hc).mpr (hfree t' place hc)

theorem Changes.namesAre {P : Tree → Place → List String → Kind → Prop} (h : Changes P M t t')
    (hn : t.NamesAre (· ≠ "")) : t'.NamesAre (· ≠ "") := by
  refine h.preserves (fun t t' hsame hn ↦ hsame.namesAre_iff.mpr hn) ?_ hn
  intro t t' start segments kind place _ hc hn
  exact namesAre_create hn hc

end Tree

namespace Session

variable {s s' : Session}

/-- No directory of the tree has two children of one name and kind, and every node has a name. -/
structure Tidy (s : Session) : Prop where
  unique : s.tree.SiblingsUnique
  named : s.tree.NamesAre (· ≠ "")

/-! ## Lines -/

/-- At its turn in a line, a path makes no second node: it is plain, or its name is free. -/
def FreshAt (s : Session) (path : String) (kind : Kind) : Prop :=
  Path.Plain (Path.split path) ∨ ¬ s.tree.Taken s.cwd (Path.split path) kind

def FreshArgs (one : Session → String → Outcome) (kind : Kind) (s : Session) :
    List String → Prop
  | [] => True
  | path :: paths =>
      s.FreshAt path kind ∧
        ∀ r, (one s path).2 = .ok r → FreshArgs one kind (one s path).1 paths

def FreshCommand (s : Session) (cmd : Command) : Prop :=
  if cmd.name = Builtin.touch.name then
    FreshArgs touchOne .text (s.note (dispatchRecord cmd)) cmd.args
  else if cmd.name = Builtin.mkdir.name then
    FreshArgs mkdirOne .directory (s.note (dispatchRecord cmd)) cmd.args
  else True

def FreshTargets (o : Outcome) : List Redirect → Prop
  | [] => True
  | r :: rs =>
      FreshTargets o rs ∧
        ∀ inner, (rs.foldr (fun r o ↦ o.send r) o).2 = .ok inner →
          (rs.foldr (fun r o ↦ o.send r) o).1.FreshAt r.target .text

/-- Every path at which a line makes a node is plain or has a free name at its turn. -/
def FreshLine (s : Session) (line : String) : Prop :=
  (∀ cmd, Command.parse (Command.unwrap line).2 = .ok cmd → s.FreshCommand cmd) ∧
    FreshTargets (s.execute .standard (Command.unwrap line).2) (Command.unwrap line).1

/-- The policy under which lines and saves make nodes only where they make no second one. -/
def Policy.fresh : Policy where
  line s line := s.FreshLine line
  save t home segments := ¬ t.Taken home segments .text
  list _ := True

section

variable {found : List Kind} {path : String} {kind : Kind}

theorem Provides.unique_iff (h : s.Provides s' found path kind) (hk : kind ∈ found) (hs : s.Tidy) :
    s'.tree.SiblingsUnique ↔ s.FreshAt path kind := by
  rw [h.nodes.siblingsUnique_iff]
  exact Tree.siblingsUnique_provide_iff hs.named hs.unique (Path.split_ne_nil path) hk

theorem Provides.named (h : s.Provides s' found path kind) (hn : s.tree.NamesAre (· ≠ "")) :
    s'.tree.NamesAre (· ≠ "") :=
  h.nodes.namesAre_iff.mpr (Tree.namesAre_provide hn)

theorem Provides.unique_before (h : s.Provides s' found path kind)
    (hu : s'.tree.SiblingsUnique) : s.tree.SiblingsUnique :=
  (Tree.grows_provide (fun _ ↦ True) found s.tree s.cwd _ kind).siblingsUnique
    (h.nodes.siblingsUnique_iff.mp hu)

variable {one : Session → String → Outcome}
  (hone : ∀ (s : Session) path, s.Provides (one s path).1 found path kind) (hk : kind ∈ found)

include hone in
theorem unique_before_each (s : Session) (paths : List String)
    (hu : (s.each one paths).1.tree.SiblingsUnique) : s.tree.SiblingsUnique := by
  by_contra hs
  -- Two children of one name stay two.
  have hlater : ¬ (s.each one paths).1.tree.SiblingsUnique :=
    each_preserves (I := fun s ↦ ¬ s.tree.SiblingsUnique)
      (fun s path _ hs hfirst ↦ hs ((hone s path).unique_before hfirst)) hs
  exact hlater hu

include hone hk in
theorem unique_each_iff (hs : s.Tidy) (paths : List String) :
    (s.each one paths).1.tree.SiblingsUnique ↔ FreshArgs one kind s paths := by
  induction paths generalizing s with
  | nil => exact iff_of_true hs.unique trivial
  | cons path paths ih =>
      have hfirst := hone s path
      rw [FreshArgs, ← hfirst.unique_iff hk hs]
      unfold each
      split
      · rename_i s' failure h
        rw [h]
        exact ⟨fun hu ↦ ⟨hu, nofun⟩, fun hfresh ↦ hfresh.1⟩
      · rename_i s' first h
        rw [h] at hfirst ⊢
        have hnamed := hfirst.named hs.named
        constructor
        · intro hu
          -- Two children of one name stay two, so there were none after the first path.
          have hu' := unique_before_each hone s' paths hu
          exact ⟨hu', fun r _ ↦ (ih ⟨hu', hnamed⟩).mp hu⟩
        · rintro ⟨hu', hrest⟩
          exact (ih ⟨hu', hnamed⟩).mpr (hrest first rfl)

end

theorem unique_dispatch_iff (hs : s.Tidy) (cmd : Command) :
    (s.dispatch .standard cmd).1.tree.SiblingsUnique ↔ s.FreshCommand cmd := by
  have hnote : (s.note (dispatchRecord cmd)).Tidy := ⟨hs.unique, hs.named⟩
  unfold FreshCommand
  split_ifs with htouch hmkdir
  · rw [dispatch_builtin s .touch htouch, tree_settle]
    exact unique_each_iff provides_touchOne (by simp) hnote cmd.args
  · rw [dispatch_builtin s .mkdir hmkdir, tree_settle]
    exact unique_each_iff provides_mkdirOne (by simp) hnote cmd.args
  · refine iff_of_true ?_ trivial
    have hchanges := changes_dispatch (P := Tree.Free) (M := fun _ ↦ True)
      Registry.standard_ofBuiltins s cmd fun kind hkind ↦ by
        unfold Registry.makes at hkind
        cases hspec : Registry.standard.find? cmd.name with
        | none => simp [hspec] at hkind
        | some spec =>
            obtain ⟨b, rfl, hb⟩ := Registry.find?_standard_eq_some hspec
            rw [hspec] at hkind
            cases b <;> simp only [Builtin.spec, Option.map_some, Builtin.makes] at hkind
            case touch => exact absurd hb.symm htouch
            case mkdir => exact absurd hb.symm hmkdir
            all_goals cases hkind
    exact hchanges.siblingsUnique hs.unique

theorem unique_foldr_send_iff (o : Outcome) (hn : o.1.tree.NamesAre (· ≠ "")) (rs : List Redirect) :
    (rs.foldr (fun r o ↦ o.send r) o).1.tree.NamesAre (· ≠ "") ∧
      ((rs.foldr (fun r o ↦ o.send r) o).1.tree.SiblingsUnique ↔
        o.1.tree.SiblingsUnique ∧ FreshTargets o rs) := by
  induction rs with
  | nil => exact ⟨hn, (and_iff_left trivial).symm⟩
  | cons r rs ih =>
      rw [List.foldr_cons, FreshTargets]
      generalize rs.foldr (fun r o ↦ o.send r) o = o' at *
      obtain ⟨s', result⟩ := o'
      cases result with
      | error failure =>
          refine ⟨ih.1, ih.2.trans ⟨fun h ↦ ⟨h.1, h.2, nofun⟩, fun h ↦ ⟨h.1, h.2.1⟩⟩⟩
      | ok inner =>
          have hsend := provides_redirect s' r inner
          refine ⟨hsend.named ih.1, ?_⟩
          rw [← and_assoc, ← ih.2]
          constructor
          · intro hu
            have hu' := hsend.unique_before hu
            refine ⟨hu', ?_⟩
            intro _ _
            exact (hsend.unique_iff (by simp) ⟨hu', ih.1⟩).mp hu
          · rintro ⟨hu', hfresh⟩
            exact (hsend.unique_iff (by simp) ⟨hu', ih.1⟩).mpr (hfresh inner rfl)

theorem unique_execute_iff (hs : s.Tidy) (line : String) :
    (s.execute .standard line).1.tree.SiblingsUnique ↔ s.FreshLine line := by
  have hinner : (s.execute .standard (Command.unwrap line).2).1.tree.SiblingsUnique ↔
      ∀ cmd, Command.parse (Command.unwrap line).2 = .ok cmd → s.FreshCommand cmd := by
    rcases Command.parse_unwrap_snd line with ⟨e, he⟩ | ⟨cmd, hcmd, hr⟩
    · rw [execute_of_error he]
      refine iff_of_true hs.unique ?_
      intro cmd hcmd
      cases he.symm.trans hcmd
    · rw [execute_of_plain hcmd hr]
      refine (unique_dispatch_iff hs cmd).trans ?_
      constructor
      · intro h cmd' hcmd'
        cases hcmd.symm.trans hcmd'
        exact h
      · intro h
        exact h cmd hcmd
  have hnamed : (s.execute .standard (Command.unwrap line).2).1.tree.NamesAre (· ≠ "") :=
    (anyChanges_step s Registry.standard_ofBuiltins (.execute _)).namesAre hs.named
  rw [execute_eq_foldr, FreshLine, ← hinner]
  exact (unique_foldr_send_iff _ hnamed _).2

/-! ## Keys -/

theorem tree_runEx_of_saves {e : Editor} {command : String}
    (h : (ExCommand.ofString command).saves = true) :
    (s.runEx e command).1.tree = (s.save e).1.tree := by
  unfold runEx
  cases hc : ExCommand.ofString command <;> rw [hc] at h <;> simp only [ExCommand.saves] at h
  case write =>
    dsimp only
    split <;> (rename_i hs; rw [hs])
  case writeQuit =>
    dsimp only
    split
    · rename_i hs
      rw [tree_closeEditor, hs]
    · rename_i hs
      rw [hs]
    · rename_i hs
      rw [hs]
  all_goals cases h

theorem not_unique_of_save (hs : s.Tidy) {e : Editor} (hf : e.file = none)
    (ht : s.tree.Taken e.home e.segments .text) : ¬ (s.save e).1.tree.SiblingsUnique := by
  obtain ⟨t, place, hc⟩ := ht.create hs.named
  intro hu
  rw [tree_save hf, hc] at hu
  have hut : t.SiblingsUnique :=
    (Tree.sameNodes_write t place e.lines).siblingsUnique_iff.mp hu
  exact (Tree.siblingsUnique_create_iff hs.unique hc).mp hut ht

theorem unique_runEx_iff (hs : s.Tidy) (e : Editor) (command : String) :
    (s.runEx e command).1.tree.SiblingsUnique ↔
      (e.file = none → (ExCommand.ofString command).saves = true →
        ¬ s.tree.Taken e.home e.segments .text) := by
  constructor
  · intro hu hf hc ht
    rw [tree_runEx_of_saves hc] at hu
    exact not_unique_of_save hs hf ht hu
  · intro hfree
    have hchanges := changes_runEx (P := Tree.Free) (M := fun _ ↦ True) s e command
      fun hf hc _ _ _ ↦ hfree hf hc
    exact hchanges.siblingsUnique hs.unique

theorem unique_press_iff (hs : s.Tidy) (k : KeyEvent) :
    (s.press .standard k).1.tree.SiblingsUnique ↔ Policy.fresh.AllowsKey s k := by
  unfold Policy.AllowsKey press
  cases he : s.editor with
  | none =>
      dsimp only
      by_cases h : ∃ prompt, s.Submits k prompt
      · obtain ⟨prompt, hsubmits⟩ := h
        have hs' : (s.submitting prompt).Tidy := ⟨hs.unique, hs.named⟩
        rw [tree_shellKey_of_submits hsubmits, unique_execute_iff hs']
        constructor
        · intro hfresh prompt' h'
          cases hsubmits.prompt.symm.trans h'.prompt
          exact hfresh
        · intro hfresh
          exact hfresh prompt hsubmits
      · rw [tree_shellKey_of_not_submits (not_exists.mp h)]
        exact iff_of_true hs.unique fun prompt hsubmits ↦ absurd ⟨prompt, hsubmits⟩ h
  | some e =>
      by_cases hsubmit : k.key = .enter ∧ e.mode = .command
      · simp only [editorKey_of_enter s hsubmit.1 hsubmit.2]
        rw [unique_runEx_iff hs]
        constructor
        · intro hfree
          refine ⟨?_, fun _ _ _ _ _ ↦ trivial⟩
          intro _ _ e' he' hf hc
          cases he.symm.trans he'
          exact hfree hf hc
        · intro hallowed hf hc
          exact hallowed.1 hsubmit.1 hsubmit.2 e he hf hc
      · refine iff_of_true ?_ ⟨fun h₁ h₂ ↦ absurd ⟨h₁, h₂⟩ hsubmit, fun _ _ _ _ _ ↦ trivial⟩
        have hchanges := changes_editorKey (P := Tree.Free) (M := fun _ ↦ True) s e k
          (fun h₁ h₂ ↦ absurd ⟨h₁, h₂⟩ hsubmit) fun _ _ _ _ _ ↦ trivial
        exact hchanges.siblingsUnique hs.unique

theorem tidy_press (hs : s.Tidy) (k : KeyEvent)
    (hu : (s.press .standard k).1.tree.SiblingsUnique) : (s.press .standard k).1.Tidy :=
  ⟨hu, (anyChanges_press s Registry.standard_ofBuiltins k).namesAre hs.named⟩

theorem unique_pressAll_iff (hs : s.Tidy) (ks : List KeyEvent) :
    (s.pressAll .standard ks).1.tree.SiblingsUnique ↔ Policy.fresh.AllowsKeys .standard s ks := by
  induction ks generalizing s with
  | nil => exact iff_of_true hs.unique trivial
  | cons k ks ih =>
      have hkey := unique_press_iff hs k
      rw [Policy.AllowsKeys, ← hkey, pressAll]
      split
      · rename_i s' hp
        have htidy := tidy_press hs k
        rw [hp] at htidy ⊢
        have hgrows := (anyChanges_pressAll s' Registry.standard_ofBuiltins ks).grows
        constructor
        · intro hu
          have hu' := hgrows.siblingsUnique hu
          exact ⟨hu', fun _ ↦ (ih (htidy hu')).mp hu⟩
        · rintro ⟨hu', hfresh⟩
          exact (ih (htidy hu')).mpr (hfresh rfl)
      · rename_i s' failure hp
        rw [hp]
        constructor
        · intro hu
          refine ⟨hu, ?_⟩
          intro hnone
          cases hnone
        · intro h
          exact h.1

/-! ## Runs -/

theorem unique_step_iff (hs : s.Tidy) (x : Step) :
    (s.step .standard x).tree.SiblingsUnique ↔ Policy.fresh.Allows .standard s x := by
  cases x with
  | execute line => exact unique_execute_iff hs line
  | key k => exact unique_press_iff hs k
  | feed line => exact unique_pressAll_iff hs _
  | complete =>
      rw [step, tree_complete]
      exact iff_of_true hs.unique trivial
  | changeDirectory place => exact iff_of_true hs.unique trivial
  | ex command =>
      cases he : s.editor with
      | none =>
          rw [step, he]
          refine iff_of_true hs.unique ?_
          intro e he'
          cases he.symm.trans he'
      | some e =>
          rw [step, he]
          refine (unique_runEx_iff hs e command).trans ?_
          constructor
          · intro h e' he'
            cases he.symm.trans he'
            exact h
          · intro h
            exact h e he

/-- A run leaves no directory with two children of one name and kind exactly if all its steps make
nodes where they make no second one. -/
theorem unique_run_iff (hs : s.Tidy) (steps : List Step) :
    (s.run .standard steps).tree.SiblingsUnique ↔ Policy.fresh.AllowsRun .standard s steps := by
  induction steps generalizing s with
  | nil => exact iff_of_true hs.unique trivial
  | cons x steps ih =>
      have hgrows := (anyChanges_run (s.step .standard x) Registry.standard_ofBuiltins steps).grows
      have hnamed : (s.step .standard x).tree.NamesAre (· ≠ "") :=
        (anyChanges_step s Registry.standard_ofBuiltins x).namesAre hs.named
      rw [Policy.AllowsRun, ← unique_step_iff hs x, run_cons]
      -- What later steps do never makes names unique again.
      constructor
      · intro hu
        have hu' := hgrows.siblingsUnique hu
        exact ⟨hu', (ih ⟨hu', hnamed⟩).mp hu⟩
      · rintro ⟨hu', hfresh⟩
        exact (ih ⟨hu', hnamed⟩).mpr hfresh

/-! ## Doing it again -/

inductive Maker where
  | touch
  | mkdir
  | echo (text : String) (h : '>' ∉ text.toList)

namespace Maker

def line (path : String) : Maker → String
  | touch => Builtin.touch.name ++ " " ++ path
  | mkdir => Builtin.mkdir.name ++ " " ++ path
  | echo text _ =>
      Builtin.echo.name ++ " " ++ text ++ " " ++ RedirectMode.truncate.operator ++ " " ++ path

def kind : Maker → Kind
  | touch | echo _ _ => .text
  | mkdir => .directory

def found : Maker → List Kind
  | touch => [.text]
  | mkdir => [.directory]
  | echo _ _ => [.text, .directory]

theorem kind_mem_found (m : Maker) : m.kind ∈ m.found := by cases m <;> simp [kind, found]

end Maker

variable {path : String}

theorem provides_builtin {b : Builtin} {kind : Kind} (hb : b.makes = some kind)
    (hp : Command.Argument path) (s : Session) :
    s.Provides (s.execute .standard (b.name ++ " " ++ path)).1 [kind] path kind := by
  cases b <;> simp only [Builtin.makes, reduceCtorEq, Option.some.injEq] at hb
  case touch =>
    subst hb
    exact provides_at_path (fun _ _ _ ↦ rfl) provides_touchOne hp s
  case mkdir =>
    subst hb
    exact provides_at_path (fun _ _ _ ↦ rfl) provides_mkdirOne hp s

theorem provides_line (m : Maker) (hp : Command.Word path) (s : Session) :
    s.Provides (s.execute .standard (m.line path)).1 m.found path m.kind := by
  cases m with
  | touch => exact provides_builtin rfl hp.argument s
  | mkdir => exact provides_builtin rfl hp.argument s
  | echo text htext =>
      have hname : '>' ∉ Builtin.echo.name.toList := by decide
      have hbody : '>' ∉ (Builtin.echo.name ++ " " ++ text).toList := by simp [hname, htext]
      have hbody' : '>' ∉ (Builtin.echo.name ++ " " ++ text ++ " ").toList := by
        simp [hname, htext]
      have hwords : Text.tokens (Builtin.echo.name ++ " " ++ text ++ " ") =
          Builtin.echo.name :: Text.tokens text := by
        rw [Text.tokens_append_single_space, Text.tokens_append_space]
        rfl
      rw [Maker.line, execute_redirect hbody hp, execute_words s .echo hbody' hwords]
      have hsend := provides_redirect (s.note (dispatchRecord
        ⟨Builtin.echo.name, Text.tokens text, none, Builtin.echo.name ++ " " ++ text ++ " "⟩))
        ⟨.truncate, path⟩ (.ofLine (Text.join ' ' (Text.tokens text)))
      exact ⟨hsend.cwd, hsend.nodes⟩

section

variable {s₁ s₂ : Session} {found : List Kind} {kind : Kind}

theorem Provides.twice (h₁ : s.Provides s₁ found path kind) (h₂ : s₁.Provides s₂ found path kind) :
    ((s.tree.provide found s.cwd (Path.split path) kind).provide found s.cwd (Path.split path)
      kind).SameNodes s₂.tree := by
  have hagain := h₂.nodes
  rw [h₁.cwd] at hagain
  exact h₁.nodes.provide.trans hagain

theorem Provides.sameNodes_twice (h₁ : s.Provides s₁ found path kind)
    (h₂ : s₁.Provides s₂ found path kind) (hk : kind ∈ found)
    (hplain : Path.Plain (Path.split path)) : s₁.tree.SameNodes s₂.tree := by
  have htwice := h₁.twice h₂
  rw [Tree.provide_provide (Path.split_ne_nil path) hplain hk] at htwice
  exact h₁.nodes.symm.trans htwice

theorem Provides.unique_twice_iff (h₁ : s.Provides s₁ found path kind)
    (h₂ : s₁.Provides s₂ found path kind) (hs : s.Tidy)
    (hplain : ¬ Path.Plain (Path.split path)) :
    s₂.tree.SiblingsUnique ↔ s.tree.SameNodes s₁.tree := by
  rw [(h₁.twice h₂).siblingsUnique_iff,
    Tree.siblingsUnique_provide_provide_iff hs.named hs.unique hplain, Tree.provide_eq_self_iff]
  exact ⟨fun h ↦ h.trans h₁.nodes, fun h ↦ h.trans h₁.nodes.symm⟩

end

theorem tidy_ofConfig {config : Config}
    (h : Seed.KeysAre Path.IsOrdinary config.filesystem.seed) : (ofConfig config).1.Tidy where
  unique := Tree.siblingsUnique_ofSeed h _
  named := fun place sig hsig ↦ (Tree.namesAre_ofSeed h _ place sig hsig).1

/-- A session starts from a seed with distinct ordinary keys. However it is run, its directories
have no two children of one name and kind exactly if every line and every save made nodes where
they make no second one. A line that makes a node at a plain path makes none the second time; at
any other path it makes a second node whenever it made one the first time. -/
theorem siblings_unique_iff_fresh (config : Config)
    (hseed : Seed.KeysAre Path.IsOrdinary config.filesystem.seed) (steps : List Step) :
    let s := (ofConfig config).1.run .standard steps
    (s.tree.SiblingsUnique ↔ Policy.fresh.AllowsRun .standard (ofConfig config).1 steps) ∧
      ∀ (m : Maker) (path : String), Command.Word path →
        let s₁ := (s.execute .standard (m.line path)).1
        let s₂ := (s₁.execute .standard (m.line path)).1
        (Path.Plain (Path.split path) → s₁.tree.SameNodes s₂.tree) ∧
          (¬ Path.Plain (Path.split path) → s.tree.SiblingsUnique →
            (s₂.tree.SiblingsUnique ↔ s.tree.SameNodes s₁.tree)) := by
  intro s
  have hstart := tidy_ofConfig hseed
  refine ⟨unique_run_iff hstart steps, ?_⟩
  intro m path hp
  have hfirst := provides_line m hp s
  have hsecond := provides_line m hp (s.execute .standard (m.line path)).1
  refine ⟨fun hplain ↦ hfirst.sameNodes_twice hsecond m.kind_mem_found hplain, ?_⟩
  intro hplain hu
  have hnamed : s.tree.NamesAre (· ≠ "") :=
    (anyChanges_run _ Registry.standard_ofBuiltins steps).namesAre hstart.named
  exact hfirst.unique_twice_iff hsecond ⟨hu, hnamed⟩ hplain

/-- In the session without any configuration `touch a` can be repeated, `touch /x` cannot. -/
theorem default_siblings :
    let s := (ofConfig {}).1
    let again (path : String) : Session :=
      ((s.execute .standard (Maker.touch.line path)).1.execute .standard
        (Maker.touch.line path)).1
    Seed.KeysAre Path.IsOrdinary defaultSeed ∧ s.tree.SiblingsUnique ∧
      (s.execute .standard (Maker.touch.line "a")).1.tree.SameNodes (again "a").tree ∧
      ¬ (again "/x").tree.SiblingsUnique := by
  have h := siblings_unique_iff_fresh {} Seed.keysAre_defaultSeed []
  have hs : (ofConfig {}).1.tree.SiblingsUnique := h.1.mpr trivial
  have ha := (h.2 .touch "a" (by decide)).1 (by decide)
  have hx := (h.2 .touch "/x" (by decide)).2 (by decide) hs
  refine ⟨Seed.keysAre_defaultSeed, hs, ha, fun hu ↦ ?_⟩
  have hplace := hx.mp hu [3]
  revert hplace
  decide +kernel

/-- The second `touch /x` makes a second file. -/
example :
    ((ofTree {} {}).run .standard [.execute "touch /x", .execute "touch /x"]).tree.signatures [] =
      [("x", .text), ("x", .text)] := by
  decide +kernel

end Session

end TreeShell
