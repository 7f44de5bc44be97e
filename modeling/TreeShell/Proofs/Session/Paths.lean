import TreeShell.Proofs.Session.Growth
import TreeShell.Proofs.Session.Siblings
import TreeShell.Proofs.Tree.Address

/-!
# Paths that lead back

`pwd` prints a path that `cd` follows back, from wherever it is given. The path at which `touch` or
`mkdir` made a node leads to that node exactly if it is plain; at any other path the same line makes
a node once more. Only a new directory that hides an older one can cut such a path off from its
directory, and then the line fails.
-/

namespace TreeShell

namespace Session

variable {s : Session} {path : String}

/-! ## What is printed -/

theorem execute_pwd (h : s.tree.path s.cwd = .text path) :
    (s.execute .standard Builtin.pwd.name).2 = .ok { out := [.text path] } := by
  have hline : '>' ∉ Builtin.pwd.name.toList := by decide
  have hwords : Text.tokens Builtin.pwd.name = [Builtin.pwd.name] := by decide
  rw [execute_words s .pwd hline hwords]
  simp [Builtin.run, showValue, note, h, Line.linesOf, settle, done]

theorem execute_cd (hp : Command.Argument path) {place : Place}
    (h : s.tree.resolvePath s.cwd path (some .directory) = some place) :
    let o := s.execute .standard (Builtin.cd.name ++ " " ++ path)
    o.2 = .ok .empty ∧ o.1.cwd = place ∧ o.1.tree = s.tree := by
  rw [execute_argument s .cd hp]
  simp [Builtin.run, cd, note, h, settle, done, changeDirectory]

/-- Below a root that is labelled `~`, a path that is written out leads from every directory to the
node it is the path of, if that node is foremost. So `cd` can be given what `pwd` printed, if that
is one word without an operator, in every session with the same tree. -/
theorem printed_path_leads_back {t : Tree} (hlabel : t.label = .text Path.home) :
    (∀ start place name kind, t.isDirectory start = true →
      t.signature? place = some (name, kind) → t.Foremost place →
        ∃ path, t.path place = .text path ∧
          t.resolvePath start path (some kind) = some place) ∧
      ∀ s : Session, s.tree = t → s.InDirectory → t.Foremost s.cwd →
        ∃ path, (s.execute .standard Builtin.pwd.name).2 = .ok { out := [.text path] } ∧
          (' ' ∉ path.toList → '>' ∉ path.toList →
            ∀ s' : Session, s'.tree = t → s'.InDirectory →
              let o := s'.execute .standard (Builtin.cd.name ++ " " ++ path)
              o.2 = .ok .empty ∧ o.1.cwd = s.cwd ∧ o.1.tree = t) := by
  refine ⟨?_, ?_⟩
  · intro start place name kind hstart hsig hforemost
    exact ⟨_, Tree.path_eq_join_address hlabel place,
      Tree.resolvePath_join_address hforemost hstart hsig⟩
  · rintro s rfl hin hforemost
    have hpath := Tree.path_eq_join_address hlabel s.cwd
    refine ⟨_, execute_pwd hpath, ?_⟩
    intro hspace hoperator s' htree hin'
    obtain ⟨name, hsig⟩ := Tree.isDirectory_iff.mp hin
    have hback : s'.tree.resolvePath s'.cwd (Path.join (s.tree.address s.cwd))
        (some .directory) = some s.cwd := by
      rw [InDirectory, htree] at hin'
      rw [htree]
      exact Tree.resolvePath_join_address hforemost hin' hsig
    obtain ⟨hresult, hcwd, hsame⟩ :=
      execute_cd ⟨Tree.join_address_ne hforemost, hspace, hoperator⟩ hback
    exact ⟨hresult, hcwd, hsame.trans htree⟩

/-- In the session without any configuration the paths of `projects` and of the file in it lead
back from each other's directories. -/
theorem default_path_leads_back :
    let s := (ofConfig {}).1
    s.tree.label = .text Path.home ∧
      s.tree.resolvePath [2] "~/projects/shell.txt" (some .text) = some [2, 0] ∧
      ((s.changeDirectory [2]).execute .standard "pwd").2 =
        .ok { out := [.text "~/projects"] } ∧
      (s.execute .standard "cd ~/projects").1.cwd = [2] := by
  intro s
  have hlabel : s.tree.label = .text Path.home := by decide +kernel
  have hforemost {place : Place} {sig : String × Kind} (h : s.tree.signature? place = some sig) :
      s.tree.Foremost place :=
    Tree.foremost_of_siblingsUnique (Tree.namesAre_ofSeed Seed.keysAre_defaultSeed _)
      (Tree.siblingsUnique_ofSeed Seed.keysAre_defaultSeed _) h
  have hprojects : s.tree.signature? [2] = some ("projects", .directory) := by decide +kernel
  have hfile : s.tree.signature? [2, 0] = some ("shell.txt", .text) := by decide +kernel
  have hin : s.tree.isDirectory [2] = true := Tree.isDirectory_iff.mpr ⟨_, hprojects⟩
  have hshell : s.tree.path [2, 0] = .text "~/projects/shell.txt" := by decide +kernel
  have hwd : s.tree.path [2] = .text "~/projects" := by decide +kernel
  have hback := printed_path_leads_back hlabel
  obtain ⟨_, hpath, hresolve⟩ := hback.1 [2] [2, 0] _ _ hin hfile (hforemost hfile)
  obtain rfl := Json.text.inj (hshell.symm.trans hpath)
  obtain ⟨path, hpwd, hcd⟩ := hback.2 (s.changeDirectory [2]) rfl hin (hforemost hprojects)
  have hprinted : path = "~/projects" := by
    have hsame := hpwd.symm.trans (execute_pwd hwd)
    simpa using hsame
  subst hprinted
  exact ⟨hlabel, hresolve, hpwd, (hcd (by decide) (by decide) s rfl (Tree.isDirectory_nil _)).2.1⟩

/-! ## Where something was made -/

section

variable {s₁ s₂ : Session} {found : List Kind} {kind : Kind}

theorem Provides.create (h : s.Provides s₁ found path kind)
    (hmade : ¬ s.tree.SameNodes s₁.tree) :
    ∃ place, s.tree.create s.cwd (Path.split path) kind =
      .ok (s.tree.provide found s.cwd (Path.split path) kind, place) := by
  rcases Tree.provide_cases found s.tree s.cwd (Path.split path) kind with ht | ⟨-, hc⟩
  · have hsame := h.nodes
    rw [ht] at hsame
    exact absurd hsame hmade
  · exact hc

theorem Provides.sameNodes_again_iff (h₁ : s.Provides s₁ found path kind)
    (h₂ : s₁.Provides s₂ found path kind) (hk : kind ∈ found) (hn : s.tree.NamesAre (· ≠ ""))
    (hmade : ¬ s.tree.SameNodes s₁.tree) :
    s₁.tree.SameNodes s₂.tree ↔
      Path.Plain (Path.split path) ∨ s₁.tree.parent? s.cwd (Path.split path) = none := by
  by_cases hplain : Path.Plain (Path.split path)
  · exact iff_of_true (h₁.sameNodes_twice h₂ hk hplain) (.inl hplain)
  · obtain ⟨place, hc⟩ := h₁.create hmade
    have hfirst := h₁.nodes
    have hsecond := h₁.twice h₂
    have hlost := Tree.sameNodes_provide_iff_of_create found hn hplain hc
    rw [or_iff_right hplain, hfirst.parent?, ← hlost]
    exact ⟨fun h ↦ (hfirst.trans h).trans hsecond.symm, fun h ↦ (hfirst.symm.trans h).trans hsecond⟩

theorem Provides.taken_of_parent?_eq_none (h : s.Provides s₁ found path kind)
    (hmade : ¬ s.tree.SameNodes s₁.tree)
    (hlost : s₁.tree.parent? s.cwd (Path.split path) = none) :
    kind = .directory ∧ s.tree.Taken s.cwd (Path.split path) kind := by
  obtain ⟨place, hc⟩ := h.create hmade
  obtain ⟨parent, hp, hm⟩ := Tree.made_of_create hc
  rw [h.nodes.parent?] at hlost
  by_contra hnot
  -- Otherwise the node hides no directory, and the path leads where it led before.
  have hfree (hd : kind = .directory) :
      (Path.lastName (Path.split path), kind) ∉ s.tree.signatures parent :=
    fun hmem ↦ hnot ⟨hd, parent, hp, hmem⟩
  rw [hm.parent? hfree hp] at hlost
  cases hlost

end

/-- What is made where a path leads nowhere is found there exactly if the path is plain. So a line
with `touch` or `mkdir` that made a node makes none the second time if its path is plain. If it is
not, the line makes a node once more, unless the first one hides a directory that the path goes
through. -/
theorem look_up_after_making (hn : s.tree.NamesAre (· ≠ "")) :
    (∀ start segments kind t place, segments ≠ [] →
      s.tree.resolve start segments (some kind) = none →
      s.tree.create start segments kind = .ok (t, place) →
        (t.resolve start segments (some kind) = some place ↔ Path.Plain segments) ∧
          (¬ Path.Plain segments → t.resolve start segments (some kind) = none)) ∧
      ∀ (b : Builtin) (kind : Kind) (path : String), b.makes = some kind →
        Command.Argument path →
          let s₁ := (s.execute .standard (b.name ++ " " ++ path)).1
          let s₂ := (s₁.execute .standard (b.name ++ " " ++ path)).1
          let lost := s₁.tree.parent? s.cwd (Path.split path) = none
          ¬ s.tree.SameNodes s₁.tree →
            (s₁.tree.SameNodes s₂.tree ↔ Path.Plain (Path.split path) ∨ lost) ∧
              (lost → kind = .directory ∧ s.tree.Taken s.cwd (Path.split path) kind) := by
  refine ⟨?_, ?_⟩
  · intro start segments kind t place hne hnone hc
    have hhidden : ¬ Path.Plain segments → t.resolve start segments (some kind) = none :=
      fun hplain ↦ Tree.resolve_eq_none_of_not_plain (Tree.namesAre_create hn hc) hplain
    refine ⟨⟨?_, fun hplain ↦ Tree.resolve_of_create hne hplain hnone hc⟩, hhidden⟩
    intro hfound
    by_contra hplain
    rw [hhidden hplain] at hfound
    cases hfound
  · intro b kind path hb hp s₁ s₂ lost hmade
    have hfirst : s.Provides s₁ [kind] path kind := provides_builtin hb hp s
    have hsecond : s₁.Provides s₂ [kind] path kind := provides_builtin hb hp s₁
    exact ⟨hfirst.sameNodes_again_iff hsecond (List.mem_singleton.mpr rfl) hn hmade,
      hfirst.taken_of_parent?_eq_none hmade⟩

/-- In the session without any configuration `touch a` makes one file, however often it is run, and
`touch /x` a second one. A file made in `projects` at `/b` is not found there. -/
theorem default_look_up_after_making :
    let s := (ofConfig {}).1
    let once (path : String) : Session := (s.execute .standard (Maker.touch.line path)).1
    let twice (path : String) : Session :=
      ((once path).execute .standard (Maker.touch.line path)).1
    s.tree.NamesAre (· ≠ "") ∧
      (∃ t place, s.tree.create [2] ["", "b"] .text = .ok (t, place) ∧
        t.resolve [2] ["", "b"] (some .text) = none) ∧
      (¬ s.tree.SameNodes (once "a").tree ∧ (once "a").tree.SameNodes (twice "a").tree) ∧
      ¬ s.tree.SameNodes (once "/x").tree ∧ ¬ (once "/x").tree.SameNodes (twice "/x").tree := by
  intro s once twice
  have hn : s.tree.NamesAre (· ≠ "") := (tidy_ofConfig Seed.keysAre_defaultSeed).named
  have hmaking := look_up_after_making hn
  obtain ⟨t, place, hc⟩ : ∃ t place, s.tree.create [2] ["", "b"] .text = .ok (t, place) :=
    ⟨_, _, Tree.create_eq_ok_iff.mpr
      ⟨[2], by decide +kernel, by decide +kernel, by decide, rfl, rfl⟩⟩
  have hhidden := (hmaking.1 [2] ["", "b"] .text t place (by decide) (by decide +kernel) hc).2
    (by decide)
  have hfree : s.tree.signature? [3] = none := by decide +kernel
  have hmade {path : String} (h : ((once path).tree.signature? [3]).isSome = true) :
      ¬ s.tree.SameNodes (once path).tree := by
    intro hsame
    rw [hsame [3], hfree] at h
    cases h
  have ha : ¬ s.tree.SameNodes (once "a").tree := hmade (by decide +kernel)
  have hx : ¬ s.tree.SameNodes (once "/x").tree := hmade (by decide +kernel)
  have hplain := (hmaking.2 .touch .text "a" rfl (by decide) ha).1.mpr (.inl (by decide))
  have hagain := (hmaking.2 .touch .text "/x" rfl (by decide) hx).1.not.mpr (by decide +kernel)
  exact ⟨hn, ⟨t, place, hc, hhidden⟩, ⟨ha, hplain⟩, hx, hagain⟩

/-- The path `x/y/../..//x` is not plain, but a second `x` cuts it off: it has no `y`, and the first
one is hidden. -/
theorem hidden_directory_is_not_made_again :
    let path := "x/y/../..//x"
    let s := (ofConfig { filesystem := { seed := [("x", .object [("y", .object [])])] } }).1
    let s₁ := (s.execute .standard (Builtin.mkdir.name ++ " " ++ path)).1
    let s₂ := (s₁.execute .standard (Builtin.mkdir.name ++ " " ++ path)).1
    s.tree.NamesAre (· ≠ "") ∧ ¬ Path.Plain (Path.split path) ∧
      ¬ s.tree.SameNodes s₁.tree ∧ s₁.tree.SameNodes s₂.tree := by
  intro path s s₁ s₂
  have hkeys : Seed.KeysAre Path.IsOrdinary [("x", .object [("y", .object [])])] :=
    Seed.keysAre_object (by decide) (Seed.keysAre_object (by decide) (Seed.keysAre_nil _))
  have hn : s.tree.NamesAre (· ≠ "") := (tidy_ofConfig hkeys).named
  have hplain : ¬ Path.Plain (Path.split path) := by decide
  have hmade : ¬ s.tree.SameNodes s₁.tree := by
    intro hsame
    have hplace := hsame [1]
    revert hplace
    decide +kernel
  have hlost : s₁.tree.parent? s.cwd (Path.split path) = none := by decide +kernel
  have hfirst : s.Provides s₁ [.directory] path .directory := provides_builtin rfl (by decide) s
  have hsecond : s₁.Provides s₂ [.directory] path .directory :=
    provides_builtin rfl (by decide) s₁
  have hsame := (hfirst.sameNodes_again_iff hsecond (by decide) hn hmade).mpr (.inr hlost)
  exact ⟨hn, hplain, hmade, hsame⟩

end Session

end TreeShell
