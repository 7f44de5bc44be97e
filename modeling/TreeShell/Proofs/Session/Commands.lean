import TreeShell.Proofs.Command.Chain
import TreeShell.Proofs.Command.Printing
import TreeShell.Proofs.Tree.Provide

/-!
# Lines that run a command of the shell

The first word of a line names the command, the others are its arguments. A command with a single
path does what it does at that path. What `touch`, `mkdir` and a redirect do to the nodes of the
tree is to provide one.
-/

namespace TreeShell

theorem Registry.find?_standard (b : Builtin) : standard.find? b.name = some b.spec := by
  cases b <;> rfl

theorem Registry.find?_standard_eq_some {name : String} {spec : Spec}
    (h : standard.find? name = some spec) : ∃ b : Builtin, spec = b.spec ∧ b.name = name := by
  obtain ⟨b, -, rfl⟩ := List.mem_map.mp (List.mem_of_find?_eq_some h)
  exact ⟨b, rfl, by simpa [Builtin.spec] using List.find?_some h⟩

def Outcome.andThen (o : Outcome) (next : Session → Outcome) : Outcome :=
  match o with
  | (s, .error failure) => (s, .error failure)
  | (s, .ok first) => ((next s).1, (next s).2.map first.combine)

theorem Builtin.name_ne (b : Builtin) : b.name ≠ "" := by cases b <;> decide

theorem Command.ofBody_of_tokens {body name : String} {args : List String}
    (h : Text.tokens body = name :: args) (redirect : Option Redirect) :
    ofBody redirect body = ⟨name, args, redirect, body⟩ := by
  rw [ofBody, h]

namespace Session

variable {s : Session}

def dispatchRecord (cmd : Command) : Log.Record :=
  .debug "interpreter" "Dispatching"
    [("command", Log.Detail.ofString cmd.name), ("args", .words cmd.args)]

theorem dispatch_builtin (s : Session) (b : Builtin) {cmd : Command} (h : cmd.name = b.name) :
    s.dispatch .standard cmd =
      settle cmd (b.run Registry.standard.listing (s.note (dispatchRecord cmd)) cmd) := by
  have hempty : ¬ cmd.isEmpty = true := by simpa [Command.isEmpty, h] using b.name_ne
  rw [dispatch, if_neg hempty, h, Registry.find?_standard, ← h]
  rfl

theorem execute_words (s : Session) (b : Builtin) {line : String} {args : List String}
    (hline : '>' ∉ line.toList) (hwords : Text.tokens line = b.name :: args) :
    s.execute .standard line =
      let cmd : Command := ⟨b.name, args, none, line⟩
      let o := settle cmd (b.run Registry.standard.listing (s.note (dispatchRecord cmd)) cmd)
      o.1.done o.2 := by
  have hparse := Command.parse_of_not_mem hline
  rw [Command.ofBody_of_tokens hwords] at hparse
  rw [execute_of_plain hparse rfl, dispatch_builtin s b rfl]

/-- A redirect behind a text without operators sends the output of that text to its target. -/
theorem execute_redirect {c t : String} (hc : '>' ∉ c.toList) (ht : Command.Word t)
    (mode : RedirectMode) (s : Session) (reg : Registry) :
    s.execute reg (c ++ " " ++ mode.operator ++ " " ++ t) =
      (s.execute reg (c ++ " ")).send ⟨mode, t⟩ := by
  have hparse := Command.parse_redirect hc (ht.target mode)
  rw [execute_of_redirect hparse (Command.redirect_ofBody _ _), Command.body_ofBody]

theorem each_singleton (one : Session → String → Outcome) (s : Session) (path : String) :
    s.each one [path] = one s path := by
  unfold each
  split
  · rename_i h
    exact h.symm
  · rename_i h
    simp [each, Except.map, h]

theorem each_cons (one : Session → String → Outcome) (s : Session) (path : String)
    (paths : List String) :
    s.each one (path :: paths) = (one s path).andThen fun s ↦ s.each one paths := by
  rw [each]
  rcases one s path with ⟨s', _ | first⟩ <;> rfl

theorem each_preserves {I : Session → Prop} {one : Session → String → Outcome}
    {paths : List String} (hone : ∀ s, ∀ path ∈ paths, I s → I (one s path).1) (h : I s) :
    I (s.each one paths).1 := by
  induction paths generalizing s with
  | nil => exact h
  | cons path paths ih =>
      have hfirst := hone s path (by simp) h
      unfold each
      split
      · rename_i hp
        rwa [hp] at hfirst
      · rename_i hp
        rw [hp] at hfirst
        exact ih (fun s p hmem ↦ hone s p (by simp [hmem])) hfirst

theorem each_keeps {α : Type} (f : Session → α) {one : Session → String → Outcome}
    (hone : ∀ s path, f (one s path).1 = f s) (s : Session) (paths : List String) :
    f (s.each one paths).1 = f s :=
  each_preserves (I := fun s' ↦ f s' = f s) (fun s' path _ h ↦ (hone s' path).trans h) rfl

theorem execute_argument (s : Session) (b : Builtin) {path : String} (hp : Command.Argument path) :
    s.execute .standard (b.name ++ " " ++ path) =
      let cmd : Command := ⟨b.name, [path], none, b.name ++ " " ++ path⟩
      let o := settle cmd (b.run Registry.standard.listing (s.note (dispatchRecord cmd)) cmd)
      o.1.done o.2 := by
  have hname : '>' ∉ b.name.toList ∧ Text.tokens b.name = [b.name] := by cases b <;> decide
  have hline : '>' ∉ (b.name ++ " " ++ path).toList := by simp [hname.1, hp.plain]
  have hwords : Text.tokens (b.name ++ " " ++ path) = [b.name, path] := by
    rw [Text.tokens_append_space, hname.2, hp.tokens]
    rfl
  exact execute_words s b hline hwords

theorem execute_at_path (s : Session) {b : Builtin} {one : Session → String → Outcome}
    (hrun : ∀ listing s cmd, b.run listing s cmd = s.each one cmd.args) {path : String}
    (hp : Command.Argument path) :
    s.execute .standard (b.name ++ " " ++ path) =
      let cmd : Command := ⟨b.name, [path], none, b.name ++ " " ++ path⟩
      let o := settle cmd (one (s.note (dispatchRecord cmd)) path)
      o.1.done o.2 := by
  rw [execute_argument s b hp]
  simp only [hrun, each_singleton]

@[simp] theorem tree_settle (cmd : Command) (o : Outcome) : (settle cmd o).1.tree = o.1.tree := by
  unfold settle
  split <;> rfl

@[simp] theorem cwd_settle (cmd : Command) (o : Outcome) : (settle cmd o).1.cwd = o.1.cwd := by
  unfold settle
  split <;> rfl

/-! ## Providing a node -/

/-- The nodes of a tree are as if one had been provided, and the directory stays the same. -/
structure Provides (s s' : Session) (found : List Kind) (path : String) (kind : Kind) : Prop where
  cwd : s'.cwd = s.cwd
  nodes : (s.tree.provide found s.cwd (Path.split path) kind).SameNodes s'.tree

variable {found : List Kind} {kind : Kind} {path : String}

theorem provides_of_resolve {k : Kind} (hk : k ∈ found)
    (h : (s.tree.resolvePath s.cwd path (some k)).isSome = true) {s' : Session}
    (hcwd : s'.cwd = s.cwd) (htree : s.tree.SameNodes s'.tree) :
    s.Provides s' found path kind where
  cwd := hcwd
  nodes := by rwa [Tree.provide_of_resolve hk h]

theorem provides_make (h : ∀ k ∈ found, s.tree.resolvePath s.cwd path (some k) = none) :
    s.Provides (s.make (Path.split path) kind).1 found path kind := by
  unfold make create
  cases hc : s.tree.create s.cwd (Path.split path) kind with
  | ok made =>
      obtain ⟨t, place⟩ := made
      exact ⟨rfl, by rw [Tree.provide_of_create h hc]; exact .refl t⟩
  | error e =>
      have hsame : s.tree.provide found s.cwd (Path.split path) kind = s.tree :=
        Tree.provide_of_error hc
      cases e <;> exact ⟨rfl, by rw [hsame]; exact .refl _⟩

theorem provides_touchOne (s : Session) (path : String) :
    s.Provides (s.touchOne path).1 [.text] path .text := by
  unfold touchOne
  split
  · rename_i h
    exact provides_make (by simpa using h)
  · rename_i place h
    have hfound : (s.tree.resolvePath s.cwd path (some .text)).isSome = true := by rw [h]; rfl
    split
    · exact provides_of_resolve (by simp) hfound rfl (.refl _)
    · exact provides_of_resolve (by simp) hfound rfl (Tree.sameNodes_touch _ _)

theorem provides_mkdirOne (s : Session) (path : String) :
    s.Provides (s.mkdirOne path).1 [.directory] path .directory := by
  unfold mkdirOne
  split
  · rename_i place h
    exact provides_of_resolve (k := .directory) (by simp) (by rw [h]; rfl) rfl (.refl _)
  · rename_i h
    exact provides_make (by simpa using h)

theorem provides_redirectTarget (s : Session) (target : String) :
    s.Provides (s.redirectTarget target).1 [.text, .directory] target .text := by
  unfold redirectTarget
  split
  · rename_i place h
    exact provides_of_resolve (k := .text) (by simp) (by rw [h]; rfl) rfl (.refl _)
  · rename_i h
    split
    · rename_i hd
      exact provides_of_resolve (k := .directory) (by simp) hd rfl (.refl _)
    · rename_i hd
      have hnone : ∀ k ∈ [Kind.text, .directory],
          s.tree.resolvePath s.cwd target (some k) = none := by
        simpa [h] using hd
      have hmake : s.Provides (s.make (Path.split target) .text).1 _ target .text :=
        provides_make hnone
      unfold make at hmake
      cases hc : s.create s.cwd (Path.split target) .text with
      | ok made =>
          rw [hc] at hmake
          exact hmake
      | error e =>
          rw [hc] at hmake
          cases e with
          | shell e => exact ⟨rfl, hmake.nodes⟩
          | _ => exact hmake

theorem provides_redirect (s : Session) (r : Redirect) (inner : Result Place) :
    s.Provides (s.redirect r inner).1 [.text, .directory] r.target .text := by
  have htarget := provides_redirectTarget s r.target
  unfold redirect
  split
  · rename_i s' place h
    rw [h] at htarget
    cases r.mode with
    | truncate => exact ⟨htarget.cwd, htarget.nodes.trans (Tree.sameNodes_write _ _ _)⟩
    | append => exact ⟨htarget.cwd, htarget.nodes.trans (Tree.sameNodes_append _ _ _)⟩
  · rename_i h
    rwa [h] at htarget
  · rename_i h
    rwa [h] at htarget

theorem provides_at_path {b : Builtin} {one : Session → String → Outcome}
    (hrun : ∀ listing s cmd, b.run listing s cmd = s.each one cmd.args)
    (hone : ∀ s path, Provides s (one s path).1 found path kind) (hp : Command.Argument path)
    (s : Session) : s.Provides (s.execute .standard (b.name ++ " " ++ path)).1 found path kind := by
  rw [execute_at_path s hrun hp]
  refine ⟨?_, ?_⟩
  · exact (cwd_settle _ _).trans (hone _ path).cwd
  · rw [done, tree_settle]
    exact (hone (s.note _) path).nodes

end Session

end TreeShell
