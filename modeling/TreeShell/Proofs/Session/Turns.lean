import TreeShell.Proofs.Session.Growth

/-!
# Redirects in turn

A line with redirects runs what is left without them once. After that each target has its turn, the
innermost first. The innermost target gets what the command put out and every outer one gets
nothing, which empties it or leaves it as it is. A target that fails is skipped.
-/

namespace TreeShell

def RedirectMode.contents (mode : RedirectMode) (old lines : List Line) : List Line :=
  match mode with
  | truncate => lines
  | append => old ++ lines

namespace Tree

/-- The text file at a path, which is made if the path leads nowhere. -/
def target (t : Tree) (cwd : Place) (path : String) : Except ShellError (Tree × Place) :=
  match t.resolvePath cwd path (some .text), t.resolvePath cwd path (some .directory) with
  | some place, _ =>
      if t.isDirectory place then .error (.isDirectory path "bash") else .ok (t, place)
  | none, some _ => .error (.isDirectory path "bash")
  | none, none =>
      match t.create cwd (Path.split path) .text with
      | .ok made => .ok made
      | .error _ => .error (.noSuchFile path "bash")

def turn (t : Tree) (cwd : Place) (r : Redirect) (lines : List Line) :
    Tree × Except ShellError Place :=
  match t.target cwd r.target with
  | .error e => (t, .error e)
  | .ok (t, place) =>
      (t.write place (r.mode.contents ((t.lines? place).getD []) lines), .ok place)

/-- All turns, the innermost first. Only that one has lines to write. -/
def turns (t : Tree) (cwd : Place) (lines : List Line) :
    List Redirect → Tree × List (Except ShellError Place)
  | [] => (t, [])
  | r :: rs =>
      let (t, first) := t.turn cwd r lines
      let (t, others) := t.turns cwd [] rs
      (t, first :: others)

@[simp] theorem turns_nil (t : Tree) (cwd : Place) (lines : List Line) :
    t.turns cwd lines [] = (t, []) := rfl

theorem turns_cons (t : Tree) (cwd : Place) (lines : List Line) (r : Redirect)
    (rs : List Redirect) :
    t.turns cwd lines (r :: rs) =
      (((t.turn cwd r lines).1.turns cwd [] rs).1,
        (t.turn cwd r lines).2 :: ((t.turn cwd r lines).1.turns cwd [] rs).2) := rfl

end Tree

def failedTurns (turns : List (Except ShellError Place)) : List ShellError :=
  turns.filterMap fun turn ↦
    match turn with
    | .ok _ => none
    | .error e => some e

/-- The result of a command whose output went through turns, the innermost first: no output, the
error of the outermost turn that failed or else the errors of the command, and the file of the
outermost turn. -/
def Result.after (inner : Result Place) (turns : List (Except ShellError Place)) :
    Result Place where
  out := if turns = [] then inner.out else []
  err := (failedTurns turns).getLast?.elim inner.err fun e ↦ [.text e.line]
  data := turns.getLast?.elim inner.data Except.toOption

@[simp] theorem Result.after_nil (inner : Result Place) : inner.after [] = inner := rfl

theorem Result.after_cons (inner : Result Place) (turn : Except ShellError Place)
    (turns : List (Except ShellError Place)) :
    inner.after (turn :: turns) = (inner.after [turn]).after turns := by
  have herr : (failedTurns (turn :: turns)).getLast? =
      (failedTurns turns).getLast?.or (failedTurns [turn]).getLast? := by
    rw [← List.singleton_append, failedTurns, List.filterMap_append, List.getLast?_append]
    rfl
  have hdata : (turn :: turns).getLast? = turns.getLast?.or [turn].getLast? := by
    rw [← List.singleton_append, List.getLast?_append]
  simp only [after, herr, hdata]
  congr 1
  · by_cases h : turns = [] <;> simp [h]
  · cases (failedTurns turns).getLast? <;> rfl
  · cases turns.getLast? <;> rfl

/-! ## One turn -/

namespace Tree

variable {t t' : Tree} {cwd place : Place}

theorem append_eq_write (t : Tree) (place : Place) (lines : List Line) :
    t.append place lines = t.write place ((t.lines? place).getD [] ++ lines) := by
  unfold append write modify
  rw [Node.modify_congr]
  intro m hm
  cases m with
  | directory name cs => rfl
  | file name old stamp =>
      have hold : t.lines? place = some old := by
        rw [lines?, Tree.at?, hm]
        rfl
      rw [hold]
      rfl

theorem create_outside (hcwd : ¬ t.isDirectory cwd = true) {path : String}
    (hslash : Path.separator ∈ path.toList) (kind : Kind) :
    ∃ e, t.create cwd (Path.split path) kind = .error (.shell e) := by
  have habove : (Path.split path).dropLast ≠ [] :=
    fun h ↦ Path.dropLast_split_eq_nil_iff.mp h hslash
  have hparent : t.parent? cwd (Path.split path) = none := by
    rw [parent?_eq_resolve, resolve_of_not_isDirectory hcwd habove]
  refine ⟨.directoryNotFound (Path.join (Path.split path).dropLast), ?_⟩
  rw [create, hparent]
  rfl

/-- In a directory, and with a slash in any place, only an error of the shell keeps a node from
being made. -/
theorem create_eq_error {path : String} {kind : Kind} {failure : Failure}
    (hcwd : t.isDirectory cwd = true ∨ Path.separator ∈ path.toList)
    (h : t.create cwd (Path.split path) kind = .error failure) : ∃ e, failure = .shell e := by
  by_cases hin : t.isDirectory cwd = true
  · have hrefusal := (create_eq_error_iff hin).mp h
    cases hrefusal <;> exact ⟨_, rfl⟩
  · obtain ⟨e, he⟩ := create_outside hin (hcwd.resolve_left hin) kind
    exact ⟨e, Except.error.inj (h.symm.trans he)⟩

theorem isDirectory_turn (hcwd : t.isDirectory cwd = true) (r : Redirect) (lines : List Line) :
    (t.turn cwd r lines).1.isDirectory cwd = true := by
  unfold turn target
  split
  · exact hcwd
  · rename_i u place h
    rw [(sameNodes_write u place _).isDirectory]
    split at h
    · split at h
      · cases h
      · cases h
        exact hcwd
    · cases h
    · split at h
      · rename_i made hc
        cases h
        exact (grows_create (M := fun _ ↦ True) hc).isDirectory hcwd
      · cases h

theorem target_eq_ok {path : String} (h : t.target cwd path = .ok (t', place)) :
    (t' = t ∧ t.resolvePath cwd path (some .text) = some place ∧
        ¬ t.isDirectory place = true) ∨
      (t.resolvePath cwd path (some .text) = none ∧
        t.create cwd (Path.split path) .text = .ok (t', place)) := by
  unfold target at h
  split at h
  · rename_i q _ htext
    split_ifs at h with hd
    cases h
    exact .inl ⟨rfl, htext, hd⟩
  · cases h
  · rename_i htext _
    split at h
    · rename_i made hc
      cases h
      exact .inr ⟨htext, hc⟩
    · cases h

theorem turn_outside (hcwd : ¬ t.isDirectory cwd = true) (r : Redirect) (lines : List Line) :
    (t.turn cwd r lines).1 = t := by
  unfold turn
  split
  · rfl
  · rename_i htarget
    rcases target_eq_ok htarget with ⟨-, htext, -⟩ | ⟨-, hc⟩
    · rw [resolvePath, resolve_of_not_isDirectory hcwd (Path.split_ne_nil r.target)] at htext
      cases htext
    · exact absurd (isDirectory_of_create hc) hcwd

theorem turns_outside (hcwd : ¬ t.isDirectory cwd = true) (rs : List Redirect)
    (lines : List Line) : (t.turns cwd lines rs).1 = t := by
  induction rs generalizing lines with
  | nil => rfl
  | cons r rs ih => rw [turns_cons, turn_outside hcwd, ih]

theorem lines?_of_target {path : String} (h : t.target cwd path = .ok (t', place)) :
    t'.lines? place = some ((t.lines? place).getD []) := by
  rcases target_eq_ok h with ⟨rfl, htext, hfile⟩ | ⟨-, hc⟩
  · obtain ⟨sig, hsig⟩ := signature?_of_resolve (Path.split_ne_nil path) htext
    obtain ⟨lines, hlines⟩ := lines?_of_signature? hsig hfile
    rw [hlines]
    rfl
  · obtain ⟨hold, hnew⟩ := lines?_of_create hc
    rw [hold, hnew]
    rfl

theorem lines?_turn {r : Redirect} {lines : List Line} (h : (t.turn cwd r lines).2 = .ok place) :
    (t.turn cwd r lines).1.lines? place =
      some (r.mode.contents ((t.lines? place).getD []) lines) := by
  unfold turn at h ⊢
  split at h
  · cases h
  · rename_i u q htarget
    cases h
    rw [lines?_write_self, lines?_of_target htarget]
    rfl

end Tree

namespace Session

def written (s : Session) (tree : Tree) (records : List Log.Record) : Session :=
  { s with tree, log := s.log ++ records }

@[simp] theorem written_self (s : Session) : s.written s.tree [] = s := by simp [written]

@[simp] theorem written_written (s : Session) (t t' : Tree) (records records' : List Log.Record) :
    (s.written t records).written t' records' = s.written t' (records ++ records') := by
  simp [written]

variable {s : Session}

theorem redirectTarget_eq_target {path : String}
    (hcwd : s.tree.isDirectory s.cwd = true ∨ Path.separator ∈ path.toList) :
    ∃ records, s.redirectTarget path =
      match s.tree.target s.cwd path with
      | .ok (t, place) => (s.written t records, .ok place)
      | .error e => (s.written s.tree records, .error (.shell e)) := by
  unfold redirectTarget Tree.target
  cases htext : s.tree.resolvePath s.cwd path (some .text) with
  | some place =>
      refine ⟨[], ?_⟩
      dsimp only
      split_ifs <;> simp
  | none =>
      cases hdir : s.tree.resolvePath s.cwd path (some .directory) with
      | some place => exact ⟨[], by simp⟩
      | none =>
          cases hc : s.tree.create s.cwd (Path.split path) .text with
          | ok made =>
              obtain ⟨t, place⟩ := made
              exact ⟨[createdRecord (t.path place) .text], by simp [create, hc, note, written]⟩
          | error failure =>
              obtain ⟨e, rfl⟩ := Tree.create_eq_error hcwd hc
              exact ⟨_, by simp only [create, hc]; rfl⟩

theorem send_eq_turn {r : Redirect}
    (hcwd : s.tree.isDirectory s.cwd = true ∨ Path.separator ∈ r.target.toList)
    (inner : Result Place) :
    ∃ records, Outcome.send r (s.done inner) =
      (s.written (s.tree.turn s.cwd r inner.out).1 records).done
        (inner.after [(s.tree.turn s.cwd r inner.out).2]) := by
  obtain ⟨records, htarget⟩ := redirectTarget_eq_target hcwd
  refine ⟨records, ?_⟩
  change s.redirect r inner = _
  unfold redirect Tree.turn
  rw [htarget]
  cases s.tree.target s.cwd r.target with
  | error e => rfl
  | ok found =>
      obtain ⟨t, place⟩ := found
      cases hm : r.mode with
      | truncate => rfl
      | append =>
          simp only [deliver, Tree.append_eq_write]
          rfl

theorem foldl_send_eq_turns {rs : List Redirect}
    (hcwd : ∀ r ∈ rs, s.tree.isDirectory s.cwd = true ∨ Path.separator ∈ r.target.toList)
    (inner : Result Place) :
    ∃ records, rs.foldl (fun o r ↦ Outcome.send r o) (s.done inner) =
      (s.written (s.tree.turns s.cwd inner.out rs).1 records).done
        (inner.after (s.tree.turns s.cwd inner.out rs).2) := by
  induction rs generalizing s inner with
  | nil => exact ⟨[], by simp⟩
  | cons r rs ih =>
      obtain ⟨hr, hrs⟩ := List.forall_mem_cons.mp hcwd
      obtain ⟨first, hfirst⟩ := send_eq_turn hr inner
      -- The other targets are looked up from the same place in the tree after this turn.
      have hrs' (r' : Redirect) (hr' : r' ∈ rs) :=
        (hrs r' hr').imp_left fun h ↦ Tree.isDirectory_turn h r inner.out
      obtain ⟨others, hothers⟩ := @ih (s.written (s.tree.turn s.cwd r inner.out).1 first) hrs'
        (inner.after [(s.tree.turn s.cwd r inner.out).2])
      have hafter := Result.after_cons inner (s.tree.turn s.cwd r inner.out).2
        ((s.tree.turn s.cwd r inner.out).1.turns s.cwd [] rs).2
      refine ⟨first ++ others, ?_⟩
      rw [List.foldl_cons, hfirst, hothers, written_written, Tree.turns_cons, hafter]
      rfl

theorem foldr_send_eq_turns {rs : List Redirect}
    (hcwd : ∀ r ∈ rs, s.tree.isDirectory s.cwd = true ∨ Path.separator ∈ r.target.toList)
    (inner : Result Place) :
    ∃ records, rs.foldr (fun r o ↦ o.send r) (s.done inner) =
      (s.written (s.tree.turns s.cwd inner.out rs.reverse).1 records).done
        (inner.after (s.tree.turns s.cwd inner.out rs.reverse).2) := by
  rw [← List.foldl_reverse]
  exact foldl_send_eq_turns (fun r hr ↦ hcwd r (List.mem_reverse.mp hr)) inner

/-! ## A whole line -/

/-- A line without a redirect is run: it is refused for want of a target, or dispatched. -/
inductive RunsPlain (s : Session) (line : String) : Session → Result Place → Prop
  | refused (e : ShellError) (h : Command.parse line = .error e) :
      RunsPlain s line (s.note (noTargetRecord line)) (.ofError e.line)
  | dispatched (cmd : Command) (h : Command.parse line = .ok cmd) (hr : cmd.redirect = none) :
      RunsPlain s line (s.dispatch .standard cmd).1 (s.dispatch .standard cmd).2

theorem runsPlain_unwrap (s : Session) (line : String) :
    ∃ after inner, s.RunsPlain (Command.unwrap line).2 after inner ∧
      s.execute .standard (Command.unwrap line).2 = after.done inner := by
  rcases Command.parse_unwrap_snd line with ⟨e, he⟩ | ⟨cmd, hcmd, hr⟩
  · exact ⟨_, _, .refused e he, execute_of_error he⟩
  · exact ⟨_, _, .dispatched cmd hcmd hr, execute_of_plain hcmd hr⟩

theorem RunsPlain.isDirectory {line : String} {after : Session} {inner : Result Place}
    (h : s.RunsPlain line after inner) (hcwd : s.tree.isDirectory s.cwd = true) :
    after.tree.isDirectory after.cwd = true := by
  cases h with
  | refused => exact hcwd
  | dispatched cmd => exact inDirectory_dispatch Registry.standard_ofBuiltins cmd hcwd

theorem RunsPlain.out_after {line : String} {after : Session} {inner : Result Place}
    (h : s.RunsPlain (Command.unwrap line).2 after inner) (hline : '>' ∈ line.toList)
    (t : Tree) (cwd : Place) :
    (inner.after (t.turns cwd inner.out (Command.unwrap line).1.reverse).2).out = [] := by
  by_cases hrs : (Command.unwrap line).1 = []
  · have hsnd := Command.unwrap_snd_of_fst_eq_nil hrs
    rw [hrs, List.reverse_nil, Tree.turns_nil, Result.after_nil]
    cases h with
    | refused => rfl
    | dispatched cmd hcmd hr =>
        rw [hsnd] at hcmd
        exact absurd hline (Command.not_mem_of_parse hcmd hr)
  · obtain ⟨r, rs, hcons⟩ := List.exists_cons_of_ne_nil (List.reverse_ne_nil_iff.mpr hrs)
    rw [hcons, Tree.turns_cons]
    rfl

/-- What a line with redirects does: what is left without them is run once, then each target has its
turn in the directory that the session is in by then, the innermost first. Nothing else changes but
the log. The line puts out nothing. A session is in a directory as long as it is moved to
directories only (`inDirectory_run`). -/
theorem execute_eq_turns (s : Session) (hcwd : s.tree.isDirectory s.cwd = true) (line : String)
    (hline : '>' ∈ line.toList) :
    ∃ after inner records, s.RunsPlain (Command.unwrap line).2 after inner ∧
      let turns := after.tree.turns after.cwd inner.out (Command.unwrap line).1.reverse
      s.execute .standard line = (after.written turns.1 records, .ok (inner.after turns.2)) ∧
        (inner.after turns.2).out = [] := by
  obtain ⟨after, inner, hruns, hexec⟩ := runsPlain_unwrap s line
  obtain ⟨records, hturns⟩ := @foldr_send_eq_turns after (Command.unwrap line).1
    (fun _ _ ↦ .inl (hruns.isDirectory hcwd)) inner
  refine ⟨after, inner, records, hruns, ?_, ?_⟩
  · rw [execute_eq_foldr, hexec]
    exact hturns
  · exact hruns.out_after hline after.tree after.cwd

/-- The turns of a line with two redirects in a session that has just started. -/
theorem echo_takes_turns :
    let s := ofTree {} {}
    let line := "echo hi > a > b"
    s.tree.isDirectory s.cwd = true ∧ '>' ∈ line.toList ∧
      ∃ after inner records, s.RunsPlain (Command.unwrap line).2 after inner ∧
        let turns := after.tree.turns after.cwd inner.out (Command.unwrap line).1.reverse
        s.execute .standard line = (after.written turns.1 records, .ok (inner.after turns.2)) ∧
          (inner.after turns.2).out = [] := by
  have hoperator : '>' ∈ "echo hi > a > b".toList := by decide
  exact ⟨rfl, hoperator, execute_eq_turns (ofTree {} {}) rfl "echo hi > a > b" hoperator⟩

/-- The target that stands last is the innermost: it is made first and gets the output. -/
example :
    let t := ((ofTree {} {}).execute .standard "echo hi > a > b").1.tree
    t.signatures [] = [("b", .text), ("a", .text)] ∧
      t.lines? [0] = some [.text "hi"] ∧ t.lines? [1] = some [] := by
  decide +kernel

end Session

end TreeShell
