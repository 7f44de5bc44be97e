import TreeShell.Proofs.Session.Turns
import TreeShell.Proofs.Tree.Contents

/-!
# What was written is read

A file that a redirect has written can be shadowed by a directory only.
-/

namespace TreeShell

/-!
## A file and a directory of one name

A path that asks for no kind leads to the last child with its name. If that is a directory behind
the text file that a path for text files leads to, the directory stands in front of the file.
-/

/-- The last element with one of two properties is the later of the last ones with each. -/
theorem lastIndex?_or {α : Type} (p q : α → Bool) (as : List α) :
    lastIndex? (fun a ↦ p a || q a) as = (lastIndex? p as).merge max (lastIndex? q as) := by
  induction as with
  | nil => rfl
  | cons a as ih =>
      simp only [lastIndex?, ih]
      by_cases hp : p a = true <;> by_cases hq : q a = true <;>
        cases lastIndex? p as <;> cases lastIndex? q as <;>
          simp [hp, hq, Nat.add_max_add_right]

theorem answers_none_eq (name : String) :
    answers name none = fun sig ↦
      answers name (some .text) sig || answers name (some .directory) sig := by
  funext sig
  obtain ⟨other, kind⟩ := sig
  cases kind <;> simp [answers]

namespace Tree

variable {t : Tree} {start place : Place} {segments : List String}

/-- Behind the text file at a place there is a directory of its name. -/
def Shadowed (t : Tree) (place : Place) : Prop :=
  ∃ above i j name, place = above ++ [i] ∧ i < j ∧ t.signature? place = some (name, .text) ∧
    t.signature? (above ++ [j]) = some (name, .directory)

theorem shadowed_iff {above : Place} {i : Nat} {name : String}
    (h : t.signature? (above ++ [i]) = some (name, .text)) :
    t.Shadowed (above ++ [i]) ↔
      ∃ j, i < j ∧ (t.signatures above)[j]? = some (name, .directory) := by
  constructor
  · rintro ⟨above', i', j, name', hplace, hij, hname, hdir⟩
    obtain ⟨rfl, hi⟩ := List.append_inj' hplace rfl
    cases hi
    rw [h] at hname
    cases hname
    exact ⟨j, hij, by rw [getElem?_signatures, hdir]⟩
  · rintro ⟨j, hij, hdir⟩
    rw [getElem?_signatures] at hdir
    exact ⟨above, i, j, name, rfl, hij, h, hdir⟩

theorem child?_none_of_child?_text {above : Place} {name : String}
    (h : t.child? above name (some .text) = some place) :
    (¬ t.Shadowed place → t.child? above name none = some place) ∧
      (t.Shadowed place → ∃ q, t.child? above name none = some q ∧ t.isDirectory q = true) := by
  rw [child?_eq, Option.map_eq_some_iff] at h
  obtain ⟨i, hi, rfl⟩ := h
  obtain ⟨sig, hsig, ha⟩ := getElem?_of_lastIndex? hi
  obtain rfl := answers_some_iff.mp ha
  rw [getElem?_signatures] at hsig
  rw [shadowed_iff hsig, child?_eq, answers_none_eq, lastIndex?_or, hi]
  cases hk : lastIndex? (answers name (some .directory)) (t.signatures above) with
  | none =>
      refine ⟨fun _ ↦ rfl, ?_⟩
      rintro ⟨j, -, hdir⟩
      have hno := lastIndex?_eq_none_iff.mp hk _ (List.mem_of_getElem? hdir)
      rw [answers_some_iff.mpr rfl] at hno
      cases hno
  | some k =>
      obtain ⟨dir, hdir, hd⟩ := getElem?_of_lastIndex? hk
      obtain rfl := answers_some_iff.mp hd
      rw [Option.merge_some_some, Option.map_some]
      constructor
      · intro hfree
        have hki : k ≤ i := Nat.le_of_not_lt fun hik ↦ hfree ⟨k, hik, hdir⟩
        rw [Nat.max_eq_left hki]
      · rintro ⟨j, hij, hother⟩
        have hjk : j ≤ k := le_of_lastIndex? hk hother (answers_some_iff.mpr rfl)
        rw [getElem?_signatures] at hdir
        rw [Nat.max_eq_right (Nat.le_trans (Nat.le_of_lt hij) hjk)]
        exact ⟨above ++ [k], rfl, isDirectory_iff.mpr ⟨name, hdir⟩⟩

/-- A plain path that leads to a text file leads there also if no kind is asked for, unless a
directory of the same name stands in front. -/
theorem resolve_none_of_resolve_text (hne : segments ≠ []) (hplain : Path.Plain segments)
    (h : t.resolve start segments (some .text) = some place)
    (hfile : ¬ t.isDirectory place = true) :
    (¬ t.Shadowed place → t.resolve start segments none = some place) ∧
      (t.Shadowed place →
        ∃ q, t.resolve start segments none = some q ∧ t.isDirectory q = true) := by
  rw [resolve_eq_bind_parent? hne hplain] at h ⊢
  obtain ⟨parent, hp, hlast⟩ := Option.bind_eq_some_iff.mp h
  rw [hp, Option.bind_some, resolve_singleton]
  rw [resolve_singleton] at hlast
  split_ifs at hlast with hd
  rw [if_pos hd]
  unfold lastHop hop at hlast ⊢
  rw [if_neg (by simp)] at hlast ⊢
  split_ifs at hlast ⊢
  · cases hlast
    exact absurd hd hfile
  · cases hlast
    exact absurd (isDirectory_dropLast hd) hfile
  · cases hlast
    exact absurd (isDirectory_nil t) hfile
  · exact child?_none_of_child?_text hlast

end Tree

/-!
## Reading back what was written

After a redirect `cat` finds the target again if its path is plain. It finds the file that was
written, unless a directory of the same name was made behind it. That directory then stands in
front of the file, since `cat` asks for no kind.
-/

namespace Tree

variable {t t' : Tree} {cwd place : Place} {path : String}

theorem resolve_of_target (hplain : Path.Plain (Path.split path))
    (h : t.target cwd path = .ok (t', place)) :
    t'.resolvePath cwd path (some .text) = some place := by
  rcases target_eq_ok h with ⟨rfl, htext, -⟩ | ⟨htext, hc⟩
  · exact htext
  · exact resolve_of_create (Path.split_ne_nil path) hplain htext hc

theorem resolve_of_turn {r : Redirect} {lines : List Line}
    (hplain : Path.Plain (Path.split r.target)) (h : (t.turn cwd r lines).2 = .ok place) :
    (t.turn cwd r lines).1.resolvePath cwd r.target (some .text) = some place := by
  unfold turn at h ⊢
  split at h
  · cases h
  · rename_i u q htarget
    cases h
    rw [resolvePath, (sameNodes_write u _ _).resolve]
    exact resolve_of_target hplain htarget

end Tree

def Outcome.result? (o : Outcome) : Option (Result Place) :=
  match o.2 with
  | .ok r => some r
  | .error _ => none

def Outcome.data? (o : Outcome) : Option Place := o.result?.bind Result.data

theorem Builtin.run_congr {cmd cmd' : Command} (h : cmd.args = cmd'.args) (b : Builtin)
    (listing : List String) (s : Session) : b.run listing s cmd = b.run listing s cmd' := by
  cases b <;> simp only [Builtin.run, h]

namespace Session

variable {s : Session}

theorem settle_congr (cmd cmd' : Command) (h : cmd.name = cmd'.name) (o : Outcome) :
    (settle cmd o).2 = (settle cmd' o).2 := by
  unfold settle
  split <;> simp [h]

theorem dispatch_congr {cmd cmd' : Command} (hname : cmd.name = cmd'.name)
    (hargs : cmd.args = cmd'.args) (s : Session) :
    (s.dispatch .standard cmd).1.tree = (s.dispatch .standard cmd').1.tree ∧
      (s.dispatch .standard cmd).1.cwd = (s.dispatch .standard cmd').1.cwd ∧
      (s.dispatch .standard cmd).2 = (s.dispatch .standard cmd').2 := by
  unfold dispatch Command.isEmpty
  rw [hname, hargs]
  split
  · exact ⟨rfl, rfl, rfl⟩
  · split
    · exact ⟨rfl, rfl, rfl⟩
    · rename_i spec hspec
      obtain ⟨b, rfl, -⟩ := Registry.find?_standard_eq_some hspec
      have hrun (s : Session) : (Builtin.spec b).action.run Registry.standard.listing s cmd =
          (Builtin.spec b).action.run Registry.standard.listing s cmd' :=
        b.run_congr hargs _ s
      simp only [hrun, tree_settle, cwd_settle]
      exact ⟨trivial, trivial, settle_congr cmd cmd' hname _⟩

theorem execute_append_space {c : String} (hc : '>' ∉ c.toList) (s : Session) :
    (s.execute .standard (c ++ " ")).1.tree = (s.execute .standard c).1.tree ∧
      (s.execute .standard (c ++ " ")).1.cwd = (s.execute .standard c).1.cwd ∧
      (s.execute .standard (c ++ " ")).2 = (s.execute .standard c).2 := by
  have hc' : '>' ∉ (c ++ " ").toList := by simp [hc]
  have hsame : (Command.ofBody none (c ++ " ")).name = (Command.ofBody none c).name ∧
      (Command.ofBody none (c ++ " ")).args = (Command.ofBody none c).args := by
    unfold Command.ofBody
    rw [Text.tokens_append_single_space]
    split <;> exact ⟨rfl, rfl⟩
  rw [execute_of_plain (Command.parse_of_not_mem hc') (Command.redirect_ofBody _ _),
    execute_of_plain (Command.parse_of_not_mem hc) (Command.redirect_ofBody _ _)]
  obtain ⟨htree, hcwd, hresult⟩ := dispatch_congr hsame.1 hsame.2 s
  exact ⟨htree, hcwd, congrArg Except.ok hresult⟩

theorem exists_result_of_not_mem {c : String} (hc : '>' ∉ c.toList) (s : Session) :
    ∃ alone, (s.execute .standard c).2 = .ok alone := by
  rw [execute_of_plain (Command.parse_of_not_mem hc) (Command.redirect_ofBody _ _)]
  exact ⟨_, rfl⟩

theorem execute_eq_redirect {c t : String} (hc : '>' ∉ c.toList) (ht : Command.Word t)
    (mode : RedirectMode) {alone : Result Place} (h : (s.execute .standard c).2 = .ok alone) :
    s.execute .standard (c ++ " " ++ mode.operator ++ " " ++ t) =
      (s.execute .standard (c ++ " ")).1.redirect ⟨mode, t⟩ alone := by
  have hresult := (execute_append_space hc s).2.2
  rw [h] at hresult
  rw [execute_redirect hc ht]
  generalize s.execute .standard (c ++ " ") = o at hresult
  obtain ⟨s', result⟩ := o
  cases hresult
  rfl

theorem run_cat (listing : List String) (s : Session) (cmd : Command) :
    Builtin.cat.run listing s cmd = s.each catOne cmd.args := rfl

theorem cat_file {path : String} (hp : Command.Word path) {place : Place} {lines : List Line}
    (h : s.tree.resolvePath s.cwd path none = some place)
    (hlines : s.tree.lines? place = some lines) :
    (s.execute .standard (Builtin.cat.name ++ " " ++ path)).2 = .ok { out := lines } := by
  rw [execute_at_path s run_cat hp.argument]
  obtain ⟨m, hm, hml⟩ := Option.bind_eq_some_iff.mp hlines
  cases m with
  | directory name cs => cases hml
  | file name old stamp =>
      cases hml
      have hone (r : Log.Record) : catOne (s.note r) path = (s.note r).done { out := lines } := by
        simp only [catOne, note, h, hm]
      simp only [hone]
      rfl

theorem cat_directory {path : String} (hp : Command.Word path) {place : Place}
    (h : s.tree.resolvePath s.cwd path none = some place)
    (hd : s.tree.isDirectory place = true) :
    ∃ name, (s.execute .standard (Builtin.cat.name ++ " " ++ path)).2 =
      .ok (.ofError (ShellError.isDirectory name "cat").line) := by
  rw [execute_at_path s run_cat hp.argument]
  unfold Tree.isDirectory at hd
  cases hm : s.tree.at? place with
  | none => simp [hm] at hd
  | some m =>
      cases m with
      | file name old stamp => simp [hm, Node.isDirectory] at hd
      | directory name cs =>
          have hone (r : Log.Record) : catOne (s.note r) path = (s.note r).done
              (.ofError (ShellError.isDirectory (s.directoryName place name) "cat").line) := by
            simp only [catOne, note, h, hm]
            rfl
          refine ⟨s.directoryName place name, ?_⟩
          simp only [hone]
          rfl

theorem isDirectory_of_redirect {r : Redirect} {inner : Result Place} {place : Place}
    (h : (s.redirect r inner).data? = some place) : s.tree.isDirectory s.cwd = true := by
  by_contra hcwd
  have hnone (kind : Kind) : s.tree.resolvePath s.cwd r.target (some kind) = none :=
    Tree.resolve_of_not_isDirectory hcwd (Path.split_ne_nil r.target)
  unfold redirect redirectTarget at h
  rw [hnone, hnone] at h
  cases hc : s.create s.cwd (Path.split r.target) .text with
  | ok made =>
      obtain ⟨t, ht, -⟩ := create_eq_ok_iff.mp hc
      exact hcwd (Tree.isDirectory_of_create ht)
  | error failure =>
      rw [hc] at h
      cases failure <;> cases h

theorem turn_of_redirect {r : Redirect} {inner : Result Place} {place : Place}
    (h : (s.redirect r inner).data? = some place) :
    (s.tree.turn s.cwd r inner.out).2 = .ok place ∧
      (s.redirect r inner).1.tree = (s.tree.turn s.cwd r inner.out).1 ∧
      (s.redirect r inner).1.cwd = s.cwd := by
  obtain ⟨records, hsend⟩ := send_eq_turn (.inl (isDirectory_of_redirect h)) inner
  change s.redirect r inner = _ at hsend
  rw [hsend] at h ⊢
  refine ⟨?_, rfl, rfl⟩
  cases hturn : (s.tree.turn s.cwd r inner.out).2 with
  | error e =>
      rw [hturn] at h
      cases h
  | ok q =>
      rw [hturn] at h
      cases h
      rfl

/-- A command whose output was sent to a plain path: `cat` puts out what the command puts out alone,
behind the lines that the file had before if the redirect appends, and no error. If a directory of
the same name stands in front of the file, `cat` only refuses that directory. -/
theorem cat_reads_redirected (s : Session) {c t : String} (hc : '>' ∉ c.toList)
    (ht : Command.Word t) (hplain : Path.Plain (Path.split t)) (mode : RedirectMode)
    {place : Place}
    (hdone : (s.execute .standard (c ++ " " ++ mode.operator ++ " " ++ t)).data? = some place) :
    let after := (s.execute .standard (c ++ " " ++ mode.operator ++ " " ++ t)).1
    let read := (after.execute .standard (Builtin.cat.name ++ " " ++ t)).2
    ∃ alone, (s.execute .standard c).2 = .ok alone ∧
      (¬ after.tree.Shadowed place → read = .ok
        { out := mode.contents (((s.execute .standard c).1.tree.lines? place).getD [])
            alone.out }) ∧
      (after.tree.Shadowed place → ∃ name,
        read = .ok (.ofError (ShellError.isDirectory name "cat").line)) := by
  intro after read
  have htree := (execute_append_space hc s).1
  obtain ⟨alone, halone⟩ := exists_result_of_not_mem hc s
  refine ⟨alone, halone, ?_⟩
  have hsend := execute_eq_redirect hc ht mode halone
  rw [hsend] at hdone
  obtain ⟨hturn, haftertree, haftercwd⟩ := turn_of_redirect hdone
  rw [← hsend] at haftertree haftercwd
  have hfound : after.tree.resolvePath after.cwd t (some .text) = some place := by
    rw [haftertree, haftercwd]
    exact Tree.resolve_of_turn hplain hturn
  have hlines : after.tree.lines? place = some
      (mode.contents (((s.execute .standard c).1.tree.lines? place).getD []) alone.out) := by
    rw [haftertree, Tree.lines?_turn hturn, htree]
  obtain ⟨hfree, hshadowed⟩ := Tree.resolve_none_of_resolve_text (Path.split_ne_nil t) hplain
    hfound (Tree.not_isDirectory_of_lines? hlines)
  constructor
  · intro h
    exact cat_file ht (hfree h) hlines
  · intro h
    obtain ⟨q, hq, hd⟩ := hshadowed h
    exact cat_directory ht hq hd

/-- The output of `echo hi` is read back from a new file. -/
theorem echo_is_read_back :
    let s := ofTree {} {}
    let line := "echo hi" ++ " " ++ RedirectMode.truncate.operator ++ " " ++ "f"
    (s.execute .standard line).data? = some [0] ∧
      ((s.execute .standard line).1.execute .standard (Builtin.cat.name ++ " " ++ "f")).2 =
        .ok { out := [.text "hi"] } := by
  intro s line
  have hdone : (s.execute .standard line).data? = some [0] := by decide +kernel
  refine ⟨hdone, ?_⟩
  obtain ⟨alone, halone, hread, -⟩ := cat_reads_redirected s (c := "echo hi") (t := "f")
    (by decide) (by decide) (by decide) .truncate hdone
  have hout : alone.out = [.text "hi"] := by
    have hresult : (s.execute .standard "echo hi").result?.map Result.out = some [.text "hi"] := by
      decide +kernel
    simpa [Outcome.result?, halone] using hresult
  rw [hread, RedirectMode.contents, hout]
  rintro ⟨above, i, j, name, hplace, hij, -, hdir⟩
  obtain ⟨rfl, -⟩ := List.append_inj' (show [] ++ [0] = above ++ [i] from hplace) rfl
  have hlen : ((s.execute .standard line).1.tree.signatures []).length = 1 := by decide +kernel
  have hj : j < ((s.execute .standard line).1.tree.signatures []).length := by
    rw [← Tree.getElem?_signatures] at hdir
    exact (List.getElem?_eq_some_iff.mp hdir).1
  omega

/-- What a redirect wrote is not read back if a directory was made behind the file, and at a path
that is not plain the file is not found at all. -/
theorem output_is_not_read_back :
    let s := ofTree {} {}
    let s' := s.run .standard [.execute "touch a", .execute "mkdir a"]
    ((s'.execute .standard "echo hi > a").data? = some [0] ∧
        (s'.execute .standard "echo hi").result?.map Result.out = some [.text "hi"] ∧
        ((s'.execute .standard "echo hi > a").1.execute .standard "cat a").result? =
          some { err := [.text "cat: a: Is a directory"] }) ∧
      (s.execute .standard "echo hi > /x").data? = some [0] ∧
      ((s.execute .standard "echo hi > /x").1.execute .standard "cat /x").result? =
        some { err := [.text "cat: /x: No such file or directory"] } := by
  decide +kernel

end Session

end TreeShell
