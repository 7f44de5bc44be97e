import TreeShell.Proofs.Session.Growth

/-!
# Several arguments

A command with several paths does what it does with the first of them and then, in the session that
this leaves, with the others. In a directory every path comes to a result, so that none keeps the
others from having theirs. In a text file a path at which a node would have to be made breaks the
command off, and the paths behind it are not looked at.
-/

namespace TreeShell

namespace Outcome

/-- An outcome is that of two runs in a row: both have a result, and their lines stand one behind
the other. The file of the second run counts, if it has one. -/
def Joins (o first second : Outcome) : Prop :=
  ∃ r r', first.2 = .ok r ∧ second.2 = .ok r' ∧
    o = (second.1, .ok ⟨r.out ++ r'.out, r.err ++ r'.err, r'.data.or r.data⟩)

variable {o first second : Outcome}

theorem Joins.fst_eq (h : o.Joins first second) : o.1 = second.1 := by
  obtain ⟨_, _, -, -, rfl⟩ := h
  rfl

theorem Joins.exists_result (h : o.Joins first second) : ∃ r, o.2 = .ok r := by
  obtain ⟨_, _, -, -, rfl⟩ := h
  exact ⟨_, rfl⟩

theorem andThen_assoc (o : Outcome) (next next' : Session → Outcome) :
    (o.andThen next).andThen next' = o.andThen fun s ↦ (next s).andThen next' := by
  obtain ⟨s, _ | first⟩ := o
  · rfl
  · rcases hnext : next s with ⟨s', _ | second⟩
    · simp [andThen, hnext, Except.map]
    · cases hnext' : (next' s').2 with
      | error failure => simp [andThen, hnext, hnext', Except.map]
      | ok third => simp [andThen, hnext, hnext', Except.map, Result.combine_assoc]

theorem joins_andThen {r r' : Result Place} (h : o.2 = .ok r) (next : Session → Outcome)
    (h' : (next o.1).2 = .ok r') : (o.andThen next).Joins o (next o.1) := by
  refine ⟨r, r', h, h', ?_⟩
  obtain ⟨s, result⟩ := o
  cases h
  simp only [andThen, h']
  rfl

end Outcome

namespace Session

variable {s : Session} {one : Session → String → Outcome}

/-- A command works through the first paths and then, unless it broke off, through the others. -/
theorem each_append (one : Session → String → Outcome) (s : Session) (xs ys : List String) :
    s.each one (xs ++ ys) = (s.each one xs).andThen fun s ↦ s.each one ys := by
  induction xs generalizing s with
  | nil =>
      rcases h : s.each one ys with ⟨s', _ | r⟩ <;> simp [each, Outcome.andThen, h, Except.map]
  | cons x xs ih =>
      rw [List.cons_append, each_cons, each_cons, Outcome.andThen_assoc]
      congr 1
      funext s'
      exact ih s'

/-! ## Coming to a result -/

/-- In the sessions of a kind, every path comes to a result and leaves such a session. -/
def Answers (I : Session → Prop) (one : Session → String → Outcome) : Prop :=
  ∀ s path, I s → I (one s path).1 ∧ ∃ r, (one s path).2 = .ok r

theorem Answers.each {I : Session → Prop} (h : Answers I one) (hs : I s) (paths : List String) :
    I (s.each one paths).1 ∧ ∃ r, (s.each one paths).2 = .ok r := by
  induction paths generalizing s with
  | nil => exact ⟨hs, .empty, rfl⟩
  | cons path paths ih =>
      obtain ⟨hfirst, r, hr⟩ := h s path hs
      obtain ⟨hothers, r', hr'⟩ := ih hfirst
      have hjoins := Outcome.joins_andThen hr (fun s ↦ s.each one paths) hr'
      rw [each_cons]
      exact ⟨hjoins.fst_eq ▸ hothers, hjoins.exists_result⟩

theorem Answers.joins {I : Session → Prop} (h : Answers I one) (hs : I s) (xs ys : List String) :
    (s.each one (xs ++ ys)).Joins (s.each one xs) ((s.each one xs).1.each one ys) := by
  obtain ⟨hfirst, r, hr⟩ := h.each hs xs
  obtain ⟨-, r', hr'⟩ := h.each hfirst ys
  rw [each_append]
  exact Outcome.joins_andThen hr (fun s ↦ s.each one ys) hr'

theorem answers_listOne (several : Bool) : Answers (fun _ ↦ True) (listOne several) := by
  intro s path _
  refine ⟨trivial, ?_⟩
  unfold listOne
  split <;> exact ⟨_, rfl⟩

theorem answers_catOne : Answers (fun _ ↦ True) catOne := fun _ _ _ ↦ ⟨trivial, _, rfl⟩

theorem exists_result_make (h : s.InDirectory) (segments : List String) (kind : Kind) :
    ∃ r, (s.make segments kind).2 = .ok r := by
  unfold make create
  cases hc : s.tree.create s.cwd segments kind with
  | ok made => exact ⟨_, rfl⟩
  | error failure =>
      have hrefusal := (Tree.create_eq_error_iff h).mp hc
      cases hrefusal <;> exact ⟨_, rfl⟩

theorem answers_touchOne : Answers InDirectory touchOne := by
  intro s path hs
  have hchanges : AnyChanges s.tree (s.touchOne path).1.tree :=
    changes_touchOne s path fun _ _ _ ↦ trivial
  refine ⟨inDirectory_of_grows hs (provides_touchOne s path).cwd hchanges.grows, ?_⟩
  unfold touchOne
  split
  · exact exists_result_make hs _ _
  · split <;> exact ⟨_, rfl⟩

theorem answers_mkdirOne : Answers InDirectory mkdirOne := by
  intro s path hs
  have hchanges : AnyChanges s.tree (s.mkdirOne path).1.tree :=
    changes_mkdirOne s path fun _ _ _ ↦ trivial
  refine ⟨inDirectory_of_grows hs (provides_mkdirOne s path).cwd hchanges.grows, ?_⟩
  unfold mkdirOne
  split
  · exact ⟨_, rfl⟩
  · exact exists_result_make hs _ _

/-! ## In a text file -/

def Idle (one : Session → String → Outcome) : Prop :=
  ∀ s path, ¬ s.InDirectory → (one s path).1.location = s.location

theorem Idle.each (h : Idle one) (hs : ¬ s.InDirectory) (paths : List String) :
    (s.each one paths).1.location = s.location := by
  refine each_preserves (I := fun s' ↦ s'.location = s.location) ?_ rfl
  intro s' path _ hlocation
  have hs' : ¬ s'.InDirectory := fun h' ↦ hs (inDirectory_of_location_eq h' hlocation.symm)
  exact (h s' path hs').trans hlocation

theorem location_make_of_not_inDirectory (hs : ¬ s.InDirectory) (segments : List String)
    (kind : Kind) : (s.make segments kind).1.location = s.location := by
  unfold make
  split
  · rename_i hc
    obtain ⟨t, ht, -⟩ := create_eq_ok_iff.mp hc
    exact absurd (Tree.isDirectory_of_create ht) hs
  · rfl
  · rfl

theorem resolvePath_of_not_inDirectory (hs : ¬ s.InDirectory) (path : String)
    (kind? : Option Kind) : s.tree.resolvePath s.cwd path kind? = none :=
  Tree.resolve_of_not_isDirectory hs (Path.split_ne_nil path)

theorem idle_touchOne : Idle touchOne := by
  intro s path hs
  rw [touchOne, resolvePath_of_not_inDirectory hs]
  exact location_make_of_not_inDirectory hs _ _

theorem idle_mkdirOne : Idle mkdirOne := by
  intro s path hs
  rw [mkdirOne, resolvePath_of_not_inDirectory hs]
  exact location_make_of_not_inDirectory hs _ _

theorem location_each_append (hdirectory : Answers InDirectory one) (hfile : Idle one)
    (s : Session) (xs ys : List String) :
    (s.each one (xs ++ ys)).1.location = ((s.each one xs).1.each one ys).1.location := by
  by_cases hs : s.InDirectory
  · rw [(hdirectory.joins hs xs ys).fst_eq]
  · have hfirst := hfile.each hs xs
    have hs' : ¬ (s.each one xs).1.InDirectory := fun h' ↦
      hs (inDirectory_of_location_eq h' hfirst.symm)
    rw [hfile.each hs, hfile.each hs', hfirst]

/-! ## Two runs -/

theorem ls_of_several {paths : List String} (h : 2 ≤ paths.length) (s : Session) :
    s.ls paths = s.each (listOne true) paths := by
  unfold ls
  split
  · cases h
  · rw [decide_eq_true (show 1 < paths.length from h)]

/-- A command with the arguments `xs ++ ys` leaves the tree and the directory that it leaves with
`xs` and then with `ys`, and it goes on to `ys` unless `xs` break it off. Both runs have a result in
a directory, and for `cat` and for `ls` with several paths anywhere; the results then stand one
behind the other. -/
theorem arguments_run_in_turn (listing : List String) (b : Builtin) (cmd : Command) (s : Session)
    (xs ys : List String) :
    let run (s : Session) (args : List String) := b.run listing s { cmd with args }
    let first := run s xs
    let second := run first.1 ys
    let both := run s (xs ++ ys)
    (b ∈ [.touch, .mkdir, .cat] →
      both.1.tree = second.1.tree ∧ both.1.cwd = second.1.cwd ∧
        both = first.andThen (run · ys) ∧
        (s.InDirectory ∨ b = .cat → both.Joins first second)) ∧
      (b = .ls → 2 ≤ xs.length → 2 ≤ ys.length → both.Joins first second) := by
  refine ⟨fun hb ↦ ?_, ?_⟩
  · -- What each of the three commands does at one path.
    obtain ⟨one, hrun, hlocation, hjoins⟩ : ∃ one : Session → String → Outcome,
        (∀ s args, b.run listing s { cmd with args } = s.each one args) ∧
        (s.each one (xs ++ ys)).1.location = ((s.each one xs).1.each one ys).1.location ∧
        (s.InDirectory ∨ b = .cat →
          (s.each one (xs ++ ys)).Joins (s.each one xs) ((s.each one xs).1.each one ys)) := by
      obtain rfl | rfl | rfl : b = .touch ∨ b = .mkdir ∨ b = .cat := by simpa using hb
      · refine ⟨touchOne, fun _ _ ↦ rfl, ?_, fun h ↦ ?_⟩
        · exact location_each_append answers_touchOne idle_touchOne s xs ys
        · exact answers_touchOne.joins (h.resolve_right nofun) xs ys
      · refine ⟨mkdirOne, fun _ _ ↦ rfl, ?_, fun h ↦ ?_⟩
        · exact location_each_append answers_mkdirOne idle_mkdirOne s xs ys
        · exact answers_mkdirOne.joins (h.resolve_right nofun) xs ys
      · have hjoins := answers_catOne.joins (s := s) trivial xs ys
        exact ⟨catOne, fun _ _ ↦ rfl, congrArg location hjoins.fst_eq, fun _ ↦ hjoins⟩
    dsimp only
    simp only [hrun]
    obtain ⟨htree, hcwd⟩ := Prod.mk.inj hlocation
    exact ⟨htree, hcwd, each_append one s xs ys, hjoins⟩
  · rintro rfl hx hy
    have hboth : 2 ≤ (xs ++ ys).length := by
      rw [List.length_append]
      omega
    simp only [Builtin.run, ls_of_several hx, ls_of_several hy, ls_of_several hboth]
    exact (answers_listOne true).joins trivial xs ys

/-- The file that the first run makes is touched in the second, and a path that leads nowhere is
refused in both; so are two of four directories. -/
theorem touch_and_ls_in_two_runs :
    let s := ofTree { entries := [.directory "d" []] } {}
    let touched := s.touch ["d/a", "e/a"]
    s.InDirectory ∧
      (s.touch ["d/a", "e/a", "e/b", "d/a"]).Joins touched (touched.1.touch ["e/b", "d/a"]) ∧
      (s.ls ["d", "e", "~", "f"]).Joins (s.ls ["d", "e"]) (s.ls ["~", "f"]) := by
  intro s touched
  have hs : s.InDirectory := by decide
  have htouch := arguments_run_in_turn [] .touch ⟨"touch", [], none, ""⟩ s ["d/a", "e/a"]
    ["e/b", "d/a"]
  have hls := arguments_run_in_turn [] .ls ⟨"ls", [], none, ""⟩ s ["d", "e"] ["~", "f"]
  exact ⟨hs, (htouch.1 (by decide)).2.2.2 (.inl hs), hls.2 rfl (by decide) (by decide)⟩

/-- In a text file the first path, which would make a node, breaks the command off; run on its own,
the second is answered. -/
theorem second_path_is_not_answered_in_file :
    let s := (ofTree { entries := [.file "f" [.text "x"] 0] } {}).changeDirectory [0]
    let first := s.execute .standard "touch a"
    let second := first.1.execute .standard "touch /b"
    let both := s.execute .standard "touch a /b"
    let broken := Line.text "touch: 'TextFile' object has no attribute 'add_child'"
    let answer := Line.text ": Directory not found"
    first.2.toOption.map Result.err = some [broken] ∧
      second.2.toOption.map Result.err = some [answer] ∧
      both.2.toOption.map Result.err = some [broken] := by
  decide +kernel

end Session

end TreeShell
