import TreeShell.Proofs.Tree.Address
import TreeShell.Proofs.Tree.Levels
import TreeShell.Proofs.Tree.Seed
import TreeShell.Session.Keystroke

/-!
# Options of a path

What is offered at a path leads to a child, and every child that a path can lead to is offered.
-/

namespace TreeShell

/-!
## Options can be used

An option replaces the last segment of a path. The directory of a path is looked up as a path of its
own, and a path of its own may end with an empty segment. With an option behind it that segment does
not stand at the end any more, and then it leads nowhere. At plain paths this does not happen: there
every option leads to the child that it was listed for.
-/

namespace Text

theorem pieces_glue_concat {sep : Char} {ps : List (List Char)} (h : ∀ p ∈ ps, sep ∉ p)
    (cs : List Char) : pieces sep (glue sep (ps ++ [cs])) = ps ++ pieces sep cs := by
  induction ps with
  | nil => rfl
  | cons p ps ih =>
      have hrest := ih fun q hq ↦ h q (List.mem_cons_of_mem p hq)
      obtain ⟨q, qs, hq⟩ := List.exists_cons_of_ne_nil (List.append_ne_nil_of_right_ne_nil ps
        (List.cons_ne_nil cs []))
      rw [List.cons_append, hq, glue, pieces_append_sep (h p List.mem_cons_self), ← hq, hrest]
      rfl

theorem split_join_concat {sep : Char} {ps : List String} (h : ∀ p ∈ ps, sep ∉ p.toList)
    (s : String) : split sep (join sep (ps ++ [s])) = ps ++ split sep s := by
  have hps : ∀ q ∈ ps.map String.toList, sep ∉ q := by simpa using h
  rw [split, join, List.map_append, List.map_singleton, String.toList_ofList,
    pieces_glue_concat hps, List.map_append, split]
  simp [Function.comp_def]

end Text

namespace Path

def replaceLast (path last : String) : String :=
  join ((ParsedPath.ofString path).directory ++ [last])

theorem split_append_separator {name : String} (h : separator ∉ name.toList) :
    split (name ++ "/") = [name, ""] := by
  have hcut : (name ++ "/").toList = name.toList ++ separator :: [] := by simp [separator]
  rw [split, Text.split, hcut, Text.pieces_append_sep h]
  simp

theorem split_replaceLast (path last : String) :
    split (replaceLast path last) = (split path).dropLast ++ split last := by
  apply Text.split_join_concat
  intro segment hmem
  exact not_mem_of_mem_split (List.dropLast_subset _ hmem)

def optionKind (option : String) : Kind :=
  if option.toList.getLast? = some separator then .directory else .text

end Path

theorem Node.optionKind_listed {n : Node} (h : Path.separator ∉ n.name.toList) :
    Path.optionKind n.listed = n.kind := by
  cases n with
  | directory name cs => simp [Path.optionKind, listed, kind, Path.separator]
  | file name lines stamp =>
      have hlast : name.toList.getLast? ≠ some Path.separator :=
        fun hlast ↦ h (List.mem_of_getLast? hlast)
      exact if_neg hlast

namespace Tree

variable {t : Tree} {dir : Place} {kinds : Option (List Kind)} {child : Place × Node}

theorem mem_childrenOf_iff : child ∈ t.childrenOf dir kinds ↔
    ∃ i, child.1 = dir ++ [i] ∧ (t.children dir)[i]? = some child.2 ∧
      ∀ ks ∈ kinds, child.2.kind ∈ ks := by
  have hall : child ∈ ((t.children dir).mapIdx fun i n ↦ (dir ++ [i], n)) ↔
      ∃ i, child.1 = dir ++ [i] ∧ (t.children dir)[i]? = some child.2 := by
    rw [List.mem_mapIdx]
    constructor
    · rintro ⟨i, hi, rfl⟩
      exact ⟨i, rfl, List.getElem?_eq_getElem hi⟩
    · rintro ⟨i, hplace, hnode⟩
      obtain ⟨hi, hnode⟩ := List.getElem?_eq_some_iff.mp hnode
      exact ⟨i, hi, Prod.ext hplace.symm hnode⟩
  unfold childrenOf
  cases kinds with
  | none => simpa using hall
  | some ks => simp [List.mem_filter, hall, ← exists_and_right, and_assoc]

theorem signature?_of_children {i : Nat} {n : Node} (h : (t.children dir)[i]? = some n) :
    t.signature? (dir ++ [i]) = some n.signature := by
  rw [← getElem?_signatures, signatures, List.getElem?_map, h]
  rfl

theorem ordinary_of_mem_childrenOf (hnames : t.NamesAre Path.IsOrdinary)
    (h : child ∈ t.childrenOf dir kinds) : Path.IsOrdinary child.2.name := by
  obtain ⟨i, -, hi, -⟩ := mem_childrenOf_iff.mp h
  exact hnames dir _ (mem_signatures (signature?_of_children hi))

theorem resolve_nothing {place : Place} (h : t.isDirectory place = true) :
    t.resolve place [""] (some .directory) = some place := by
  rw [resolve_singleton, if_pos h, lastHop, if_pos ⟨rfl, rfl⟩]

theorem resolve_listed (hnames : t.NamesAre Path.IsOrdinary) (hunique : t.SiblingsUnique)
    (h : child ∈ t.childrenOf dir kinds) :
    t.resolve dir (Path.split child.2.listed) (some child.2.kind) = some child.1 := by
  obtain ⟨place, n⟩ := child
  have hname : Path.IsOrdinary n.name := ordinary_of_mem_childrenOf hnames h
  obtain ⟨i, rfl, hi, -⟩ := mem_childrenOf_iff.mp h
  have hsig := signature?_of_children hi
  have hchild := resolve_child hnames hunique hsig
  cases n with
  | file name lines stamp =>
      have hsplit : Path.split name = [name] := Path.split_of_not_mem hname.2.1
      change t.resolve dir (Path.split name) (some .text) = some (dir ++ [i])
      rw [hsplit]
      exact hchild
  | directory name cs =>
      have hsplit : Path.split (name ++ "/") = [name] ++ [""] :=
        Path.split_append_separator hname.2.1
      have hdir : t.isDirectory (dir ++ [i]) = true := isDirectory_iff.mpr ⟨name, hsig⟩
      have hfound : t.resolve dir [name] (some .directory) = some (dir ++ [i]) := hchild
      have hlast : [name].getLast? ≠ some "" := fun hempty ↦ hname.1 (Option.some.inj hempty)
      change t.resolve dir (Path.split (name ++ "/")) (some .directory) = some (dir ++ [i])
      rw [hsplit, resolve_append hlast (by simp), hfound, Option.bind_some, resolve_nothing hdir]

theorem eq_of_listed_eq (hnames : t.NamesAre Path.IsOrdinary) (hunique : t.SiblingsUnique)
    {other : Place × Node} (hchild : child ∈ t.childrenOf dir kinds)
    (hother : other ∈ t.childrenOf dir kinds) (hlisted : other.2.listed = child.2.listed) :
    other = child := by
  have hkind : other.2.kind = child.2.kind := by
    rw [← Node.optionKind_listed (ordinary_of_mem_childrenOf hnames hother).2.1, hlisted,
      Node.optionKind_listed (ordinary_of_mem_childrenOf hnames hchild).2.1]
  have hplace : other.1 = child.1 := by
    have hleads := resolve_listed hnames hunique hother
    rw [hlisted, hkind, resolve_listed hnames hunique hchild] at hleads
    exact (Option.some.inj hleads).symm
  obtain ⟨i, hi, hnode, -⟩ := mem_childrenOf_iff.mp hchild
  obtain ⟨j, hj, hnode', -⟩ := mem_childrenOf_iff.mp hother
  obtain rfl : j = i := by
    rw [hi, hj] at hplace
    exact List.singleton_inj.mp (List.append_cancel_left hplace)
  exact Prod.ext hplace (Option.some.inj (hnode'.symm.trans hnode))

variable {cwd : Place} {path : String}

theorem resolve_replaceLast_of_plain (hnames : t.NamesAre Path.IsOrdinary)
    (hunique : t.SiblingsUnique) (hplain : Path.Plain (Path.split path))
    (hdir : t.resolve cwd (ParsedPath.ofString path).directory (some .directory) = some dir)
    (h : child ∈ t.childrenOf dir kinds) :
    t.resolvePath cwd (Path.replaceLast path child.2.listed) (some child.2.kind) =
      some child.1 := by
  have hlisted := resolve_listed hnames hunique h
  rw [resolvePath, Path.split_replaceLast, resolve_append hplain (Path.split_ne_nil _)]
  change (t.resolve cwd (ParsedPath.ofString path).directory _).bind _ = _
  rw [hdir, Option.bind_some, hlisted]

/-- Behind an empty segment no option leads anywhere. -/
theorem resolve_replaceLast_of_not_plain (hnames : t.NamesAre (· ≠ ""))
    (hplain : ¬ Path.Plain (Path.split path)) (option : String) (kind? : Option Kind) :
    t.resolvePath cwd (Path.replaceLast path option) kind? = none := by
  have hempty : "" ∈ (Path.split path).dropLast := List.mem_of_getLast? (not_not.mp hplain)
  apply resolve_eq_none_of_empty_mem hnames
  rw [Path.split_replaceLast, List.dropLast_append_of_ne_nil (Path.split_ne_nil _)]
  exact List.mem_append_left _ hempty

end Tree

namespace Session

variable {s : Session} {path option : String} {kinds : Option (List Kind)}

theorem mem_pathOptions_iff :
    option ∈ s.pathOptions path kinds ↔
      ∃ dir, s.tree.resolve s.cwd (ParsedPath.ofString path).directory (some .directory) =
          some dir ∧
        (∃ child ∈ s.tree.childrenOf dir kinds, child.2.listed = option) ∧
        (ParsedPath.ofString path).name.toList <+: option.toList := by
  unfold pathOptions
  dsimp only
  cases s.tree.resolve s.cwd (ParsedPath.ofString path).directory (some .directory) with
  | none => simp
  | some dir => simp [beginningWith, Text.beginsWith]

/-- Every option stands for one child of the directory of the path. With the option for its last
segment the path leads to that child, unless there is an empty segment in front of the option: then
it leads nowhere. -/
theorem option_leads_to_child (s : Session) (hnames : s.tree.NamesAre Path.IsOrdinary)
    (hunique : s.tree.SiblingsUnique) (path : String) (kinds : Option (List Kind))
    (option : String) (h : option ∈ s.pathOptions path kinds) :
    ∃ dir child,
      s.tree.resolve s.cwd (ParsedPath.ofString path).directory (some .directory) = some dir ∧
      child ∈ s.tree.childrenOf dir kinds ∧ child.2.listed = option ∧
      (∀ other ∈ s.tree.childrenOf dir kinds, other.2.listed = option → other = child) ∧
      s.tree.resolvePath s.cwd (Path.replaceLast path option) (some (Path.optionKind option)) =
        if Path.Plain (Path.split path) then some child.1 else none := by
  obtain ⟨dir, hdir, ⟨child, hchild, rfl⟩, -⟩ := mem_pathOptions_iff.mp h
  have hkind := Node.optionKind_listed (Tree.ordinary_of_mem_childrenOf hnames hchild).2.1
  refine ⟨dir, child, hdir, hchild, rfl, ?_, ?_⟩
  · intro other hother hlisted
    exact Tree.eq_of_listed_eq hnames hunique hchild hother hlisted
  · rw [hkind]
    split_ifs with hplain
    · exact Tree.resolve_replaceLast_of_plain hnames hunique hplain hdir hchild
    · exact Tree.resolve_replaceLast_of_not_plain (fun q sig hsig ↦ (hnames q sig hsig).1) hplain
        _ _

/-- In the session without any configuration the option for `projects/sh` can be used, the one for
`/pr` cannot. -/
theorem default_options :
    let s := (ofConfig {}).1
    s.tree.NamesAre Path.IsOrdinary ∧ s.tree.SiblingsUnique ∧
      "shell.txt" ∈ s.pathOptions "projects/sh" (some [.text]) ∧
      (∃ place, s.tree.resolvePath s.cwd "projects/shell.txt" (some .text) = some place) ∧
      "projects/" ∈ s.pathOptions "/pr" (some [.directory]) ∧
      s.tree.resolvePath s.cwd "/projects/" (some .directory) = none := by
  intro s
  have hnames : s.tree.NamesAre Path.IsOrdinary :=
    Tree.namesAre_ofSeed Seed.keysAre_defaultSeed _
  have hunique : s.tree.SiblingsUnique := Tree.siblingsUnique_ofSeed Seed.keysAre_defaultSeed _
  have hfile : "shell.txt" ∈ s.pathOptions "projects/sh" (some [.text]) := by decide +kernel
  have hdir : "projects/" ∈ s.pathOptions "/pr" (some [.directory]) := by decide +kernel
  obtain ⟨_, child, _, _, _, _, hleads⟩ := option_leads_to_child s hnames hunique _ _ _ hfile
  obtain ⟨_, _, _, _, _, _, hnowhere⟩ := option_leads_to_child s hnames hunique _ _ _ hdir
  have hplain : Path.Plain (Path.split "projects/sh") := by decide
  have hslash : ¬ Path.Plain (Path.split "/pr") := by decide
  rw [if_pos hplain] at hleads
  rw [if_neg hslash] at hnowhere
  exact ⟨hnames, hunique, hfile, ⟨child.1, hleads⟩, hdir, hnowhere⟩

end Session

/-!
## Whatever can be named is offered

What a path finds as a whole is found by its last name in the directory of the path, and there it is
one of the options for every beginning of the name.
-/

theorem Node.listed_eq (n : Node) :
    n.listed = if n.kind = .directory then n.name ++ "/" else n.name := by
  cases n <;> rfl

namespace Path

theorem ofString_replaceLast (path : String) {last : String} (h : separator ∉ last.toList) :
    ParsedPath.ofString (replaceLast path last) = ⟨(split path).dropLast, last⟩ := by
  have hsplit : split (replaceLast path last) = (split path).dropLast ++ [last] := by
    rw [split_replaceLast, split_of_not_mem h]
  simp [ParsedPath.ofString, splitLast, hsplit]

end Path

namespace Tree

variable {t : Tree} {start dir place : Place} {segments : List String} {name : String}
  {kind : Kind} {kinds : Option (List Kind)}

theorem child?_of_resolve (hnames : t.NamesAre (· ≠ "")) {kind? : Option Kind}
    (hne : Path.lastName segments ≠ "") (hfree : ¬ Path.IsReserved (Path.lastName segments))
    (h : t.resolve start segments kind? = some place) :
    ∃ dir, t.resolve start segments.dropLast (some .directory) = some dir ∧
      t.child? dir (Path.lastName segments) kind? = some place := by
  have hsome : segments ≠ [] := by
    rintro rfl
    exact hne rfl
  have hplain : Path.Plain segments := by
    by_contra hplain
    rw [resolve_eq_none_of_not_plain hnames hplain] at h
    cases h
  rw [resolve_eq_bind_parent? hsome hplain] at h
  obtain ⟨dir, hdir, hlast⟩ := Option.bind_eq_some_iff.mp h
  have hname : t.resolve dir [Path.lastName segments] kind? = some place := hlast
  rw [resolve_name hne hfree] at hname
  split_ifs at hname
  exact ⟨dir, by rwa [← parent?_eq_resolve], hname⟩

theorem at?_of_children {i : Nat} {n : Node} (h : (t.children dir)[i]? = some n) :
    t.at? (dir ++ [i]) = some n := by
  unfold children Tree.at? at h
  rw [Tree.at?, Node.at?_append]
  cases hdir : t.root.at? dir with
  | none => simp [hdir] at h
  | some above => simpa [hdir, Node.at?_cons] using h

theorem mem_childrenOf_of_child? (h : t.child? dir name (some kind) = some place)
    (hkinds : ∀ ks ∈ kinds, kind ∈ ks) :
    ∃ n, t.at? place = some n ∧ n.name = name ∧ n.kind = kind ∧
      (place, n) ∈ t.childrenOf dir kinds := by
  obtain ⟨i, hi, rfl⟩ := Option.map_eq_some_iff.mp h
  obtain ⟨n, hn, hanswers⟩ := getElem?_of_lastIndex? hi
  have hsignature : n.signature = (name, kind) := answers_some_iff.mp hanswers
  have hname : n.name = name := congrArg Prod.fst hsignature
  have hkind : n.kind = kind := congrArg Prod.snd hsignature
  exact ⟨n, at?_of_children hn, hname, hkind,
    mem_childrenOf_iff.mpr ⟨i, rfl, hn, hkind ▸ hkinds⟩⟩

end Tree

namespace Session

variable {s : Session} {kind : Kind} {place : Place} {kinds : Option (List Kind)}

/-- What a path finds is offered, with a slash if it is a directory, wherever in its name the path
is cut, unless other kinds of nodes are asked for. -/
theorem found_node_is_offered (s : Session) (hnames : s.tree.NamesAre (· ≠ "")) {path : String}
    (hne : (ParsedPath.ofString path).name ≠ "")
    (hfree : ¬ Path.IsReserved (ParsedPath.ofString path).name)
    (h : s.tree.resolvePath s.cwd path (some kind) = some place) {typed : String}
    (htyped : typed.toList <+: (ParsedPath.ofString path).name.toList)
    (hkinds : ∀ ks ∈ kinds, kind ∈ ks) :
    ∃ n, s.tree.at? place = some n ∧ n.name = (ParsedPath.ofString path).name ∧ n.kind = kind ∧
      (if kind = .directory then n.name ++ "/" else n.name) ∈
        s.pathOptions (Path.replaceLast path typed) kinds := by
  obtain ⟨dir, hdir, hchild⟩ := Tree.child?_of_resolve hnames hne hfree h
  obtain ⟨n, hat, hname, hkind, hmem⟩ := Tree.mem_childrenOf_of_child? hchild hkinds
  have hslash : Path.separator ∉ typed.toList := fun hmem ↦
    Path.separator_notMem_lastName_split path (htyped.subset hmem)
  have hbegins : typed.toList <+: n.listed.toList := by
    apply htyped.trans
    rw [Node.listed_eq, hname]
    split_ifs
    · rw [String.toList_append]
      exact List.prefix_append _ _
    · exact List.prefix_rfl
  refine ⟨n, hat, hname, hkind, ?_⟩
  rw [← hkind, ← Node.listed_eq, mem_pathOptions_iff, Path.ofString_replaceLast path hslash]
  exact ⟨dir, hdir, ⟨_, hmem, rfl⟩, hbegins⟩

/-- From the directory `~/projects`, where a file is offered at the end of a path with detours, and
the directory itself for its first letters. -/
theorem default_offers :
    let s : Session := { (ofConfig {}).1 with cwd := [2] }
    s.tree.NamesAre (· ≠ "") ∧
      s.tree.resolvePath s.cwd "../projects/./shell.txt" (some .text) = some [2, 0] ∧
      "shell.txt" ∈ s.pathOptions "../projects/./sh" (some [.text]) ∧
      s.tree.resolvePath s.cwd "../projects" (some .directory) = some [2] ∧
      "projects/" ∈ s.pathOptions "../pro" none := by
  intro s
  have hnames : s.tree.NamesAre (· ≠ "") := fun place sig hsig ↦
    (Tree.namesAre_ofSeed Seed.keysAre_defaultSeed _ place sig hsig).1
  have hfile : s.tree.resolvePath s.cwd "../projects/./shell.txt" (some .text) = some [2, 0] := by
    decide +kernel
  have hdirectory : s.tree.resolvePath s.cwd "../projects" (some .directory) = some [2] := by
    decide +kernel
  have htyped : "sh".toList <+:
      (ParsedPath.ofString "../projects/./shell.txt").name.toList := by decide
  have htyped' : "pro".toList <+: (ParsedPath.ofString "../projects").name.toList := by decide
  have hkinds : ∀ ks ∈ some [Kind.text], Kind.text ∈ ks := by simp
  have hkinds' : ∀ ks ∈ (none : Option (List Kind)), Kind.directory ∈ ks := by simp
  obtain ⟨n, -, hn, -, hoffer⟩ :=
    found_node_is_offered s hnames (by decide) (by decide) hfile htyped hkinds
  obtain ⟨m, -, hm, -, hoffer'⟩ :=
    found_node_is_offered s hnames (by decide) (by decide) hdirectory htyped' hkinds'
  rw [hn] at hoffer
  rw [hm] at hoffer'
  exact ⟨hnames, hfile, hoffer, hdirectory, hoffer'⟩

end Session

end TreeShell
