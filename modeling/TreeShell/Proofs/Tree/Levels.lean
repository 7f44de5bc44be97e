import TreeShell.Proofs.Tree.Reserved
import TreeShell.Tree.Basic

/-!
# Levels of a tree

Paths of names lead down a tree level by level, as far as its height, and `..` leads up again.
-/

namespace TreeShell

/-!
## Down and up again

A name leads one level down and `..` one level up, except at the root, which is above itself. So
going up as many levels as a path of names went down leads back to where the path started.
-/

namespace Tree

variable {t : Tree} {start place next : Place} {segment : String} {segments : List String}

theorem hop_of_not_isReserved (h : ¬ Path.IsReserved segment) (kind? : Option Kind) :
    t.hop start segment kind? = t.child? start segment kind? := by
  rw [Path.IsReserved, not_or, not_or] at h
  obtain ⟨hhere, habove, hhome⟩ := h
  rw [hop, if_neg hhere, if_neg habove, if_neg hhome]

theorem resolve_name (hne : segment ≠ "") (hname : ¬ Path.IsReserved segment)
    (kind? : Option Kind) :
    t.resolve start [segment] kind? =
      if t.isDirectory start then t.child? start segment kind? else none := by
  have hlast : ¬ (segment = "" ∧ kind? = some .directory) := fun hempty ↦ hne hempty.1
  rw [resolve_singleton, lastHop, if_neg hlast, hop_of_not_isReserved hname]

/-- On the way to a directory a path can be cut behind any segment that is not empty. -/
theorem resolve_directory_cons (h : segment ≠ "") :
    t.resolve start (segment :: segments) (some .directory) =
      (t.resolve start [segment] (some .directory)).bind fun place ↦
        t.resolve place segments (some .directory) := by
  cases segments with
  | nil =>
      cases t.resolve start [segment] (some .directory) with
      | none => rfl
      | some place => rfl
  | cons second more =>
      have hlast : [segment].getLast? ≠ some "" := by simpa using h
      exact resolve_append hlast (List.cons_ne_nil second more)

/-! ### Down -/

theorem exists_of_resolve_name (hne : segment ≠ "") (hname : ¬ Path.IsReserved segment)
    (h : t.resolve start [segment] (some .directory) = some next) : ∃ i, next = start ++ [i] := by
  rw [resolve_name hne hname] at h
  split_ifs at h
  obtain ⟨i, -, hnext, -⟩ := signature?_of_child? h
  exact ⟨i, hnext⟩

theorem prefix_of_resolve_names
    (hnames : ∀ segment ∈ segments, segment ≠ "" ∧ ¬ Path.IsReserved segment)
    (h : t.resolve start segments (some .directory) = some place) :
    start <+: place ∧ place.length = start.length + segments.length := by
  induction segments generalizing start with
  | nil =>
      cases h
      exact ⟨List.prefix_rfl, rfl⟩
  | cons name names ih =>
      obtain ⟨⟨hne, hname⟩, hmore⟩ := List.forall_mem_cons.mp hnames
      -- The path is cut behind its first name, which leads to a child.
      rw [resolve_directory_cons hne] at h
      obtain ⟨next, hnext, hrest⟩ := Option.bind_eq_some_iff.mp h
      obtain ⟨i, rfl⟩ := exists_of_resolve_name hne hname hnext
      obtain ⟨hpath, hlength⟩ := ih hmore hrest
      refine ⟨(List.prefix_append start [i]).trans hpath, ?_⟩
      rw [hlength, List.length_append, List.length_singleton, List.length_cons]
      omega

/-! ### Up -/

theorem resolve_above (h : t.isDirectory place = true) (kind? : Option Kind) :
    t.resolve place [Path.above] kind? = some place.dropLast := by
  have hne : ¬ (Path.above = "" ∧ kind? = some .directory) := fun hempty ↦ nomatch hempty.1
  rw [resolve_singleton, if_pos h, lastHop, if_neg hne, hop, if_neg (by decide), if_pos rfl]

/-- Behind a path to a directory, `..` leads one level up, whatever kind is asked for. -/
theorem resolve_concat_above (hs : t.isDirectory start = true) (hlast : segments.getLast? ≠ some "")
    (h : t.resolve start segments (some .directory) = some place) (kind? : Option Kind) :
    t.resolve start (segments ++ [Path.above]) kind? = some place.dropLast := by
  rw [resolve_append hlast (List.cons_ne_nil _ _), h, Option.bind_some,
    resolve_above (isDirectory_of_resolve hs h)]

theorem resolve_replicate_succ_above (h : t.isDirectory place = true) (m : Nat)
    (kind? : Option Kind) :
    t.resolve place (List.replicate (m + 1) Path.above) kind? =
      some (place.take (place.length - (m + 1))) := by
  induction m generalizing kind? with
  | zero => rw [List.replicate_one, resolve_above h, List.dropLast_eq_take]
  | succ m ih =>
      have hlast : (List.replicate (m + 1) Path.above).getLast? ≠ some "" := by
        rw [List.getLast?_replicate, if_neg (Nat.succ_ne_zero m)]
        decide
      rw [List.replicate_succ', resolve_concat_above h hlast (ih _), List.dropLast_eq_take,
        List.take_take, List.length_take]
      congr 2
      omega

/-- Going up `m` times leads past `m` nodes or to the root. -/
theorem resolve_replicate_above (h : t.isDirectory place = true) (m : Nat) :
    t.resolve place (List.replicate m Path.above) (some .directory) =
      some (place.take (place.length - m)) := by
  cases m with
  | zero => simp [resolve]
  | succ m => exact resolve_replicate_succ_above h m _

/-- From a directory that a path of `n` names leads to, `n` times `..` leads back to where the path
started. From a directory `k` levels below the root, `m` times `..` leads to the directory that is
`k - m` levels below the root on the way to it, or to the root, whatever kind is asked for. -/
theorem up_undoes_down (h : t.isDirectory place = true) :
    (∀ segments below, (∀ segment ∈ segments, segment ≠ "" ∧ ¬ Path.IsReserved segment) →
      t.resolve place segments (some .directory) = some below →
        t.resolve below (List.replicate segments.length Path.above) (some .directory) =
          some place) ∧
      ∀ m kind?, 1 ≤ m → ∃ above, above <+: place ∧ above.length = place.length - m ∧
        t.isDirectory above = true ∧
        t.resolve place (List.replicate m Path.above) kind? = some above := by
  refine ⟨?_, ?_⟩
  · intro segments below hnames hbelow
    obtain ⟨hpath, hlength⟩ := prefix_of_resolve_names hnames hbelow
    rw [resolve_replicate_above (isDirectory_of_resolve h hbelow), hlength, Nat.add_sub_cancel,
      ← List.prefix_iff_eq_take.mp hpath]
  · intro m kind? hm
    obtain ⟨m, rfl⟩ := Nat.exists_eq_add_of_le' hm
    refine ⟨_, List.take_prefix _ place, ?_, ?_, resolve_replicate_succ_above h m kind?⟩
    · rw [List.length_take]
      omega
    · exact isDirectory_of_resolve h (resolve_replicate_above h (m + 1))

/-- From `~/a` the path `b/c` leads down two levels and `../..` up again; four levels up from there
is the root, also if a text file is asked for. -/
theorem two_levels_down_and_up :
    let t : Tree := { entries := [.directory "a" [.directory "b" [.directory "c" []]]] }
    t.isDirectory [0] = true ∧ t.resolve [0] ["b", "c"] (some .directory) = some [0, 0, 0] ∧
      t.resolve [0, 0, 0] ["..", ".."] (some .directory) = some [0] ∧
      t.resolve [0, 0, 0] ["..", "..", "..", ".."] (some .text) = some [] := by
  intro t
  have hstart : t.isDirectory [0] = true := by decide
  have hend : t.isDirectory [0, 0, 0] = true := by decide
  have hdown : t.resolve [0] ["b", "c"] (some .directory) = some [0, 0, 0] := by decide
  have hback := (up_undoes_down hstart).1 ["b", "c"] [0, 0, 0] (by decide) hdown
  obtain ⟨above, -, hlength, -, hroot⟩ := (up_undoes_down hend).2 4 (some .text) (by decide)
  obtain rfl := List.eq_nil_of_length_eq_zero hlength
  exact ⟨hstart, hdown, hback, hroot⟩

end Tree

/-!
## The height of a tree

The height of a node is the length of the longest way down from it. No place below it is farther
down, and some place is as far.
-/

namespace Node

mutual

/-- The length of the longest way down from a node. -/
def height : Node → Nat
  | directory _ children => heights children
  | file _ _ _ => 0

def heights : List Node → Nat
  | [] => 0
  | n :: ns => max (n.height + 1) (heights ns)

end

theorem height_eq (n : Node) : n.height = heights n.children := by
  cases n <;> simp [height, children, heights]

theorem height_lt_heights {c : Node} {ns : List Node} (h : c ∈ ns) : c.height < heights ns := by
  induction ns with
  | nil => cases h
  | cons n ns ih =>
      rw [heights]
      rcases List.mem_cons.mp h with rfl | h
      · omega
      · have hlt := ih h
        omega

theorem exists_height_eq {ns : List Node} (h : ns ≠ []) :
    ∃ c ∈ ns, heights ns = c.height + 1 := by
  induction ns with
  | nil => exact absurd rfl h
  | cons n ns ih =>
      rw [heights]
      by_cases hlow : heights ns ≤ n.height + 1
      · exact ⟨n, List.mem_cons_self, Nat.max_eq_left hlow⟩
      · have hne : ns ≠ [] := by
          rintro rfl
          simp [heights] at hlow
        obtain ⟨c, hc, hheight⟩ := ih hne
        exact ⟨c, List.mem_cons_of_mem n hc, by omega⟩

theorem length_le_height {n m : Node} {place : Place} (h : n.at? place = some m) :
    place.length ≤ n.height := by
  induction place generalizing n with
  | nil => exact Nat.zero_le _
  | cons i place ih =>
      rw [at?_cons] at h
      obtain ⟨c, hc, hbelow⟩ := Option.bind_eq_some_iff.mp h
      have hle := ih hbelow
      have hlt := height_lt_heights (List.mem_of_getElem? hc)
      rw [height_eq, List.length_cons]
      omega

theorem exists_length_eq_height (n : Node) :
    ∃ place m, n.at? place = some m ∧ place.length = n.height := by
  generalize hheight : n.height = height
  induction height generalizing n with
  | zero => exact ⟨[], n, at?_nil n, rfl⟩
  | succ height ih =>
      rw [height_eq] at hheight
      have hne : n.children ≠ [] := by
        intro hnil
        simp [hnil, heights] at hheight
      obtain ⟨c, hc, hchild⟩ := exists_height_eq hne
      obtain ⟨i, hi⟩ := List.getElem?_of_mem hc
      obtain ⟨place, m, hm, hlength⟩ := ih c (by omega)
      exact ⟨i :: place, m, by rw [at?_cons, hi]; exact hm, by rw [List.length_cons, hlength]⟩

end Node

namespace Tree

def height (t : Tree) : Nat := t.root.height

variable {t : Tree} {place : Place} {h : Nat}

theorem length_le_height (hat : (t.at? place).isSome = true) : place.length ≤ t.height := by
  obtain ⟨m, hm⟩ := Option.isSome_iff_exists.mp hat
  exact Node.length_le_height hm

theorem height_le_iff :
    t.height ≤ h ↔ ∀ place, (t.at? place).isSome = true → place.length ≤ h := by
  constructor
  · intro hle place hat
    exact Nat.le_trans (length_le_height hat) hle
  · intro hall
    obtain ⟨place, m, hm, hlength⟩ := Node.exists_length_eq_height t.root
    rw [height, ← hlength]
    exact hall place (Option.isSome_iff_exists.mpr ⟨m, hm⟩)

end Tree

end TreeShell
