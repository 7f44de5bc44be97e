import Mathlib.Data.List.Basic
import Mathlib.Data.List.Induction
import TreeShell.Proofs.Tree.Create

/-!
# Nodes by their names

A name and a kind lead to the last child that has them. So the names on the way down to a node make
up a path that leads to it from everywhere, if they are ordinary and no later child of the same name
and kind stands in front of one of them. Where all names are ordinary and no directory has two
children of one name and kind, this holds of every node.
-/

namespace TreeShell

theorem Node.names_append {n m : Node} {p : Place} (h : n.at? p = some m) (q : Place) :
    n.names (p ++ q) = n.names p ++ m.names q := by
  induction p generalizing n with
  | nil =>
      cases h
      rfl
  | cons i p ih =>
      rw [at?_cons] at h
      obtain ⟨c, hc, hm⟩ := Option.bind_eq_some_iff.mp h
      simp [names, hc, ih hm]

namespace Tree

variable {t : Tree} {start place : Place} {name : String} {kind : Kind}

theorem hop_of_ordinary (hname : Path.IsOrdinary name) (kind? : Option Kind) :
    t.hop start name kind? = t.child? start name kind? := by
  obtain ⟨-, -, hhere, habove, hhome⟩ := hname
  rw [hop, if_neg hhere, if_neg habove, if_neg hhome]

theorem mem_signatures {i : Nat} {sig : String × Kind}
    (h : t.signature? (place ++ [i]) = some sig) : sig ∈ t.signatures place := by
  rw [← getElem?_signatures] at h
  exact List.mem_of_getElem? h

def IsLast (t : Tree) (place : Place) (i : Nat) : Prop :=
  ∀ j, i < j → t.signature? (place ++ [j]) ≠ t.signature? (place ++ [i])

theorem child?_of_isLast {i : Nat} (h : t.signature? (place ++ [i]) = some (name, kind))
    (hlast : t.IsLast place i) : t.child? place name (some kind) = some (place ++ [i]) := by
  cases hi : lastIndex? (answers name (some kind)) (t.signatures place) with
  | none =>
      have hno := lastIndex?_eq_none_iff.mp hi _ (mem_signatures h)
      rw [answers_some_iff.mpr rfl] at hno
      cases hno
  | some k =>
      obtain ⟨sig, hsig, ha⟩ := getElem?_of_lastIndex? hi
      obtain rfl := answers_some_iff.mp ha
      rw [getElem?_signatures] at hsig
      have hle : i ≤ k :=
        le_of_lastIndex? hi (by rw [getElem?_signatures, h]) (answers_some_iff.mpr rfl)
      have hge : ¬ i < k := fun hlt ↦ hlast k hlt (hsig.trans h.symm)
      rw [child?_eq, hi, Option.map_some, Nat.le_antisymm hle (Nat.le_of_not_lt hge)]

theorem isLast_of_siblingsUnique (hunique : t.SiblingsUnique) {i : Nat} {sig : String × Kind}
    (h : t.signature? (place ++ [i]) = some sig) : t.IsLast place i := by
  intro j hlt hsame
  rw [← getElem?_signatures] at h
  rw [← getElem?_signatures, ← getElem?_signatures] at hsame
  have hi : i < (t.signatures place).length := (List.getElem?_eq_some_iff.mp h).1
  have hij : i = j := (List.getElem?_inj hi (hunique place)).mp hsame.symm
  exact Nat.ne_of_lt hlt hij

theorem resolve_child_of_isLast {i : Nat} (hname : Path.IsOrdinary name)
    (h : t.signature? (place ++ [i]) = some (name, kind)) (hlast : t.IsLast place i) :
    t.resolve place [name] (some kind) = some (place ++ [i]) := by
  rw [resolve_singleton, if_pos (isDirectory_of_signature?_append h), lastHop,
    if_neg (fun hempty ↦ hname.1 hempty.1), hop_of_ordinary hname]
  exact child?_of_isLast h hlast

theorem resolve_child (hnames : t.NamesAre Path.IsOrdinary) (hunique : t.SiblingsUnique) {i : Nat}
    (h : t.signature? (place ++ [i]) = some (name, kind)) :
    t.resolve place [name] (some kind) = some (place ++ [i]) :=
  resolve_child_of_isLast (hnames place _ (mem_signatures h)) h
    (isLast_of_siblingsUnique hunique h)

/-- The node at a place and all nodes above it, except for the root, have ordinary names, and each
of them is the last of its name and kind in its directory. -/
def Foremost (t : Tree) (place : Place) : Prop :=
  ∀ above i, above ++ [i] <+: place →
    t.IsLast above i ∧ ∃ sig, t.signature? (above ++ [i]) = some sig ∧ Path.IsOrdinary sig.1

theorem foremost_nil (t : Tree) : t.Foremost [] := by
  intro above i h
  simp at h

theorem foremost_concat {i : Nat} : t.Foremost (place ++ [i]) ↔
    t.Foremost place ∧ t.IsLast place i ∧
      ∃ sig, t.signature? (place ++ [i]) = some sig ∧ Path.IsOrdinary sig.1 := by
  constructor
  · intro h
    refine ⟨fun above j hj ↦ h above j ?_, h place i List.prefix_rfl⟩
    exact hj.trans (List.prefix_append place [i])
  · rintro ⟨habove, hself⟩ above j hj
    rcases List.prefix_concat_iff.mp hj with heq | hprefix
    · obtain ⟨rfl, hij⟩ := List.append_inj' heq rfl
      cases hij
      exact hself
    · exact habove above j hprefix

theorem foremost_of_siblingsUnique (hnames : t.NamesAre Path.IsOrdinary)
    (hunique : t.SiblingsUnique) {sig : String × Kind} (h : t.signature? place = some sig) :
    t.Foremost place := by
  induction place using List.reverseRecOn generalizing sig with
  | nil => exact foremost_nil t
  | append_singleton above i ih =>
      obtain ⟨outer, houter⟩ := isDirectory_iff.mp (isDirectory_of_signature?_append h)
      exact foremost_concat.mpr ⟨ih houter, isLast_of_siblingsUnique hunique h, sig, h,
        hnames above sig (mem_signatures h)⟩

def address (t : Tree) (place : Place) : List String := Path.home :: t.root.names place

theorem address_concat {i : Nat} (h : t.signature? (place ++ [i]) = some (name, kind)) :
    t.address (place ++ [i]) = t.address place ++ [name] := by
  obtain ⟨m, hm, hsig⟩ := Option.map_eq_some_iff.mp h
  have hname : m.name = name := congrArg Prod.fst hsig
  rw [Node.at?_append] at hm
  obtain ⟨above, habove, hchild⟩ := Option.bind_eq_some_iff.mp hm
  have hlast : above.names [i] = [name] := by
    cases hc : above.children[i]? with
    | none => simp [Node.at?_cons, hc] at hchild
    | some c =>
        obtain rfl : c = m := by simpa [Node.at?_cons, hc] using hchild
        simp [Node.names, hc, hname]
  rw [address, Node.names_append habove, hlast]
  rfl

theorem getLast?_address_ne (h : t.Foremost place) : (t.address place).getLast? ≠ some "" := by
  rcases List.eq_nil_or_concat' place with rfl | ⟨above, i, rfl⟩
  · simp [address, Node.names, Path.home]
  · obtain ⟨-, -, ⟨name, kind⟩, hsig, hname⟩ := foremost_concat.mp h
    rw [address_concat hsig, List.getLast?_concat]
    exact fun hempty ↦ hname.1 (Option.some.inj hempty)

theorem resolve_address_of_foremost (hforemost : t.Foremost place)
    (hstart : t.isDirectory start = true) (h : t.signature? place = some (name, kind)) :
    t.resolve start (t.address place) (some kind) = some place := by
  induction place using List.reverseRecOn generalizing name kind with
  | nil =>
      cases h
      have hroot : Path.home ≠ "" ∧ Path.home ≠ Path.here ∧ Path.home ≠ Path.above := by decide
      rw [address, Node.names, resolve_singleton, if_pos hstart, lastHop,
        if_neg (fun hempty ↦ hroot.1 hempty.1), hop, if_neg hroot.2.1, if_neg hroot.2.2, if_pos rfl]
  | append_singleton above i ih =>
      obtain ⟨habove, hlast, sig, hsig, hname⟩ := foremost_concat.mp hforemost
      cases h.symm.trans hsig
      obtain ⟨outer, houter⟩ := isDirectory_iff.mp (isDirectory_of_signature?_append h)
      have hdirectory := ih habove houter
      have hchild := resolve_child_of_isLast hname h hlast
      rw [address_concat h, resolve_append (getLast?_address_ne habove) (by simp), hdirectory]
      exact hchild

/-- The address of a node leads to it from every directory. -/
theorem resolve_address (hnames : t.NamesAre Path.IsOrdinary) (hunique : t.SiblingsUnique)
    (hstart : t.isDirectory start = true) (h : t.signature? place = some (name, kind)) :
    t.resolve start (t.address place) (some kind) = some place :=
  resolve_address_of_foremost (foremost_of_siblingsUnique hnames hunique h) hstart h

/-! ## Addresses as texts -/

theorem separator_notMem_of_mem_address (h : t.Foremost place) :
    ∀ segment ∈ t.address place, Path.separator ∉ segment.toList := by
  induction place using List.reverseRecOn with
  | nil =>
      intro segment hmem
      cases List.mem_singleton.mp hmem
      decide
  | append_singleton above i ih =>
      obtain ⟨habove, -, ⟨name, kind⟩, hsig, hname⟩ := foremost_concat.mp h
      intro segment hmem
      rw [address_concat hsig] at hmem
      rcases List.mem_append.mp hmem with hmem | hmem
      · exact ih habove segment hmem
      · cases List.mem_singleton.mp hmem
        exact hname.2.1

/-- Where the root goes by the segment that leads to it, a path is an address written out. -/
theorem path_eq_join_address (hlabel : t.label = .text Path.home) (place : Place) :
    t.path place = .text (Path.join (t.address place)) := by
  rw [path, address, hlabel]
  cases t.root.names place with
  | nil => rfl
  | cons name names => rfl

theorem split_join_address (h : t.Foremost place) :
    Path.split (Path.join (t.address place)) = t.address place :=
  Text.split_join (List.cons_ne_nil _ _) (separator_notMem_of_mem_address h)

theorem join_address_ne (h : t.Foremost place) : Path.join (t.address place) ≠ "" := by
  intro hempty
  have hsplit := split_join_address h
  rw [hempty, address] at hsplit
  have hhead : "" = Path.home := congrArg (List.headD · "") hsplit
  exact absurd hhead (by decide)

theorem resolvePath_join_address (h : t.Foremost place) (hstart : t.isDirectory start = true)
    (hsig : t.signature? place = some (name, kind)) :
    t.resolvePath start (Path.join (t.address place)) (some kind) = some place := by
  rw [resolvePath, split_join_address h]
  exact resolve_address_of_foremost h hstart hsig

end Tree

end TreeShell
