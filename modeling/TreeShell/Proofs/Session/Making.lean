import TreeShell.Proofs.Session.Frame
import TreeShell.Proofs.Tree.Contents

/-!
# A node is made or nothing is changed

What keeps a node from being made is found out before anything is changed. A node that is made
stands behind the other nodes of its directory and changes none of them. If its name was free, no
path that led to a directory or to a text file leads elsewhere, and a change within a file is seen
by no path at all.
-/

namespace TreeShell

namespace Tree

variable {t t' : Tree} {start place : Place} {segments : List String} {kind : Kind}

/-- A tree has gained one node, as the last child of a directory, and is otherwise what it was. -/
structure Gains (t t' : Tree) (parent : Place) (n : Node) (place : Place) : Prop where
  label : t'.label = t.label
  isNew : t.at? place = none
  place_eq : place = parent ++ [(t.children parent).length]
  children : t'.children parent = t.children parent ++ [n]
  others : ∀ q, q ≠ place → (t'.at? q).map Node.own = (t.at? q).map Node.own

theorem children_extend {parent : Place} (h : t.isDirectory parent = true) (more : List Node) :
    (t.extend parent more).children parent = t.children parent ++ more := by
  rw [children, extend, at?_modify_self (Node.signature_extend more), children]
  unfold isDirectory at h
  cases hm : t.at? parent with
  | none => simp [hm] at h
  | some m =>
      rw [hm] at h
      exact Node.children_extend h more

theorem gains_of_create (h : t.create start segments kind = .ok (t', place)) :
    ∃ parent, t.resolve start segments.dropLast (some .directory) = some parent ∧
      t.Gains t' parent (Node.blank (Path.lastName segments) kind) place := by
  obtain ⟨_, _, hm⟩ := made_of_create h
  have hnew : t.at? place = none := Option.map_eq_none_iff.mp hm.signature?_place
  obtain ⟨parent, hp, hd, hn, rfl, rfl⟩ := create_eq_ok_iff.mp h
  rw [parent?_eq_resolve] at hp
  refine ⟨parent, hp, rfl, hnew, rfl, children_extend hd _, ?_⟩
  intro q hq
  rw [map_at?_extend (fun _ _ _ ↦ rfl) hd (Node.children_blank _ _), if_neg hq]

theorem SameNodes.resolve_eq (h : t.SameNodes t') : t'.resolve = t.resolve := by
  funext start segments kind?
  exact h.resolve start segments kind?

end Tree

namespace Session

variable {s s' : Session} {start : Place} {segments : List String} {kind : Kind}

/-- A session has asked for a node at a path, for a command, for a redirect or for a text that the
editor saves for the first time. -/
inductive AsksFor (s : Session) (start : Place) (segments : List String) : Kind → Session → Prop
  | command (kind : Kind) (here : s.cwd = start) :
      AsksFor s start segments kind (s.make segments kind).1
  | redirect (path : String) (here : s.cwd = start) (written : Path.split path = segments) :
      AsksFor s start segments .text (s.redirectTarget path).1
  | editor (e : Editor) (unsaved : e.file = none) (opened : e.home = start)
      (named : e.segments = segments) : AsksFor s start segments .text (s.save e).1

theorem create_of_error {failure : Failure}
    (h : s.tree.create start segments kind = .error failure) :
    s.create start segments kind = .error failure := by
  rw [create, h]

theorem AsksFor.tree_eq {failure : Failure} (h : s.AsksFor start segments kind s')
    (hc : s.tree.create start segments kind = .error failure) : s'.tree = s.tree := by
  have hcreate := create_of_error hc
  cases h with
  | command kind here =>
      subst here
      rw [make, hcreate]
      cases failure <;> rfl
  | redirect path here written =>
      subst here written
      unfold redirectTarget
      split
      · rfl
      · split_ifs
        · rfl
        · rw [hcreate]
          cases failure <;> rfl
  | editor e unsaved opened named =>
      subst opened named
      rw [save, fileFor, unsaved, hcreate]
      cases failure <;> rfl

/-- In a directory a node is not made for two reasons only, and then no session that asked for it
has changed its tree. Otherwise the directory of the path gains the node, behind its other children,
and the tree is as it was apart from that. If the name was free for the kind, all paths to
directories and to text files lead where they led. Writing to a file, also at its end, and touching
it changes nothing for any path. -/
theorem making_is_atomic {t : Tree} (h : t.isDirectory start = true) (segments : List String)
    (kind : Kind) :
    (∀ failure, t.create start segments kind = .error failure ↔ t.Refusal start segments failure) ∧
      (∀ failure, t.create start segments kind = .error failure →
        ∀ s s' : Session, s.tree = t → s.AsksFor start segments kind s' → s'.tree = t) ∧
      (∀ t' place, t.create start segments kind = .ok (t', place) →
        ∃ parent, t.resolve start segments.dropLast (some .directory) = some parent ∧
          t.Gains t' parent (Node.blank (Path.lastName segments) kind) place ∧
          ((Path.lastName segments, kind) ∉ t.signatures parent →
            ∀ base path asked q, t.resolve base path (some asked) = some q →
              t'.resolve base path (some asked) = some q)) ∧
      ∀ place lines, (t.write place lines).resolve = t.resolve ∧
        (t.append place lines).resolve = t.resolve ∧ (t.touch place).resolve = t.resolve := by
  refine ⟨fun failure ↦ Tree.create_eq_error_iff h, ?_, ?_, ?_⟩
  · rintro failure hc s s' rfl hasks
    exact hasks.tree_eq hc
  · intro t' place hc
    obtain ⟨parent, hp, hgains⟩ := Tree.gains_of_create hc
    refine ⟨parent, hp, hgains, ?_⟩
    intro hfree base path asked q hq
    obtain ⟨parent', hp', hm⟩ := Tree.made_of_create hc
    rw [Tree.parent?_eq_resolve, hp] at hp'
    cases hp'
    exact hm.resolve_mono (fun _ ↦ hfree) hq
  · intro place lines
    exact ⟨(Tree.sameNodes_write t place lines).resolve_eq,
      (Tree.sameNodes_append t place lines).resolve_eq, (Tree.sameNodes_touch t place).resolve_eq⟩

/-- In a tree with the file `a/f`, nothing can be made at `b/g` and `a/`, and a file made at `a/g`
leaves `a/f` where it is. -/
theorem refused_nodes_and_made_node :
    let t : Tree := { entries := [.directory "a" [.file "f" [] 1]] }
    let s := ofTree t {}
    t.isDirectory [] = true ∧
      t.create [] ["b", "g"] .text = .error (.shell (.directoryNotFound "b")) ∧
      t.create [] ["a", ""] .text = .error (.shell (.noSuchFile "a/" "bash")) ∧
      (s.redirectTarget "a/").1.tree = t ∧ (t.touch [0, 0]).resolve = t.resolve ∧
      ∃ t', t.create [] ["a", "g"] .text = .ok (t', [0, 1]) ∧
        t'.children [0] = [.file "f" [] 1, .file "g" [] 1] ∧
        t'.resolve [0] ["..", "a", "f"] (some .text) = some [0, 0] := by
  intro t s
  have hroot : t.isDirectory [] = true := by decide
  have hlost := ((making_is_atomic hroot ["b", "g"] .text).1 _).mpr (.lost (by decide +kernel))
  have hnameless := ((making_is_atomic hroot ["a", ""] .text).1 _).mpr
    (.nameless (by decide +kernel) (by decide))
  have hkept := (making_is_atomic hroot ["a", ""] .text).2.1 _ hnameless s _ rfl
    (.redirect "a/" rfl (by decide))
  obtain ⟨-, -, hmade, hwritten⟩ := making_is_atomic hroot ["a", "g"] .text
  obtain ⟨t', hc⟩ : ∃ t', t.create [] ["a", "g"] .text = .ok (t', [0, 1]) :=
    ⟨_, Tree.create_eq_ok_iff.mpr
      ⟨[0], by decide +kernel, by decide, by decide, rfl, by decide⟩⟩
  obtain ⟨parent, hp, hgains, hfree⟩ := hmade t' [0, 1] hc
  obtain rfl : parent = [0] := by
    have hresolve : t.resolve [] ["a"] (some .directory) = some [0] := by decide +kernel
    exact Option.some.inj (hp.symm.trans hresolve)
  have hfound := hfree (by decide) [0] ["..", "a", "f"] .text [0, 0] (by decide +kernel)
  exact ⟨hroot, hlost, hnameless, hkept, (hwritten [0, 0] []).2.2, t', hc, hgains.children, hfound⟩

end Session

end TreeShell
