import Mathlib.Data.List.Forall2
import Mathlib.Logic.Relation
import TreeShell.Proofs.Line
import TreeShell.Proofs.Tree.Create

/-!
# Growing trees

A tree grows if every node stays at its place with its name and kind, and if the lines of a file
stay unless its modification time is set. All that a session does to its tree is a sequence of
changes of five sorts, and each of them lets the tree grow.
-/

namespace TreeShell

variable {M : Mark → Prop}

namespace Node

inductive Persists (M : Mark → Prop) : Node → Node → Prop
  | directory (name : String) (children children' : List Node) :
      Persists M (.directory name children) (.directory name children')
  | touched (name : String) (lines lines' : List Line) {stamp stamp' : Nat} (h : stamp < stamp') :
      Persists M (.file name lines stamp) (.file name lines' stamp')
  | untouched (name : String) {lines lines' : List Line} (stamp : Nat)
      (h : List.Forall₂ (Line.Persists M) lines lines') :
      Persists M (.file name lines stamp) (.file name lines' stamp)

theorem Persists.refl (n : Node) : n.Persists M n := by
  cases n with
  | directory name children => exact .directory ..
  | file name lines stamp => exact .untouched name stamp (List.forall₂_same.mpr fun l _ ↦ .same l)

theorem forall₂_persists_trans {as bs cs : List Line} (h : List.Forall₂ (Line.Persists M) as bs)
    (h' : List.Forall₂ (Line.Persists M) bs cs) : List.Forall₂ (Line.Persists M) as cs := by
  induction h generalizing cs with
  | nil => exact h'
  | cons hab _ ih =>
      cases h' with
      | cons hbc hrest => exact .cons (hab.trans hbc) (ih hrest)

theorem Persists.trans {n n' n'' : Node} (h : n.Persists M n') (h' : n'.Persists M n'') :
    n.Persists M n'' := by
  cases h with
  | directory name cs cs' =>
      cases h' with
      | directory => exact .directory ..
  | touched name lines lines' hlt =>
      cases h' with
      | touched _ _ lines'' hlt' => exact .touched name lines lines'' (Nat.lt_trans hlt hlt')
      | untouched => exact .touched _ _ _ hlt
  | untouched name stamp hl =>
      cases h' with
      | touched _ _ lines'' hlt => exact .touched _ _ _ hlt
      | untouched _ _ hl' => exact .untouched name stamp (forall₂_persists_trans hl hl')

theorem Persists.signature_eq {n n' : Node} (h : n.Persists M n') : n'.signature = n.signature := by
  cases h <;> rfl

/-- Every node at or below `n` is at the same place at or below `n'`. -/
def Grows (M : Mark → Prop) (n n' : Node) : Prop :=
  ∀ place m, n.at? place = some m → ∃ m', n'.at? place = some m' ∧ m.Persists M m'

theorem Grows.refl (n : Node) : n.Grows M n := by
  intro place m hm
  exact ⟨m, hm, .refl m⟩

theorem Grows.trans {n n' n'' : Node} (h : n.Grows M n') (h' : n'.Grows M n'') : n.Grows M n'' := by
  intro place m hm
  obtain ⟨m', hm', hp⟩ := h place m hm
  obtain ⟨m'', hm'', hp'⟩ := h' place m' hm'
  exact ⟨m'', hm'', hp.trans hp'⟩

theorem grows_directory (name : String) {cs cs' : List Node}
    (h : ∀ (i : Nat) (c : Node), cs[i]? = some c → ∃ c', cs'[i]? = some c' ∧ c.Grows M c') :
    (directory name cs).Grows M (directory name cs') := by
  intro place m hm
  cases place with
  | nil =>
      cases hm
      exact ⟨_, at?_nil _, .directory name cs cs'⟩
  | cons i place =>
      rw [at?_cons, Option.bind_eq_some_iff] at hm
      obtain ⟨c, hc, hm⟩ := hm
      obtain ⟨c', hc', hg⟩ := h i c hc
      obtain ⟨m', hm', hp⟩ := hg place m hm
      exact ⟨m', by simpa [at?_cons, children, hc'] using hm', hp⟩

theorem grows_file (name : String) {lines lines' : List Line} {stamp stamp' : Nat}
    (h : (file name lines stamp).Persists M (file name lines' stamp')) :
    (file name lines stamp).Grows M (file name lines' stamp') := by
  intro place m hm
  cases place with
  | nil =>
      cases hm
      exact ⟨_, at?_nil _, h⟩
  | cons i place => simp [at?_cons, children] at hm

theorem grows_modify {f : Node → Node} (hf : ∀ m : Node, m.Grows M (f m)) (n : Node)
    (place : Place) : n.Grows M (n.modify f place) := by
  induction place generalizing n with
  | nil => exact hf n
  | cons i place ih =>
      cases n with
      | file name lines stamp => exact .refl _
      | directory name cs =>
          apply grows_directory
          intro j c hc
          rw [List.getElem?_modify, hc]
          by_cases hij : i = j
          · exact ⟨c.modify f place, by simp [hij], ih c⟩
          · exact ⟨c, by simp [hij], .refl c⟩

theorem grows_extend (more : List Node) (n : Node) : n.Grows M (n.extend more) := by
  cases n with
  | file name lines stamp => exact .refl _
  | directory name cs =>
      apply grows_directory
      intro i c hc
      refine ⟨c, ?_, .refl c⟩
      rw [List.getElem?_append_left (List.getElem?_eq_some_iff.mp hc).1, hc]

theorem grows_write (lines : List Line) (n : Node) : n.Grows M (n.write lines) := by
  cases n with
  | directory name cs => exact .refl _
  | file name old stamp => exact grows_file name (.touched name old lines (Nat.lt_succ_self stamp))

theorem grows_append (lines : List Line) (n : Node) : n.Grows M (n.append lines) := by
  cases n with
  | directory name cs => exact .refl _
  | file name old stamp => exact grows_file name (.touched name old _ (Nat.lt_succ_self stamp))

theorem grows_touch (n : Node) : n.Grows M n.touch := by
  cases n with
  | directory name cs => exact .refl _
  | file name lines stamp =>
      exact grows_file name (.touched name lines lines (Nat.lt_succ_self stamp))

theorem persists_mapLines_after {changed : Line} (h : changed.Within M) (n : Node) :
    n.Persists M (n.mapLines changed.after) := by
  cases n with
  | directory name cs => exact .directory ..
  | file name lines stamp =>
      refine .untouched name stamp ?_
      rw [List.forall₂_map_right_iff, List.forall₂_same]
      intro l _
      exact Line.persists_after h l

theorem grows_mapLines_after {changed : Line} (h : changed.Within M) (n : Node) :
    n.Grows M (n.mapLines changed.after) := by
  intro place m hm
  exact ⟨m.mapLines changed.after, by rw [at?_mapLines, hm, Option.map_some],
    persists_mapLines_after h m⟩

end Node

namespace Tree

variable {t t' : Tree}

def Grows (M : Mark → Prop) (t t' : Tree) : Prop := t.root.Grows M t'.root

namespace Grows

theorem refl (t : Tree) : t.Grows M t := Node.Grows.refl _

theorem trans {t'' : Tree} (h : t.Grows M t') (h' : t'.Grows M t'') : t.Grows M t'' :=
  Node.Grows.trans h h'

theorem signature? (h : t.Grows M t') {place : Place} {sig : String × Kind}
    (hs : t.signature? place = some sig) : t'.signature? place = some sig := by
  obtain ⟨m, hm, rfl⟩ := Option.map_eq_some_iff.mp hs
  obtain ⟨m', hm', hp⟩ := h place m hm
  exact Option.map_eq_some_iff.mpr ⟨m', hm', hp.signature_eq⟩

theorem isDirectory (h : t.Grows M t') {place : Place} (hd : t.isDirectory place = true) :
    t'.isDirectory place = true := by
  obtain ⟨name, hn⟩ := isDirectory_iff.mp hd
  exact isDirectory_iff.mpr ⟨name, h.signature? hn⟩

theorem signatures_prefix (h : t.Grows M t') (place : Place) :
    t.signatures place <+: t'.signatures place := by
  apply List.prefix_iff_getElem?.mpr
  intro i hi
  rw [getElem?_signatures]
  exact h.signature? (by rw [← getElem?_signatures, List.getElem?_eq_getElem hi])

theorem siblingsUnique (h : t.Grows M t') (hu : t'.SiblingsUnique) : t.SiblingsUnique :=
  fun place ↦ (hu place).sublist (h.signatures_prefix place).sublist

end Grows

theorem grows_modify {f : Node → Node} (hs : ∀ m, (f m).signature = m.signature)
    (hf : ∀ m : Node, m.Grows M (f m)) (t : Tree) (place : Place) :
    t.Grows M (t.modify place f) := by
  rw [Grows, root_modify hs]
  exact Node.grows_modify hf _ _

theorem grows_create {start place : Place} {segments : List String} {kind : Kind}
    (h : t.create start segments kind = .ok (t', place)) : t.Grows M t' := by
  obtain ⟨parent, -, -, -, rfl, -⟩ := create_eq_ok_iff.mp h
  exact grows_modify (Node.signature_extend _) (Node.grows_extend _) t parent

/-- One change of a tree by a session. `P` tells which nodes may be made where, `M` which lists may
be changed in place. -/
inductive Change (P : Tree → Place → List String → Kind → Prop) (M : Mark → Prop) :
    Tree → Tree → Prop
  | write (t : Tree) (place : Place) (lines : List Line) : Change P M t (t.write place lines)
  | append (t : Tree) (place : Place) (lines : List Line) : Change P M t (t.append place lines)
  | touch (t : Tree) (place : Place) : Change P M t (t.touch place)
  | share (t : Tree) {changed : Line} (h : changed.Within M) : Change P M t (t.after changed)
  | make {t t' : Tree} {start place : Place} {segments : List String} {kind : Kind}
      (allowed : P t start segments kind)
      (made : t.create start segments kind = .ok (t', place)) : Change P M t t'

abbrev Changes (P : Tree → Place → List String → Kind → Prop) (M : Mark → Prop) :
    Tree → Tree → Prop :=
  Relation.ReflTransGen (Change P M)

variable {P : Tree → Place → List String → Kind → Prop}

theorem Change.grows (h : Change P M t t') : t.Grows M t' := by
  cases h with
  | write place lines => exact grows_modify (Node.signature_write _) (Node.grows_write _) t place
  | append place lines => exact grows_modify (Node.signature_append _) (Node.grows_append _) t place
  | touch place => exact grows_modify Node.signature_touch Node.grows_touch t place
  | share hc =>
      rw [Grows, root_after]
      exact Node.grows_mapLines_after hc _
  | make _ made => exact grows_create made

theorem Changes.grows (h : Changes P M t t') : t.Grows M t' := by
  induction h with
  | refl => exact .refl t
  | tail _ hstep ih => exact ih.trans hstep.grows

theorem Changes.label (h : Changes P (fun _ ↦ False) t t') : t'.label = t.label := by
  induction h with
  | refl => rfl
  | tail _ hstep ih =>
      rw [← ih]
      cases hstep with
      | write place lines => rfl
      | append place lines => rfl
      | touch place => rfl
      | @share changed hc =>
          cases changed with
          | list mark items => exact (hc mark items rfl).elim
          | _ => rfl
      | make _ made =>
          obtain ⟨parent, -, -, -, rfl, -⟩ := create_eq_ok_iff.mp made
          rfl

/-- What holds of a tree still holds after changes if no change within files matters to it and every
node that may be made keeps it. -/
theorem Changes.preserves {I : Tree → Prop}
    (hsame : ∀ t t', t.SameNodes t' → I t → I t')
    (hmake : ∀ t t' start segments kind place, P t start segments kind →
      t.create start segments kind = .ok (t', place) → I t → I t')
    (h : Changes P M t t') (hi : I t) : I t' := by
  induction h with
  | refl => exact hi
  | tail _ hstep ih =>
      cases hstep with
      | write place lines => exact hsame _ _ (sameNodes_write _ place lines) ih
      | append place lines => exact hsame _ _ (sameNodes_append _ place lines) ih
      | touch place => exact hsame _ _ (sameNodes_touch _ place) ih
      | @share changed _ => exact hsame _ _ (sameNodes_after changed _) ih
      | make allowed made => exact hmake _ _ _ _ _ _ allowed made ih

end Tree

end TreeShell
