import Mathlib.Tactic.ByContra
import Mathlib.Tactic.Conv
import Mathlib.Tactic.SplitIfs
import TreeShell.Proofs.Tree.Signature

/-!
# Paths through a changing tree

A path is followed in two stages: to its directory and from there to its name. Both read nothing
but signatures, so a path that leads somewhere still leads there after the tree has gained a node
whose name was free.
-/

namespace TreeShell

theorem lastIndex?_map {α β : Type} (p : β → Bool) (f : α → β) (as : List α) :
    lastIndex? p (as.map f) = lastIndex? (p ∘ f) as := by
  induction as with
  | nil => rfl
  | cons a as ih => simp [lastIndex?, ih]

theorem lastIndex?_append_singleton {α : Type} (p : α → Bool) (as : List α) (a : α) :
    lastIndex? p (as ++ [a]) = if p a then some as.length else lastIndex? p as := by
  induction as with
  | nil => rfl
  | cons b as ih => by_cases h : p a = true <;> simp [lastIndex?, ih, h]

theorem le_of_lastIndex? {α : Type} {p : α → Bool} {as : List α} {i j : Nat} {a : α}
    (hi : lastIndex? p as = some i) (ha : as[j]? = some a) (hp : p a = true) : j ≤ i := by
  induction as generalizing i j with
  | nil => cases hi
  | cons b as ih =>
      cases j with
      | zero => omega
      | succ j =>
          rw [List.getElem?_cons_succ] at ha
          rw [lastIndex?] at hi
          cases hl : lastIndex? p as with
          | none =>
              have hno := lastIndex?_eq_none_iff.mp hl a (List.mem_of_getElem? ha)
              rw [hp] at hno
              cases hno
          | some k =>
              have hk := ih hl ha
              rw [hl] at hi
              cases hi
              omega

def answers (name : String) (kind? : Option Kind) (sig : String × Kind) : Bool :=
  sig.1 == name && (kind?.isNone || kind? == some sig.2)

theorem answers_some_iff {name : String} {kind : Kind} {sig : String × Kind} :
    answers name (some kind) sig = true ↔ sig = (name, kind) := by
  obtain ⟨n, k⟩ := sig
  simp only [answers, Option.isNone_some, Bool.false_or, Bool.and_eq_true, beq_iff_eq,
    Option.some.injEq, Prod.mk.injEq]
  exact and_congr_right fun _ ↦ eq_comm

namespace Tree

variable {t t' : Tree} {place start : Place} {kind? : Option Kind}

theorem child?_eq (t : Tree) (place : Place) (name : String) (kind? : Option Kind) :
    t.child? place name kind? =
      (lastIndex? (answers name kind?) (t.signatures place)).map fun i ↦ place ++ [i] := by
  rw [signatures, lastIndex?_map]
  rfl

theorem child?_eq_none_iff {name : String} {kind : Kind} :
    t.child? place name (some kind) = none ↔ (name, kind) ∉ t.signatures place := by
  rw [child?_eq, Option.map_eq_none_iff, lastIndex?_eq_none_iff]
  constructor
  · intro h hmem
    have hno := h _ hmem
    rw [answers_some_iff.mpr rfl] at hno
    exact absurd hno (by decide)
  · intro h sig hsig
    by_contra hn
    exact h (answers_some_iff.mp (by simpa using hn) ▸ hsig)

theorem signature?_of_child? {name : String} {q : Place} (h : t.child? place name kind? = some q) :
    ∃ i sig, q = place ++ [i] ∧ t.signature? q = some sig ∧ answers name kind? sig = true := by
  rw [child?_eq, Option.map_eq_some_iff] at h
  obtain ⟨i, hi, rfl⟩ := h
  obtain ⟨sig, hsig, ha⟩ := getElem?_of_lastIndex? hi
  exact ⟨i, sig, rfl, by rw [← getElem?_signatures, hsig], ha⟩

theorem isDirectory_of_child? {name : String} {q : Place}
    (h : t.child? place name (some .directory) = some q) : t.isDirectory q = true := by
  obtain ⟨i, sig, rfl, hsig, ha⟩ := signature?_of_child? h
  exact isDirectory_iff.mpr ⟨name, by rw [hsig, answers_some_iff.mp ha]⟩

/-! ## The two stages -/

theorem resolve_singleton (segment : String) :
    t.resolve start [segment] kind? =
      if t.isDirectory start then t.lastHop start segment kind? else none := by simp [resolve]

theorem resolve_cons {segment : String} {segments : List String} (h : segments ≠ []) :
    t.resolve start (segment :: segments) kind? =
      if t.isDirectory start then
        (t.hop start segment (some .directory)).bind fun place ↦ t.resolve place segments kind?
      else none := by
  cases segments with
  | nil => exact absurd rfl h
  | cons next more => rw [resolve]

theorem resolve_of_not_isDirectory {segments : List String} (hs : ¬ t.isDirectory start = true)
    (hne : segments ≠ []) : t.resolve start segments kind? = none := by
  cases segments with
  | nil => exact absurd rfl hne
  | cons x xs =>
      cases xs with
      | nil => rw [resolve_singleton, if_neg hs]
      | cons y ys => rw [resolve_cons (List.cons_ne_nil y ys), if_neg hs]

/-- A path can be cut behind any segment that is not empty. -/
theorem resolve_append {xs ys : List String} (hx : xs.getLast? ≠ some "") (hy : ys ≠ []) :
    t.resolve start (xs ++ ys) kind? =
      (t.resolve start xs (some .directory)).bind fun place ↦ t.resolve place ys kind? := by
  induction xs generalizing start with
  | nil => simp [resolve]
  | cons x xs ih =>
      rw [List.cons_append, resolve_cons (by simp [hy])]
      by_cases hd : t.isDirectory start = true
      · cases xs with
        | nil =>
            have hne : x ≠ "" := by simpa using hx
            simp [resolve_singleton, hd, lastHop, hne]
        | cons y xs =>
            have hih := fun place ↦ @ih place (by simpa using hx)
            simp only [hih, resolve_cons (List.cons_ne_nil y xs), hd, if_true]
            cases t.hop start x (some .directory) <;> rfl
      · cases xs with
        | nil => simp [resolve_singleton, hd]
        | cons y xs => simp [resolve_cons, hd]

theorem parent?_eq_resolve (t : Tree) (start : Place) (segments : List String) :
    t.parent? start segments = t.resolve start segments.dropLast (some .directory) := by
  unfold parent?
  split
  · rename_i h
    simp [h, resolve]
  · rfl

theorem resolve_eq_bind_parent? {segments : List String} (hne : segments ≠ [])
    (hx : segments.dropLast.getLast? ≠ some "") :
    t.resolve start segments kind? =
      (t.parent? start segments).bind fun place ↦
        t.resolve place [segments.getLastD ""] kind? := by
  have hcut : segments.dropLast ++ [segments.getLastD ""] = segments := Path.append_splitLast hne
  -- Only the path on the left is cut; on the right its parts stand already.
  conv_lhs => rw [← hcut]
  rw [resolve_append hx (by simp), parent?_eq_resolve]

/-! ## Directories -/

theorem isDirectory_of_hop {segment : String} {q : Place} (hs : t.isDirectory start = true)
    (h : t.hop start segment (some .directory) = some q) : t.isDirectory q = true := by
  unfold hop at h
  split_ifs at h
  · cases h
    exact hs
  · cases h
    exact isDirectory_dropLast hs
  · cases h
    exact isDirectory_nil t
  · exact isDirectory_of_child? h

theorem isDirectory_of_resolve {segments : List String} {q : Place}
    (hs : t.isDirectory start = true)
    (h : t.resolve start segments (some .directory) = some q) : t.isDirectory q = true := by
  induction segments generalizing start with
  | nil =>
      simp only [resolve, if_true, Option.some.injEq] at h
      exact h ▸ hs
  | cons x xs ih =>
      cases xs with
      | nil =>
          simp only [resolve_singleton, hs, if_true, lastHop] at h
          split_ifs at h
          · cases h
            exact hs
          · exact isDirectory_of_hop hs h
      | cons y xs =>
          simp only [resolve_cons (List.cons_ne_nil y xs), hs, if_true,
            Option.bind_eq_some_iff] at h
          obtain ⟨place, hhop, hrest⟩ := h
          exact ih (isDirectory_of_hop hs hhop) hrest

/-- A path can be followed in two stages, if the first does not end in an empty segment. It leads
to a directory, from which the second leads where the whole path does, or the path leads nowhere. -/
theorem resolve_in_two_stages (hs : t.isDirectory start = true) {xs ys : List String}
    (hx : xs.getLast? ≠ some "") (hy : ys ≠ []) (kind? : Option Kind) :
    (∀ d, t.resolve start xs (some .directory) = some d →
      t.isDirectory d = true ∧ t.resolve start (xs ++ ys) kind? = t.resolve d ys kind?) ∧
      (t.resolve start xs (some .directory) = none →
        t.resolve start (xs ++ ys) kind? = none) := by
  refine ⟨?_, ?_⟩
  · intro d hd
    exact ⟨isDirectory_of_resolve hs hd, by rw [resolve_append hx hy, hd, Option.bind_some]⟩
  · intro hnone
    rw [resolve_append hx hy, hnone, Option.bind_none]

/-- From `~/a/b` the path `../../a/c` leads where `a/c` leads from the root, and a path through the
file `../c` leads nowhere. -/
theorem two_stages_from_below :
    let t : Tree := { entries := [.directory "a" [.directory "b" [], .file "c" [] 0]] }
    t.isDirectory [0, 0] = true ∧
      t.resolve [0, 0] ["..", "..", "a", "c"] none = t.resolve [] ["a", "c"] none ∧
      t.resolve [0, 0] ["..", "c", "~"] none = none := by
  intro t
  have hstart : t.isDirectory [0, 0] = true := by decide
  have hup : ["..", ".."].getLast? ≠ some "" := by decide
  have hfile : ["..", "c"].getLast? ≠ some "" := by decide
  have hroot :=
    (resolve_in_two_stages hstart hup (List.cons_ne_nil "a" ["c"]) none).1 [] (by decide)
  have hnone := (resolve_in_two_stages hstart hfile (List.cons_ne_nil "~" []) none).2 (by decide)
  exact ⟨hstart, hroot.2, hnone⟩

theorem isDirectory_of_parent? {segments : List String} {parent : Place}
    (hs : t.isDirectory start = true) (hp : t.parent? start segments = some parent) :
    t.isDirectory parent = true := by
  rw [parent?_eq_resolve] at hp
  exact isDirectory_of_resolve hs hp

theorem isDirectory_of_resolvePath {path : String} {q : Place}
    (h : t.resolvePath start path (some .directory) = some q) : t.isDirectory q = true := by
  by_cases hs : t.isDirectory start = true
  · exact isDirectory_of_resolve hs h
  · rw [resolvePath, resolve_of_not_isDirectory hs (Path.split_ne_nil path)] at h
    cases h

/-! ## Comparing two trees -/

section Mono

variable (hd : ∀ q, t.isDirectory q = true → t'.isDirectory q = true)
  (hc : ∀ q name r, t.child? q name (some .directory) = some r →
    t'.child? q name (some .directory) = some r)
  (hk : ∀ q name r, t.child? q name kind? = some r → t'.child? q name kind? = some r)

include hk in
theorem hop_mono {segment : String} {q : Place} (h : t.hop start segment kind? = some q) :
    t'.hop start segment kind? = some q := by
  unfold hop at h ⊢
  split_ifs at h ⊢ <;> first | exact h | exact hk _ _ _ h

include hd hc hk in
/-- What a path leads to it still leads to in a tree that has the same directories and children,
and maybe more. -/
theorem resolve_mono {segments : List String} {q : Place}
    (h : t.resolve start segments kind? = some q) :
    t'.resolve start segments kind? = some q := by
  induction segments generalizing start with
  | nil => exact h
  | cons x xs ih =>
      by_cases hs : t.isDirectory start = true
      · cases xs with
        | nil =>
            simp only [resolve_singleton, hs, hd _ hs, if_true, lastHop] at h ⊢
            split_ifs at h ⊢
            · exact h
            · exact hop_mono hk h
        | cons y xs =>
            simp only [resolve_cons (List.cons_ne_nil y xs), hs, hd _ hs, if_true,
              Option.bind_eq_some_iff] at h ⊢
            obtain ⟨place, hhop, hrest⟩ := h
            exact ⟨place, hop_mono hc hhop, ih hrest⟩
      · cases xs <;> simp [resolve, hs] at h

end Mono

theorem resolve_congr (hd : ∀ q, t'.isDirectory q = t.isDirectory q)
    (hc : ∀ q name, t'.child? q name (some .directory) = t.child? q name (some .directory))
    (hk : ∀ q name, t'.child? q name kind? = t.child? q name kind?)
    (start : Place) (segments : List String) :
    t'.resolve start segments kind? = t.resolve start segments kind? := by
  apply Option.ext
  intro q
  constructor
  · intro h
    exact resolve_mono (fun q h ↦ (hd q) ▸ h) (fun q name r h ↦ (hc q name) ▸ h)
      (fun q name r h ↦ (hk q name) ▸ h) h
  · intro h
    exact resolve_mono (fun q h ↦ (hd q).symm ▸ h) (fun q name r h ↦ (hc q name).symm ▸ h)
      (fun q name r h ↦ (hk q name).symm ▸ h) h

/-- Two trees have the same nodes, whatever stands in their files. -/
def SameNodes (t t' : Tree) : Prop := ∀ place, t'.signature? place = t.signature? place

namespace SameNodes

theorem refl (t : Tree) : t.SameNodes t := fun _ ↦ rfl

theorem trans {t'' : Tree} (h : t.SameNodes t') (h' : t'.SameNodes t'') : t.SameNodes t'' :=
  fun place ↦ (h' place).trans (h place)

theorem symm (h : t.SameNodes t') : t'.SameNodes t := fun place ↦ (h place).symm

theorem signatures (h : t.SameNodes t') (place : Place) :
    t'.signatures place = t.signatures place := by
  apply List.ext_getElem?
  intro i
  rw [getElem?_signatures, getElem?_signatures, h]

theorem isDirectory (h : t.SameNodes t') (place : Place) :
    t'.isDirectory place = t.isDirectory place := by
  rw [Bool.eq_iff_iff, isDirectory_iff, isDirectory_iff, h]

theorem child? (h : t.SameNodes t') (place : Place) (name : String) (kind? : Option Kind) :
    t'.child? place name kind? = t.child? place name kind? := by
  rw [child?_eq, child?_eq, h.signatures]

theorem resolve (h : t.SameNodes t') (start : Place) (segments : List String)
    (kind? : Option Kind) :
    t'.resolve start segments kind? = t.resolve start segments kind? :=
  resolve_congr h.isDirectory (fun q name ↦ h.child? q name _) (fun q name ↦ h.child? q name _) _ _

theorem names (h : t.SameNodes t') (place : Place) :
    t'.root.names place = t.root.names place :=
  Node.names_congr h place

theorem path (h : t.SameNodes t') (hlabel : t'.label = t.label) (place : Place) :
    t'.path place = t.path place := by
  rw [Tree.path, Tree.path, h.names, hlabel]

end SameNodes

theorem sameNodes_write (t : Tree) (place : Place) (lines : List Line) :
    t.SameNodes (t.write place lines) := fun _ ↦ signature?_write ..

theorem sameNodes_append (t : Tree) (place : Place) (lines : List Line) :
    t.SameNodes (t.append place lines) := fun _ ↦ signature?_append ..

theorem sameNodes_touch (t : Tree) (place : Place) : t.SameNodes (t.touch place) :=
  fun _ ↦ signature?_touch ..

theorem sameNodes_after (changed : Line) (t : Tree) : t.SameNodes (t.after changed) :=
  fun _ ↦ signature?_after ..

end Tree

end TreeShell
