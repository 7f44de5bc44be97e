import TreeShell.Proofs.Tree.Lookup

/-!
# What making a node changes

A new node stands behind all nodes of its directory. Whether a path finds it afterwards depends on
the segment in front of its name: following a path stops at an empty segment there, making a node
does not. A name is taken where a node of that name and kind is already in the directory.
-/

namespace TreeShell

namespace Path

/-- A path whose directory is not written with a slash at its end: the segment in front of the
name, if there is one, is not empty. -/
def Plain (segments : List String) : Prop := segments.dropLast.getLast? ≠ some ""

instance (segments : List String) : Decidable (Plain segments) := by
  unfold Plain
  infer_instance

def lastName (segments : List String) : String := (splitLast segments).2

theorem lastName_eq_empty_iff {segments : List String} :
    lastName segments = "" ↔ segments.getLast? = none ∨ segments.getLast? = some "" := by
  rw [lastName, splitLast, List.getLastD_eq_getLast?]
  cases segments.getLast? <;> simp

end Path

@[simp] theorem Node.signature_blank (name : String) (kind : Kind) :
    (Node.blank name kind).signature = (name, kind) := by cases kind <;> rfl

@[simp] theorem Node.children_blank (name : String) (kind : Kind) :
    (Node.blank name kind).children = [] := by cases kind <;> rfl

namespace Tree

variable {t t' : Tree} {start place : Place} {segments : List String} {kind : Kind}

def Taken (t : Tree) (start : Place) (segments : List String) (kind : Kind) : Prop :=
  ∃ parent, t.parent? start segments = some parent ∧
    (Path.lastName segments, kind) ∈ t.signatures parent

def NamesAre (P : String → Prop) (t : Tree) : Prop :=
  ∀ place, ∀ sig ∈ t.signatures place, P sig.1

def SiblingsUnique (t : Tree) : Prop := ∀ place, (t.signatures place).Nodup

theorem create_eq (t : Tree) (start : Place) (segments : List String) (kind : Kind) :
    t.create start segments kind =
      match t.parent? start segments with
      | none => .error (.shell (.directoryNotFound (Path.join segments.dropLast)))
      | some parent =>
          if Path.lastName segments = "" then
            .error (.shell (.noSuchFile (Path.join segments) "bash"))
          else if t.isDirectory parent then
            .ok (t.extend parent [Node.blank (Path.lastName segments) kind],
              parent ++ [(t.children parent).length])
          else .error childless := rfl

theorem create_eq_ok_iff :
    t.create start segments kind = .ok (t', place) ↔
      ∃ parent, t.parent? start segments = some parent ∧ t.isDirectory parent = true ∧
        Path.lastName segments ≠ "" ∧
        t' = t.extend parent [Node.blank (Path.lastName segments) kind] ∧
        place = parent ++ [(t.children parent).length] := by
  rw [create_eq]
  cases hp : t.parent? start segments with
  | none => simp
  | some parent =>
      by_cases hn : Path.lastName segments = ""
      · simp [hn]
      · by_cases hd : t.isDirectory parent = true
        · simp only [hn, hd, if_true, if_false, Except.ok.injEq, Prod.mk.injEq,
            Option.some.injEq]
          constructor
          · rintro ⟨rfl, rfl⟩
            exact ⟨parent, rfl, hd, hn, rfl, rfl⟩
          · rintro ⟨q, rfl, -, -, rfl, rfl⟩
            exact ⟨rfl, rfl⟩
        · simp [hn, hd]

def Lost (t : Tree) (start : Place) (segments : List String) : Prop :=
  segments.dropLast ≠ [] ∧ t.resolve start segments.dropLast (some .directory) = none

instance (t : Tree) (start : Place) (segments : List String) :
    Decidable (t.Lost start segments) := by
  unfold Lost
  infer_instance

inductive Refusal (t : Tree) (start : Place) (segments : List String) : Failure → Prop
  | lost (h : t.Lost start segments) :
      Refusal t start segments (.shell (.directoryNotFound (Path.join segments.dropLast)))
  | nameless (found : ¬ t.Lost start segments)
      (h : segments.getLast? = none ∨ segments.getLast? = some "") :
      Refusal t start segments (.shell (.noSuchFile (Path.join segments) "bash"))

theorem parent?_eq_none_iff : t.parent? start segments = none ↔ t.Lost start segments := by
  rw [parent?_eq_resolve]
  refine ⟨fun h ↦ ⟨?_, h⟩, fun h ↦ h.2⟩
  intro hnil
  rw [hnil] at h
  cases h

/-- In a directory, making a node fails for two reasons only. -/
theorem create_eq_error_iff (hs : t.isDirectory start = true) {failure : Failure} :
    t.create start segments kind = .error failure ↔ t.Refusal start segments failure := by
  rw [create_eq]
  cases hp : t.parent? start segments with
  | none =>
      have hlost : t.Lost start segments := parent?_eq_none_iff.mp hp
      constructor
      · rintro ⟨⟩
        exact .lost hlost
      · rintro (- | ⟨hfound, -⟩)
        · rfl
        · exact absurd hlost hfound
  | some parent =>
      have hfound : ¬ t.Lost start segments := by
        rw [← parent?_eq_none_iff, hp]
        exact nofun
      have hd : t.isDirectory parent = true := isDirectory_of_parent? hs hp
      dsimp only
      split_ifs with hname
      · constructor
        · rintro ⟨⟩
          exact .nameless hfound (Path.lastName_eq_empty_iff.mp hname)
        · rintro (hlost | -)
          · exact absurd hlost hfound
          · rfl
      · refine iff_of_false nofun ?_
        rintro (hlost | ⟨-, hnone⟩)
        · exact hfound hlost
        · exact hname (Path.lastName_eq_empty_iff.mpr hnone)

theorem isDirectory_of_create (h : t.create start segments kind = .ok (t', place)) :
    t.isDirectory start = true := by
  obtain ⟨parent, hp, hd, -⟩ := create_eq_ok_iff.mp h
  rw [parent?_eq_resolve] at hp
  by_contra hs
  cases hsegments : segments.dropLast with
  | nil =>
      rw [hsegments] at hp
      cases hp
      exact hs hd
  | cons x xs =>
      rw [hsegments, resolve_of_not_isDirectory hs (List.cons_ne_nil x xs)] at hp
      cases hp

theorem signatures_extend {parent : Place} (h : t.isDirectory parent = true) {n : Node}
    (hn : n.children = []) (q : Place) :
    (t.extend parent [n]).signatures q =
      if q = parent then t.signatures parent ++ [n.signature] else t.signatures q := by
  apply List.ext_getElem?
  intro i
  rw [getElem?_signatures, signature?_extend h hn]
  by_cases hq : q = parent
  · subst hq
    rw [if_pos rfl]
    have hlen := length_signatures t q
    rcases Nat.lt_trichotomy i (t.children q).length with hi | rfl | hi
    · rw [if_neg (by simp; omega), List.getElem?_append_left (by omega), getElem?_signatures]
    · rw [if_pos rfl, ← hlen, List.getElem?_concat_length]
    · rw [if_neg (by simp; omega), ← getElem?_signatures, List.getElem?_eq_none (by omega),
        List.getElem?_eq_none (by simp; omega)]
  · rw [if_neg hq, getElem?_signatures, if_neg]
    intro heq
    exact hq (List.append_inj_left' heq rfl)

structure Made (t t' : Tree) (parent : Place) (name : String) (kind : Kind) (place : Place) :
    Prop where
  isDirectory : t.isDirectory parent = true
  name_ne : name ≠ ""
  place_eq : place = parent ++ [(t.children parent).length]
  signature? : ∀ q, t'.signature? q = if q = place then some (name, kind) else t.signature? q
  signatures : ∀ q, t'.signatures q =
    if q = parent then t.signatures parent ++ [(name, kind)] else t.signatures q

theorem made_of_create (h : t.create start segments kind = .ok (t', place)) :
    ∃ parent, t.parent? start segments = some parent ∧
      t.Made t' parent (Path.lastName segments) kind place := by
  obtain ⟨parent, hp, hd, hn, rfl, rfl⟩ := create_eq_ok_iff.mp h
  refine ⟨parent, hp, hd, hn, rfl, ?_, ?_⟩
  · intro q
    rw [signature?_extend hd (Node.children_blank _ _), Node.signature_blank]
  · intro q
    rw [signatures_extend hd (Node.children_blank _ _), Node.signature_blank]

namespace Made

variable {parent : Place} {name : String}

theorem signature?_place (h : t.Made t' parent name kind place) : t.signature? place = none := by
  rw [h.place_eq, ← getElem?_signatures, List.getElem?_eq_none (by simp)]

theorem isDirectory_eq (h : t.Made t' parent name kind place) (q : Place) :
    t'.isDirectory q = true ↔ t.isDirectory q = true ∨ (q = place ∧ kind = .directory) := by
  have hnew := h.signature?_place
  rw [Tree.isDirectory_iff, Tree.isDirectory_iff, h.signature?]
  by_cases hq : q = place
  · subst hq
    simp [hnew]
  · simp [hq]

theorem child? (h : t.Made t' parent name kind place) (q : Place) (other : String)
    (kind? : Option Kind) :
    t'.child? q other kind? =
      if q = parent ∧ answers other kind? (name, kind) = true then some place
      else t.child? q other kind? := by
  rw [child?_eq, child?_eq, h.signatures]
  by_cases hq : q = parent
  · subst hq
    rw [if_pos rfl, lastIndex?_append_singleton]
    by_cases ha : answers other kind? (name, kind) = true
    · simp [ha, h.place_eq]
    · simp [ha]
  · simp [hq]

/-- A node whose name was free leaves every path that led somewhere where it is. Only names of the
kinds that the path asks for matter. -/
theorem resolve_mono (h : t.Made t' parent name kind place) {start q : Place}
    {segments : List String} {k : Kind}
    (hfree : kind = .directory ∨ kind = k → (name, kind) ∉ t.signatures parent)
    (hr : t.resolve start segments (some k) = some q) :
    t'.resolve start segments (some k) = some q := by
  have hc (k' : Kind) (hk : kind = k' → (name, kind) ∉ t.signatures parent) (p : Place)
      (other : String) (r : Place) (hp : t.child? p other (some k') = some r) :
      t'.child? p other (some k') = some r := by
    rw [h.child?, if_neg, hp]
    rintro ⟨rfl, ha⟩
    obtain ⟨rfl, rfl⟩ := Prod.mk.inj (answers_some_iff.mp ha)
    rw [child?_eq_none_iff.mpr (hk rfl)] at hp
    exact absurd hp (by simp)
  exact Tree.resolve_mono (fun q hq ↦ (h.isDirectory_eq q).mpr (.inl hq))
    (hc .directory fun hk ↦ hfree (.inl hk)) (hc k fun hk ↦ hfree (.inr hk)) hr

/-- A path keeps its directory unless a new directory takes the place of another one. -/
theorem parent? (h : t.Made t' parent name kind place) {q : Place}
    (hfree : kind = .directory → (name, kind) ∉ t.signatures parent)
    (hp : t.parent? start segments = some q) : t'.parent? start segments = some q := by
  rw [parent?_eq_resolve] at hp ⊢
  exact h.resolve_mono (fun hk ↦ hfree (hk.elim id id)) hp

theorem isDirectory_parent (h : t.Made t' parent name kind place) :
    t'.isDirectory parent = true :=
  (h.isDirectory_eq parent).mpr (.inl h.isDirectory)

theorem siblingsUnique_iff (h : t.Made t' parent name kind place) (hu : t.SiblingsUnique) :
    t'.SiblingsUnique ↔ (name, kind) ∉ t.signatures parent := by
  constructor
  · intro hu' hmem
    have hp := hu' parent
    rw [h.signatures, if_pos rfl, List.nodup_append] at hp
    exact hp.2.2 _ hmem _ (by simp) rfl
  · intro hfree q
    rw [h.signatures]
    split_ifs
    · refine List.nodup_append.mpr ⟨hu parent, by simp, ?_⟩
      rintro a ha b hb rfl
      exact hfree (List.mem_singleton.mp hb ▸ ha)
    · exact hu q

theorem namesAre (h : t.Made t' parent name kind place) {P : String → Prop} (hn : t.NamesAre P)
    (hname : P name) : t'.NamesAre P := by
  intro q sig hsig
  rw [h.signatures] at hsig
  split_ifs at hsig
  · rcases List.mem_append.mp hsig with hsig | hsig
    · exact hn _ _ hsig
    · exact List.mem_singleton.mp hsig ▸ hname
  · exact hn _ _ hsig

end Made

/-! ## Paths that see their directory -/

theorem not_taken_of_resolve_eq_none (hne : segments ≠ []) (hplain : Path.Plain segments)
    (hnone : t.resolve start segments (some kind) = none)
    (h : t.create start segments kind = .ok (t', place)) : ¬ t.Taken start segments kind := by
  rintro ⟨parent, hp, hmem⟩
  obtain ⟨p, hp', hm⟩ := made_of_create h
  obtain rfl : parent = p := Option.some.inj (hp.symm.trans hp')
  rw [resolve_eq_bind_parent? hne hplain, hp, Option.bind_some, resolve_singleton,
    if_pos hm.isDirectory] at hnone
  have hname : segments.getLastD "" ≠ "" := hm.name_ne
  rw [lastHop, if_neg (fun h ↦ hname h.1), hop] at hnone
  split_ifs at hnone
  exact child?_eq_none_iff.mp hnone hmem

theorem resolve_eq_none_of_empty_mem (hn : t.NamesAre (· ≠ "")) {kind? : Option Kind}
    (h : "" ∈ segments.dropLast) : t.resolve start segments kind? = none := by
  induction segments generalizing start with
  | nil => simp at h
  | cons x xs ih =>
      cases xs with
      | nil => simp at h
      | cons y xs =>
          rw [List.dropLast_cons_of_ne_nil (by simp), List.mem_cons] at h
          rw [resolve_cons (by simp)]
          split_ifs
          · -- The empty segment is this one, or it stands further on.
            by_cases hx : x = ""
            · have hno : t.child? start "" (some .directory) = none :=
                child?_eq_none_iff.mpr fun hmem ↦ hn start _ hmem rfl
              simp [hx, hop, Path.here, Path.above, Path.home, hno]
            · have hy : "" ∈ (y :: xs).dropLast := h.resolve_left (Ne.symm hx)
              cases t.hop start x (some .directory) with
              | none => rfl
              | some place => exact ih hy
          · rfl

theorem resolve_eq_none_of_not_plain (hn : t.NamesAre (· ≠ "")) {kind? : Option Kind}
    (h : ¬ Path.Plain segments) : t.resolve start segments kind? = none :=
  resolve_eq_none_of_empty_mem hn (List.mem_of_getLast? (not_not.mp h))

end Tree

end TreeShell
