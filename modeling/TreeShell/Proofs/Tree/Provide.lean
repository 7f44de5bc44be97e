import TreeShell.Proofs.Tree.Growth

/-!
# Making a node where there is none

Commands look a path up before they make a node at it. At a plain path the look-up finds what was
made there before, so that doing it again does nothing. At any other path it finds nothing, and
doing it again makes another node, unless the first one hides a directory on the way.
-/

namespace TreeShell

namespace Tree

variable {t t' u u' : Tree} {start place : Place} {segments : List String} {kind : Kind}

theorem SameNodes.parent? (h : t.SameNodes t') (start : Place) (segments : List String) :
    t'.parent? start segments = t.parent? start segments := by
  rw [parent?_eq_resolve, parent?_eq_resolve, h.resolve]

theorem SameNodes.create (h : t.SameNodes t') (hc : t.create start segments kind = .ok (u, place)) :
    ∃ u', t'.create start segments kind = .ok (u', place) ∧ u.SameNodes u' := by
  obtain ⟨parent, hp, hd, hn, rfl, rfl⟩ := create_eq_ok_iff.mp hc
  have hd' : t'.isDirectory parent = true := by rwa [h.isDirectory]
  have hlen : (t'.children parent).length = (t.children parent).length := by
    rw [← length_signatures, ← length_signatures, h.signatures]
  refine ⟨t'.extend parent [Node.blank (Path.lastName segments) kind], ?_, ?_⟩
  · exact create_eq_ok_iff.mpr ⟨parent, by rwa [h.parent?], hd', hn, rfl, by rw [hlen]⟩
  · intro q
    rw [signature?_extend hd (Node.children_blank _ _),
      signature?_extend hd' (Node.children_blank _ _), hlen, h q]

theorem siblingsUnique_create_iff (hu : t.SiblingsUnique)
    (hc : t.create start segments kind = .ok (t', place)) :
    t'.SiblingsUnique ↔ ¬ t.Taken start segments kind := by
  obtain ⟨parent, hp, hm⟩ := made_of_create hc
  rw [hm.siblingsUnique_iff hu, not_iff_not]
  constructor
  · exact fun hmem ↦ ⟨parent, hp, hmem⟩
  · rintro ⟨parent', hp', hmem⟩
    obtain rfl : parent = parent' := Option.some.inj (hp.symm.trans hp')
    exact hmem

theorem namesAre_create (hn : t.NamesAre (· ≠ ""))
    (hc : t.create start segments kind = .ok (t', place)) : t'.NamesAre (· ≠ "") := by
  obtain ⟨parent, -, hm⟩ := made_of_create hc
  exact hm.namesAre hn hm.name_ne

/-- The tree with a node at a path. Nothing is made if the path leads to a node of one of the kinds
`found`, or if nothing can be made there. -/
def provide (found : List Kind) (t : Tree) (start : Place) (segments : List String)
    (kind : Kind) : Tree :=
  if found.any fun k ↦ (t.resolve start segments (some k)).isSome then t
  else
    match t.create start segments kind with
    | .ok (t', _) => t'
    | .error _ => t

variable {found : List Kind}

theorem provide_of_resolve {k : Kind} (hk : k ∈ found)
    (h : (t.resolve start segments (some k)).isSome = true) :
    t.provide found start segments kind = t := by
  have hany : (found.any fun k ↦ (t.resolve start segments (some k)).isSome) = true :=
    List.any_eq_true.mpr ⟨k, hk, h⟩
  rw [provide, if_pos hany]

theorem provide_of_create (h : ∀ k ∈ found, t.resolve start segments (some k) = none)
    (hc : t.create start segments kind = .ok (t', place)) :
    t.provide found start segments kind = t' := by
  have hany : ¬ (found.any fun k ↦ (t.resolve start segments (some k)).isSome) = true := by
    simpa using h
  rw [provide, if_neg hany, hc]

theorem provide_of_error {e : Failure} (hc : t.create start segments kind = .error e) :
    t.provide found start segments kind = t := by
  rw [provide]
  split
  · rfl
  · rw [hc]

theorem provide_cases (found : List Kind) (t : Tree) (start : Place) (segments : List String)
    (kind : Kind) :
    t.provide found start segments kind = t ∨
      (∀ k ∈ found, t.resolve start segments (some k) = none) ∧
        ∃ place, t.create start segments kind =
          .ok (t.provide found start segments kind, place) := by
  by_cases h : ∀ k ∈ found, t.resolve start segments (some k) = none
  · cases hc : t.create start segments kind with
    | error e => exact .inl (provide_of_error hc)
    | ok made =>
        obtain ⟨t', place⟩ := made
        rw [provide_of_create h hc]
        exact .inr ⟨h, place, rfl⟩
  · rw [not_forall₂] at h
    obtain ⟨k, hk, hr⟩ := h
    exact .inl (provide_of_resolve hk (Option.isSome_iff_ne_none.mpr hr))

theorem SameNodes.provide (h : t.SameNodes t') :
    (t.provide found start segments kind).SameNodes (t'.provide found start segments kind) := by
  rcases provide_cases found t start segments kind with ht | ⟨hnone, place, hc⟩
  · rcases provide_cases found t' start segments kind with ht' | ⟨hnone', place', hc'⟩
    · rwa [ht, ht']
    · obtain ⟨u, hu, hsame⟩ := h.symm.create hc'
      have hfree : ∀ k ∈ found, t.resolve start segments (some k) = none :=
        fun k hk ↦ (h.resolve start segments (some k)).symm.trans (hnone' k hk)
      rw [provide_of_create hfree hu]
      exact hsame.symm
  · obtain ⟨u', hu', hsame⟩ := h.create hc
    have hfree : ∀ k ∈ found, t'.resolve start segments (some k) = none :=
      fun k hk ↦ (h.resolve start segments (some k)).trans (hnone k hk)
    rwa [provide_of_create hfree hu']

theorem not_sameNodes_of_create (hc : t.create start segments kind = .ok (t', place)) :
    ¬ t.SameNodes t' := by
  intro h
  obtain ⟨parent, -, hm⟩ := made_of_create hc
  have hplace := h place
  rw [hm.signature?, if_pos rfl, hm.signature?_place] at hplace
  cases hplace

theorem provide_eq_self_iff :
    t.provide found start segments kind = t ↔
      t.SameNodes (t.provide found start segments kind) := by
  constructor
  · intro h
    rw [h]
    exact .refl t
  · intro h
    rcases provide_cases found t start segments kind with ht | ⟨-, place, hc⟩
    · exact ht
    · exact absurd h (not_sameNodes_of_create hc)

theorem namesAre_provide (hn : t.NamesAre (· ≠ "")) :
    (t.provide found start segments kind).NamesAre (· ≠ "") := by
  rcases provide_cases found t start segments kind with ht | ⟨-, place, hc⟩
  · rwa [ht]
  · exact namesAre_create hn hc

theorem grows_provide (M : Mark → Prop) (found : List Kind) (t : Tree) (start : Place)
    (segments : List String) (kind : Kind) :
    t.Grows M (t.provide found start segments kind) := by
  rcases provide_cases found t start segments kind with ht | ⟨-, place, hc⟩
  · rw [ht]
    exact .refl t
  · exact grows_create hc

theorem lastName_ordinary (hne : segments ≠ []) (hplain : Path.Plain segments)
    (hnone : t.resolve start segments (some kind) = none)
    (hc : t.create start segments kind = .ok (t', place)) :
    Path.lastName segments ≠ Path.here ∧ Path.lastName segments ≠ Path.above ∧
      Path.lastName segments ≠ Path.home := by
  obtain ⟨parent, hp, hm⟩ := made_of_create hc
  rw [resolve_eq_bind_parent? hne hplain, hp, Option.bind_some, resolve_singleton,
    if_pos hm.isDirectory, lastHop, if_neg (fun h ↦ hm.name_ne h.1), hop] at hnone
  split_ifs at hnone with h₁ h₂ h₃
  exact ⟨h₁, h₂, h₃⟩

theorem resolve_of_create (hne : segments ≠ []) (hplain : Path.Plain segments)
    (hnone : t.resolve start segments (some kind) = none)
    (hc : t.create start segments kind = .ok (t', place)) :
    t'.resolve start segments (some kind) = some place := by
  obtain ⟨parent, hp, hm⟩ := made_of_create hc
  have hfree : (Path.lastName segments, kind) ∉ t.signatures parent :=
    fun hmem ↦ not_taken_of_resolve_eq_none hne hplain hnone hc ⟨parent, hp, hmem⟩
  have hp' : t'.parent? start segments = some parent := hm.parent? (fun _ ↦ hfree) hp
  obtain ⟨h₁, h₂, h₃⟩ := lastName_ordinary hne hplain hnone hc
  have hhop : t'.hop parent (Path.lastName segments) (some kind) = some place := by
    rw [hop, if_neg h₁, if_neg h₂, if_neg h₃, hm.child?,
      if_pos ⟨rfl, answers_some_iff.mpr rfl⟩]
  rw [resolve_eq_bind_parent? hne hplain, hp', Option.bind_some, resolve_singleton,
    if_pos hm.isDirectory_parent, lastHop, if_neg (fun h ↦ hm.name_ne h.1)]
  exact hhop

theorem provide_provide (hne : segments ≠ []) (hplain : Path.Plain segments) (hk : kind ∈ found) :
    (t.provide found start segments kind).provide found start segments kind =
      t.provide found start segments kind := by
  rcases provide_cases found t start segments kind with ht | ⟨hnone, place, hc⟩
  · rw [ht, ht]
  · have hfound := resolve_of_create hne hplain (hnone kind hk) hc
    exact provide_of_resolve hk (by rw [hfound]; rfl)

theorem Taken.create (h : t.Taken start segments kind) (hn : t.NamesAre (· ≠ "")) :
    ∃ t' place, t.create start segments kind = .ok (t', place) := by
  obtain ⟨parent, hp, hmem⟩ := h
  obtain ⟨i, hi⟩ := List.getElem?_of_mem hmem
  rw [getElem?_signatures] at hi
  exact ⟨_, _, create_eq_ok_iff.mpr
    ⟨parent, hp, isDirectory_of_signature?_append hi, hn parent _ hmem, rfl, rfl⟩⟩

/-- Providing a node makes a second one of its name only at a path that is not plain. -/
theorem siblingsUnique_provide_iff (hn : t.NamesAre (· ≠ "")) (hu : t.SiblingsUnique)
    (hne : segments ≠ []) (hk : kind ∈ found) :
    (t.provide found start segments kind).SiblingsUnique ↔
      (Path.Plain segments ∨ ¬ t.Taken start segments kind) := by
  rcases provide_cases found t start segments kind with ht | ⟨hnone, place, hc⟩
  · rw [ht]
    refine iff_of_true hu ?_
    -- A path that is not plain is never found, so a node would have been made where one is.
    by_contra hnot
    rw [not_or, not_not] at hnot
    obtain ⟨t', place, hc⟩ := hnot.2.create hn
    have hmade : t.provide found start segments kind = t' :=
      provide_of_create (fun k _ ↦ resolve_eq_none_of_not_plain hn hnot.1) hc
    rw [ht] at hmade
    subst hmade
    exact (siblingsUnique_create_iff hu hc).mp hu hnot.2
  · rw [siblingsUnique_create_iff hu hc]
    refine ⟨.inr, ?_⟩
    rintro (hplain | hfree)
    · exact not_taken_of_resolve_eq_none hne hplain (hnone kind hk) hc
    · exact hfree

theorem create_again (hc : t.create start segments kind = .ok (t', place))
    (hfree : ¬ t.Taken start segments kind) :
    t'.Taken start segments kind ∧ ∃ u q, t'.create start segments kind = .ok (u, q) := by
  obtain ⟨parent, hp, hm⟩ := made_of_create hc
  have hname : (Path.lastName segments, kind) ∉ t.signatures parent :=
    fun hmem ↦ hfree ⟨parent, hp, hmem⟩
  have hp' : t'.parent? start segments = some parent := hm.parent? (fun _ ↦ hname) hp
  refine ⟨⟨parent, hp', ?_⟩, _, _, create_eq_ok_iff.mpr
    ⟨parent, hp', hm.isDirectory_parent, hm.name_ne, rfl, rfl⟩⟩
  rw [hm.signatures, if_pos rfl]
  exact List.mem_append_right _ (List.mem_singleton.mpr rfl)

/-- What was made at a path that is not plain is made once more, unless the path has lost its
directory to it. -/
theorem sameNodes_provide_iff_of_create (found : List Kind) (hn : t.NamesAre (· ≠ ""))
    (hplain : ¬ Path.Plain segments) (hc : t.create start segments kind = .ok (t', place)) :
    t'.SameNodes (t'.provide found start segments kind) ↔ t'.parent? start segments = none := by
  have hn' : t'.NamesAre (· ≠ "") := namesAre_create hn hc
  constructor
  · intro hsame
    by_contra hparent
    obtain ⟨parent, hp⟩ := Option.ne_none_iff_exists'.mp hparent
    obtain ⟨_, -, hm⟩ := made_of_create hc
    have hstart : t'.isDirectory start = true :=
      (hm.isDirectory_eq start).mpr (.inl (isDirectory_of_create hc))
    obtain ⟨u, q, hagain⟩ : ∃ u q, t'.create start segments kind = .ok (u, q) :=
      ⟨_, _, create_eq_ok_iff.mpr
        ⟨parent, hp, isDirectory_of_parent? hstart hp, hm.name_ne, rfl, rfl⟩⟩
    rw [provide_of_create (fun k _ ↦ resolve_eq_none_of_not_plain hn' hplain) hagain] at hsame
    exact not_sameNodes_of_create hagain hsame
  · intro hp
    have herror : t'.create start segments kind =
        .error (.shell (.directoryNotFound (Path.join (Path.splitLast segments).1))) := by
      rw [create, hp]
    rw [provide_of_error herror]
    exact .refl t'

/-- At a path that is not plain, making a node twice leaves two of its name if it makes any. -/
theorem siblingsUnique_provide_provide_iff (hn : t.NamesAre (· ≠ "")) (hu : t.SiblingsUnique)
    (hplain : ¬ Path.Plain segments) :
    ((t.provide found start segments kind).provide found start segments kind).SiblingsUnique ↔
      t.provide found start segments kind = t := by
  constructor
  · intro htwice
    rcases provide_cases found t start segments kind with ht | ⟨hnone, place, hc⟩
    · exact ht
    · exfalso
      have honce := (grows_provide (fun _ ↦ True) found
        (t.provide found start segments kind) start segments kind).siblingsUnique htwice
      have hfree := (siblingsUnique_create_iff hu hc).mp honce
      have hn' := namesAre_create hn hc
      obtain ⟨htaken, u, q, hc'⟩ := create_again hc hfree
      rw [provide_of_create (fun k _ ↦ resolve_eq_none_of_not_plain hn' hplain) hc'] at htwice
      exact (siblingsUnique_create_iff honce hc').mp htwice htaken
  · intro h
    rwa [h, h]

end Tree

end TreeShell
