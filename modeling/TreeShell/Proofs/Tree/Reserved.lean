import TreeShell.Proofs.Tree.Address
import TreeShell.Proofs.Tree.Provide

/-!
# Reserved names

`.`, `..` and `~` never lead to a child, so no path leads to a node of such a name or below it,
except from there. Looking a path up keeps such nodes from being made, as long as the path is plain.
-/

namespace TreeShell

namespace Path

def IsReserved (name : String) : Prop := name = here ∨ name = above ∨ name = home

instance (name : String) : Decidable (IsReserved name) := by
  unfold IsReserved
  infer_instance

def IsSegment (name : String) : Prop := name ≠ "" ∧ separator ∉ name.toList

theorem isOrdinary_iff {name : String} : IsOrdinary name ↔ IsSegment name ∧ ¬ IsReserved name := by
  simp [IsOrdinary, IsSegment, IsReserved, and_assoc]

/-- If the name of a path is reserved, looking the path up tells. -/
def Guarded (segments : List String) : Prop := Plain segments ∨ ¬ IsReserved (lastName segments)

instance (segments : List String) : Decidable (Guarded segments) := by
  unfold Guarded
  infer_instance

theorem separator_notMem_lastName_split (path : String) :
    separator ∉ (lastName (split path)).toList := by
  have hsplit : (split path).dropLast ++ [lastName (split path)] = split path :=
    append_splitLast (split_ne_nil path)
  have hmem : lastName (split path) ∈ (split path).dropLast ++ [lastName (split path)] :=
    List.mem_concat_self
  rw [hsplit] at hmem
  exact not_mem_of_mem_split hmem

end Path

namespace Tree

variable {t t' : Tree} {start place q : Place} {segments : List String} {kind : Kind}

theorem namesAre_ordinary_iff : t.NamesAre Path.IsOrdinary ↔
    t.NamesAre Path.IsSegment ∧ t.NamesAre fun name ↦ ¬ Path.IsReserved name := by
  constructor
  · intro h
    exact ⟨fun q sig hsig ↦ (Path.isOrdinary_iff.mp (h q sig hsig)).1,
      fun q sig hsig ↦ (Path.isOrdinary_iff.mp (h q sig hsig)).2⟩
  · rintro ⟨hsegment, hfree⟩ q sig hsig
    exact Path.isOrdinary_iff.mpr ⟨hsegment q sig hsig, hfree q sig hsig⟩

def CanMake (t : Tree) (start : Place) (segments : List String) (kind : Kind) : Prop :=
  ∃ made, t.create start segments kind = .ok made

theorem Made.namesAre_iff {P : String → Prop} {parent : Place} {name : String}
    (h : t.Made t' parent name kind place) (hn : t.NamesAre P) : t'.NamesAre P ↔ P name := by
  refine ⟨fun hn' ↦ hn' parent (name, kind) ?_, h.namesAre hn⟩
  rw [h.signatures, if_pos rfl]
  exact List.mem_append_right _ (List.mem_singleton.mpr rfl)

theorem namesAre_create_iff (hn : t.NamesAre Path.IsOrdinary)
    (hslash : Path.separator ∉ (Path.lastName segments).toList)
    (hc : t.create start segments kind = .ok (t', place)) :
    t'.NamesAre Path.IsOrdinary ↔ ¬ Path.IsReserved (Path.lastName segments) := by
  obtain ⟨parent, -, hm⟩ := made_of_create hc
  rw [hm.namesAre_iff hn, Path.isOrdinary_iff]
  exact and_iff_right ⟨hm.name_ne, hslash⟩

theorem not_isReserved_of_guarded (hne : segments ≠ []) (hguarded : Path.Guarded segments)
    (hnone : t.resolve start segments (some kind) = none)
    (hc : t.create start segments kind = .ok (t', place)) :
    ¬ Path.IsReserved (Path.lastName segments) := by
  rcases hguarded with hplain | hfree
  · obtain ⟨hhere, habove, hhome⟩ := lastName_ordinary hne hplain hnone hc
    rintro (h | h | h)
    · exact hhere h
    · exact habove h
    · exact hhome h
  · exact hfree

theorem namesAre_provide_iff {found : List Kind} (hn : t.NamesAre Path.IsOrdinary)
    (hne : segments ≠ []) (hslash : Path.separator ∉ (Path.lastName segments).toList)
    (hk : kind ∈ found) :
    (t.provide found start segments kind).NamesAre Path.IsOrdinary ↔
      Path.Guarded segments ∨ ¬ t.CanMake start segments kind := by
  rcases provide_cases found t start segments kind with ht | ⟨hnone, place, hc⟩
  · rw [ht]
    refine iff_of_true hn ?_
    -- A path that is not plain is never found, so the node would have been made.
    by_contra hnot
    rw [not_or, Path.Guarded, not_or, not_not, not_not] at hnot
    obtain ⟨⟨hplain, hreserved⟩, ⟨t', place⟩, hc⟩ := hnot
    have hnamed : t.NamesAre (· ≠ "") := fun q sig hsig ↦ (hn q sig hsig).1
    have hmade : t.provide found start segments kind = t' :=
      provide_of_create (fun k _ ↦ resolve_eq_none_of_not_plain hnamed hplain) hc
    rw [ht] at hmade
    subst hmade
    exact (namesAre_create_iff hn hslash hc).mp hn hreserved
  · rw [namesAre_create_iff hn hslash hc]
    constructor
    · intro hfree
      exact .inl (.inr hfree)
    · rintro (hguarded | hnot)
      · exact not_isReserved_of_guarded hne hguarded (hnone kind hk) hc
      · exact absurd ⟨_, hc⟩ hnot

/-! ## Out of reach -/

section

variable {above : Place} {i : Nat} {sig : String × Kind} {kind? : Option Kind}
  (hplace : t.signature? (above ++ [i]) = some sig) (hname : Path.IsReserved sig.1)

include hplace hname

theorem prefix_of_hop {segment : String} (h : t.hop start segment kind? = some q)
    (hq : above ++ [i] <+: q) : above ++ [i] <+: start := by
  unfold hop at h
  split_ifs at h with hhere habove hhome
  · cases h
    exact hq
  · cases h
    exact hq.trans (List.dropLast_prefix start)
  · cases h
    simp at hq
  · obtain ⟨j, other, rfl, hother, hanswers⟩ := signature?_of_child? h
    rcases List.prefix_concat_iff.mp hq with heq | hstart
    · rw [← heq, hplace, Option.some.injEq] at hother
      subst hother
      have hsegment : sig.1 = segment := by
        have hboth := hanswers
        rw [answers, Bool.and_eq_true, beq_iff_eq] at hboth
        exact hboth.1
      rcases hname with h | h | h
      · exact absurd (hsegment.symm.trans h) hhere
      · exact absurd (hsegment.symm.trans h) habove
      · exact absurd (hsegment.symm.trans h) hhome
    · exact hstart

/-- A path leads to a node of a reserved name, or below it, only from there. -/
theorem prefix_of_resolve (h : t.resolve start segments kind? = some q)
    (hq : above ++ [i] <+: q) : above ++ [i] <+: start := by
  induction segments generalizing start with
  | nil =>
      rw [resolve] at h
      split_ifs at h
      cases h
      exact hq
  | cons x xs ih =>
      cases xs with
      | nil =>
          rw [resolve_singleton] at h
          split_ifs at h
          unfold lastHop at h
          split_ifs at h
          · cases h
            exact hq
          · exact prefix_of_hop hplace hname h hq
      | cons y xs =>
          rw [resolve_cons (List.cons_ne_nil y xs)] at h
          split_ifs at h
          obtain ⟨next, hhop, hrest⟩ := Option.bind_eq_some_iff.mp h
          exact prefix_of_hop hplace hname hhop (ih hrest)

end

end Tree

end TreeShell
