import TreeShell.Proofs.Tree.Growth

/-!
# The lines in the files of a tree

Writing to a file changes the lines of that file and of no other. So if all lines in a tree are of
a sort they stay so, as long as only lines of that sort are written.
-/

namespace TreeShell

variable {Q : Line → Prop}

namespace Node

theorem at?_modify_self (f : Node → Node) (n : Node) (place : Place) :
    (n.modify f place).at? place = (n.at? place).map f := by
  have h := at?_modify_append f n place []
  simpa [Option.map_eq_bind, Function.comp_def] using h

def own (n : Node) : (String × Kind) × Option (List Line) × Option Nat :=
  (n.signature, n.lines?, n.stamp?)

/-- A change of a node that keeps its children changes no other node. -/
theorem own_modify_of_ne {f : Node → Node} (hf : ∀ m, (f m).children = m.children) (n : Node)
    {place q : Place} (h : q ≠ place) :
    ((n.modify f place).at? q).map own = (n.at? q).map own := by
  induction place generalizing n q with
  | nil =>
      cases q with
      | nil => exact absurd rfl h
      | cons j q => rw [modify, at?_cons, at?_cons, hf]
  | cons i place ih =>
      cases n with
      | file name lines stamp => rfl
      | directory name cs =>
          cases q with
          | nil => rfl
          | cons j q =>
              rw [modify, at?_cons, at?_cons]
              simp only [children, List.getElem?_modify]
              by_cases hij : i = j
              · subst hij
                have hq : q ≠ place := fun hq ↦ h (hq ▸ rfl)
                cases cs[i]? with
                | none => rfl
                | some c => simpa using ih c hq
              · simp [hij]

def Everywhere (p : Node → Prop) (n : Node) : Prop := ∀ place m, n.at? place = some m → p m

theorem everywhere_file_iff {p : Node → Prop} {name : String} {lines : List Line} {stamp : Nat} :
    (file name lines stamp).Everywhere p ↔ p (file name lines stamp) := by
  constructor
  · intro h
    exact h [] _ (at?_nil _)
  · intro h place m hm
    cases place with
    | nil =>
        cases hm
        exact h
    | cons i place => simp [at?_cons, children] at hm

theorem everywhere_directory_iff {p : Node → Prop} {name : String} {cs : List Node} :
    (directory name cs).Everywhere p ↔
      p (directory name cs) ∧ ∀ c ∈ cs, c.Everywhere p := by
  constructor
  · intro h
    refine ⟨h [] _ (at?_nil _), ?_⟩
    intro c hc place m hm
    obtain ⟨i, hi⟩ := List.getElem?_of_mem hc
    exact h (i :: place) m (by simp [at?_cons, children, hi, hm])
  · rintro ⟨hself, h⟩ place m hm
    cases place with
    | nil =>
        cases hm
        exact hself
    | cons i place =>
        rw [at?_cons, Option.bind_eq_some_iff] at hm
        obtain ⟨c, hc, hm⟩ := hm
        exact h c (List.mem_of_getElem? hc) place m hm

def LinesAre (Q : Line → Prop) (n : Node) : Prop :=
  n.Everywhere fun m ↦ ∀ lines, m.lines? = some lines → ∀ l ∈ lines, Q l

theorem linesAre_file_iff {name : String} {lines : List Line} {stamp : Nat} :
    (file name lines stamp).LinesAre Q ↔ ∀ l ∈ lines, Q l := by
  rw [LinesAre, everywhere_file_iff]
  simp [lines?]

theorem linesAre_directory_iff {name : String} {cs : List Node} :
    (directory name cs).LinesAre Q ↔ ∀ c ∈ cs, c.LinesAre Q := by
  rw [LinesAre, everywhere_directory_iff]
  simp [lines?, LinesAre]

mutual

theorem mapLines_eq_self {f : Line → Line} {n : Node} (h : n.LinesAre fun l ↦ f l = l) :
    n.mapLines f = n := by
  match n with
  | .directory name children =>
      rw [mapLines, mapLinesAll_eq_self (linesAre_directory_iff.mp h)]
  | .file name lines stamp =>
      rw [mapLines, List.map_congr_left (linesAre_file_iff.mp h), List.map_id']

theorem mapLinesAll_eq_self {f : Line → Line} {ns : List Node}
    (h : ∀ n ∈ ns, n.LinesAre fun l ↦ f l = l) : mapLinesAll f ns = ns := by
  match ns with
  | [] => rfl
  | n :: ns =>
      obtain ⟨hfirst, hothers⟩ := List.forall_mem_cons.mp h
      rw [mapLinesAll, mapLines_eq_self hfirst, mapLinesAll_eq_self hothers]

end

/-- If a change keeps the sort of lines in every node, it keeps it in a tree wherever it is made. -/
theorem linesAre_modify {f : Node → Node} (hf : ∀ m : Node, m.LinesAre Q → (f m).LinesAre Q)
    {n : Node} (h : n.LinesAre Q) (place : Place) : (n.modify f place).LinesAre Q := by
  induction place generalizing n with
  | nil => exact hf n h
  | cons i place ih =>
      cases n with
      | file name lines stamp => exact h
      | directory name cs =>
          rw [linesAre_directory_iff] at h
          refine linesAre_directory_iff.mpr ?_
          intro c hc
          obtain ⟨j, hj⟩ := List.getElem?_of_mem hc
          rw [List.getElem?_modify] at hj
          obtain ⟨c', hc', rfl⟩ := Option.map_eq_some_iff.mp hj
          have hold := h c' (List.mem_of_getElem? hc')
          split_ifs
          · exact ih hold
          · exact hold

theorem linesAre_blank (name : String) (kind : Kind) : (blank name kind).LinesAre Q := by
  cases kind with
  | directory => exact linesAre_directory_iff.mpr (by simp)
  | text => exact linesAre_file_iff.mpr (by simp)

end Node

namespace Tree

variable {t t' : Tree} {place : Place} {lines : List Line}

def LinesAre (Q : Line → Prop) (t : Tree) : Prop := t.root.LinesAre Q

theorem LinesAre.of_lines? (h : t.LinesAre Q) (hl : t.lines? place = some lines) :
    ∀ l ∈ lines, Q l := by
  obtain ⟨m, hm, hlines⟩ := Option.bind_eq_some_iff.mp hl
  exact h place m hm lines hlines

theorem linesAre_iff :
    t.LinesAre Q ↔ ∀ place lines, t.lines? place = some lines → ∀ l ∈ lines, Q l := by
  constructor
  · intro h place lines hl
    exact h.of_lines? hl
  · intro h place m hm lines hl
    exact h place lines (Option.bind_eq_some_iff.mpr ⟨m, hm, hl⟩)

theorem lines?_after (t : Tree) (changed : Line) (place : Place) :
    (t.after changed).lines? place = (t.lines? place).map (List.map changed.after) := by
  rw [lines?, lines?, Tree.at?, Tree.at?, root_after, Node.at?_mapLines]
  cases t.root.at? place with
  | none => rfl
  | some n => cases n <;> rfl

theorem linesAre_after {Q' : Line → Prop} {changed : Line} (h : t.LinesAre Q)
    (hQ : ∀ l, Q l → Q' (changed.after l)) : (t.after changed).LinesAre Q' := by
  rw [linesAre_iff]
  intro place lines hl
  rw [lines?_after, Option.map_eq_some_iff] at hl
  obtain ⟨old, hold, rfl⟩ := hl
  intro l hmem
  obtain ⟨m, hm, rfl⟩ := List.mem_map.mp hmem
  exact hQ m (h.of_lines? hold m hm)

theorem linesAre_write (h : t.LinesAre Q) (hl : ∀ l ∈ lines, Q l) :
    (t.write place lines).LinesAre Q := by
  rw [LinesAre, write, root_modify (Node.signature_write lines)]
  refine Node.linesAre_modify (fun m hm ↦ ?_) h place
  cases m with
  | directory name cs => exact hm
  | file name old stamp => exact Node.linesAre_file_iff.mpr hl

theorem linesAre_append (h : t.LinesAre Q) (hl : ∀ l ∈ lines, Q l) :
    (t.append place lines).LinesAre Q := by
  rw [LinesAre, append, root_modify (Node.signature_append lines)]
  refine Node.linesAre_modify (fun m hm ↦ ?_) h place
  cases m with
  | directory name cs => exact hm
  | file name old stamp =>
      have hold := Node.linesAre_file_iff.mp hm
      exact Node.linesAre_file_iff.mpr fun l hmem ↦ (List.mem_append.mp hmem).elim (hold l) (hl l)

theorem linesAre_touch (h : t.LinesAre Q) : (t.touch place).LinesAre Q := by
  rw [LinesAre, touch, root_modify Node.signature_touch]
  refine Node.linesAre_modify (fun m hm ↦ ?_) h place
  cases m with
  | directory name cs => exact hm
  | file name old stamp => exact Node.linesAre_file_iff.mpr (Node.linesAre_file_iff.mp hm)

theorem linesAre_create {start : Place} {segments : List String} {kind : Kind}
    (h : t.LinesAre Q) (hc : t.create start segments kind = .ok (t', place)) : t'.LinesAre Q := by
  obtain ⟨parent, -, -, -, rfl, -⟩ := create_eq_ok_iff.mp hc
  rw [LinesAre, extend, root_modify (Node.signature_extend _)]
  refine Node.linesAre_modify (fun m hm ↦ ?_) h parent
  cases m with
  | file name old stamp => exact hm
  | directory name cs =>
      refine Node.linesAre_directory_iff.mpr ?_
      intro c hc
      rcases List.mem_append.mp hc with hold | hnew
      · exact Node.linesAre_directory_iff.mp hm c hold
      · rw [List.mem_singleton.mp hnew]
        exact Node.linesAre_blank _ _

/-! ## Reading back -/

theorem at?_modify_self {f : Node → Node} (hs : ∀ m, (f m).signature = m.signature) (t : Tree)
    (place : Place) : (t.modify place f).at? place = (t.at? place).map f := by
  rw [Tree.at?, root_modify hs]
  exact Node.at?_modify_self f _ _

theorem lines?_write_self (t : Tree) (place : Place) (lines : List Line) :
    (t.write place lines).lines? place = (t.lines? place).map fun _ ↦ lines := by
  rw [lines?, write, at?_modify_self (Node.signature_write lines), lines?]
  cases t.at? place with
  | none => rfl
  | some m => cases m <;> rfl

theorem own_write_of_ne (t : Tree) {place q : Place} (h : q ≠ place) (lines : List Line) :
    ((t.write place lines).at? q).map Node.own = (t.at? q).map Node.own := by
  rw [Tree.at?, write, root_modify (Node.signature_write lines)]
  exact Node.own_modify_of_ne (Node.children_write lines) _ h

theorem signature?_of_resolve {start : Place} {segments : List String} {kind? : Option Kind}
    (hne : segments ≠ [])
    (h : t.resolve start segments kind? = some place) : ∃ sig, t.signature? place = some sig := by
  have hdirectory (q : Place) (hq : t.isDirectory q = true) :
      ∃ sig, t.signature? q = some sig := by
    obtain ⟨name, hname⟩ := isDirectory_iff.mp hq
    exact ⟨_, hname⟩
  induction segments generalizing start with
  | nil => exact absurd rfl hne
  | cons x xs ih =>
      cases xs with
      | nil =>
          rw [resolve_singleton] at h
          split_ifs at h with hs
          unfold lastHop hop at h
          split_ifs at h
          · cases h
            exact hdirectory _ hs
          · cases h
            exact hdirectory _ hs
          · cases h
            exact hdirectory _ (isDirectory_dropLast hs)
          · cases h
            exact hdirectory _ (isDirectory_nil t)
          · obtain ⟨-, sig, -, hsig, -⟩ := signature?_of_child? h
            exact ⟨sig, hsig⟩
      | cons y ys =>
          rw [resolve_cons (by simp)] at h
          split_ifs at h
          obtain ⟨q, -, hrest⟩ := Option.bind_eq_some_iff.mp h
          exact ih (by simp) hrest

theorem lines?_of_signature? {sig : String × Kind} (h : t.signature? place = some sig)
    (hd : ¬ t.isDirectory place = true) : ∃ lines, t.lines? place = some lines := by
  obtain ⟨m, hm, -⟩ := Option.map_eq_some_iff.mp h
  unfold isDirectory Tree.at? at hd
  unfold lines? Tree.at?
  rw [hm] at hd ⊢
  cases m with
  | directory name cs => simp [Node.isDirectory] at hd
  | file name lines stamp => exact ⟨lines, rfl⟩

theorem not_isDirectory_of_lines? (h : t.lines? place = some lines) :
    ¬ t.isDirectory place = true := by
  obtain ⟨m, hm, hlines⟩ := Option.bind_eq_some_iff.mp h
  unfold isDirectory
  rw [hm]
  cases m with
  | directory name cs => cases hlines
  | file name old stamp => simp [Node.isDirectory]

theorem lines?_of_create {start : Place} {segments : List String}
    (h : t.create start segments .text = .ok (t', place)) :
    t.lines? place = none ∧ t'.lines? place = some [] := by
  obtain ⟨parent, hp, hm⟩ := made_of_create h
  have hnew := hm.signature?_place
  have hnone : t.root.at? place = none := Option.map_eq_none_iff.mp hnew
  refine ⟨by rw [lines?, Tree.at?, hnone]; rfl, ?_⟩
  obtain ⟨parent', hp', hd, -, rfl, rfl⟩ := create_eq_ok_iff.mp h
  unfold isDirectory Tree.at? at hd
  rw [lines?, Tree.at?, extend, root_modify (Node.signature_extend _), Node.at?_modify_append,
    children, Tree.at?]
  cases hn : t.root.at? parent' with
  | none => simp [hn] at hd
  | some n =>
      rw [hn] at hd
      simp [Node.at?_cons, Node.children_extend hd, Node.blank, Node.lines?]

end Tree

end TreeShell
