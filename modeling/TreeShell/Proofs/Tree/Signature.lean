import TreeShell.Tree.Create

/-!
# The names in a tree

What a path finds depends on names and kinds alone. The signature of a node is its name with its
kind. A change of a text file leaves all signatures as they are, and a new node without children
adds one, behind those that its directory has.
-/

namespace TreeShell

namespace Node

def signature (n : Node) : String × Kind := (n.name, n.kind)

def signature? (n : Node) (place : Place) : Option (String × Kind) := (n.at? place).map signature

@[simp] theorem signature_extend (more : List Node) (n : Node) :
    (n.extend more).signature = n.signature := by cases n <;> rfl

@[simp] theorem signature_write (lines : List Line) (n : Node) :
    (n.write lines).signature = n.signature := by cases n <;> rfl

@[simp] theorem signature_append (lines : List Line) (n : Node) :
    (n.append lines).signature = n.signature := by cases n <;> rfl

@[simp] theorem signature_touch (n : Node) : n.touch.signature = n.signature := by cases n <;> rfl

@[simp] theorem children_write (lines : List Line) (n : Node) :
    (n.write lines).children = n.children := by cases n <;> rfl

@[simp] theorem children_append (lines : List Line) (n : Node) :
    (n.append lines).children = n.children := by cases n <;> rfl

@[simp] theorem children_touch (n : Node) : n.touch.children = n.children := by cases n <;> rfl

theorem children_extend {n : Node} (h : n.isDirectory = true) (more : List Node) :
    (n.extend more).children = n.children ++ more := by
  cases n with
  | directory name cs => rfl
  | file name lines stamp => simp [isDirectory] at h

@[simp] theorem signature?_nil (n : Node) : n.signature? [] = some n.signature := by
  simp [signature?]

theorem signature?_cons (n : Node) (i : Nat) (place : Place) :
    n.signature? (i :: place) = n.children[i]?.bind (·.signature? place) := by
  cases h : n.children[i]? <;> simp [signature?, at?_cons, h]

/-- Below its own place a changed node reads like the change of what was there. -/
theorem at?_modify_append (f : Node → Node) (n : Node) (p q : Place) :
    (n.modify f p).at? (p ++ q) = (n.at? p).bind fun m ↦ (f m).at? q := by
  induction p generalizing n with
  | nil => simp [modify]
  | cons i p ih =>
      cases n with
      | file name lines stamp => simp [modify, at?_cons, children]
      | directory name cs =>
          cases h : cs[i]? with
          | none => simp [modify, at?_cons, children, h]
          | some c => simp [modify, at?_cons, children, h, ih]

theorem modify_congr {f g : Node → Node} {n : Node} {place : Place}
    (h : ∀ m, n.at? place = some m → f m = g m) : n.modify f place = n.modify g place := by
  induction place generalizing n with
  | nil => exact h n (at?_nil n)
  | cons i place ih =>
      cases n with
      | file name lines stamp => rfl
      | directory name cs =>
          rw [modify, modify]
          congr 1
          apply List.ext_getElem?
          intro j
          rw [List.getElem?_modify, List.getElem?_modify]
          cases hc : cs[j]? with
          | none => rfl
          | some c =>
              by_cases hij : i = j
              · subst hij
                have hm := ih (n := c) fun m hm ↦ h m (by simp [at?_cons, children, hc, hm])
                simp [hm]
              · simp [hij]

/-- A change at one place is not seen in what is read of other nodes, at no place that is not below
it, if the children of a directory do not matter for that. -/
theorem map_at?_modify_of_not_prefix {α : Type} {g : Node → α}
    (hg : ∀ name cs cs', g (directory name cs) = g (directory name cs')) (f : Node → Node)
    (n : Node) {p q : Place} (h : ¬ p <+: q) :
    ((n.modify f p).at? q).map g = (n.at? q).map g := by
  induction p generalizing n q with
  | nil => exact absurd List.nil_prefix h
  | cons i p ih =>
      cases n with
      | file name lines stamp => rfl
      | directory name cs =>
          cases q with
          | nil => exact congrArg some (hg name _ cs)
          | cons j q =>
              rw [List.cons_prefix_cons, not_and] at h
              by_cases hij : i = j
              · subst hij
                cases hc : cs[i]? with
                | none => simp [modify, at?_cons, children, hc]
                | some c => simpa [modify, at?_cons, children, hc] using ih c (h rfl)
              · simp [modify, at?_cons, children, hij]

theorem signature?_modify_of_not_prefix (f : Node → Node) (n : Node) {p q : Place}
    (h : ¬ p <+: q) : (n.modify f p).signature? q = n.signature? q :=
  map_at?_modify_of_not_prefix (fun _ _ _ ↦ rfl) f n h

theorem signature?_modify {f : Node → Node} (hs : ∀ m, (f m).signature = m.signature)
    (hc : ∀ m, (f m).children = m.children) (n : Node) (p q : Place) :
    (n.modify f p).signature? q = n.signature? q := by
  by_cases h : p <+: q
  · obtain ⟨r, rfl⟩ := h
    have hf : ∀ m, (f m).signature? r = m.signature? r := by
      intro m
      cases r with
      | nil => simp [hs]
      | cons i r => simp [signature?_cons, hc]
    rw [signature?, at?_modify_append, signature?, at?_append]
    cases n.at? p with
    | none => rfl
    | some m => exact hf m
  · exact signature?_modify_of_not_prefix f n h

theorem exists_child_of_signature? {n n' c : Node} (h : ∀ q, n'.signature? q = n.signature? q)
    {i : Nat} (hc : n.children[i]? = some c) :
    ∃ c', n'.children[i]? = some c' ∧ ∀ q, c'.signature? q = c.signature? q := by
  have hchild := h [i]
  rw [signature?_cons, signature?_cons, hc] at hchild
  cases hc' : n'.children[i]? with
  | none => simp [hc'] at hchild
  | some c' =>
      refine ⟨c', rfl, fun q ↦ ?_⟩
      have hq := h (i :: q)
      rwa [signature?_cons, signature?_cons, hc, hc'] at hq

theorem names_congr {n n' : Node} (h : ∀ q, n'.signature? q = n.signature? q) (place : Place) :
    n'.names place = n.names place := by
  induction place generalizing n n' with
  | nil => rfl
  | cons i place ih =>
      cases hc : n.children[i]? with
      | none =>
          have hnone := h [i]
          rw [signature?_cons, signature?_cons, hc] at hnone
          cases hc' : n'.children[i]? with
          | none => simp [names, hc, hc']
          | some c' => simp [hc'] at hnone
      | some c =>
          obtain ⟨c', hc', hbelow⟩ := exists_child_of_signature? h hc
          have hname : c'.name = c.name := by
            have hself := hbelow []
            simp only [signature?_nil, Option.some.injEq] at hself
            exact congrArg Prod.fst hself
          simp [names, hc, hc', hname, ih hbelow]

end Node

namespace Tree

def signature? (t : Tree) (place : Place) : Option (String × Kind) := t.root.signature? place

def signatures (t : Tree) (place : Place) : List (String × Kind) :=
  (t.children place).map Node.signature

theorem root_modify {f : Node → Node} (hs : ∀ m, (f m).signature = m.signature) (t : Tree)
    (place : Place) : (t.modify place f).root = t.root.modify f place := by
  cases place with
  | nil =>
      have h := hs t.root
      have hd : ∀ n : Node, n.signature = ("", .directory) → Node.directory "" n.children = n := by
        intro n hn
        cases n <;> simp_all [Node.signature, Node.name, Node.kind, Node.children]
      exact hd (f t.root) h
  | cons i place => rfl

theorem isDirectory_iff {t : Tree} {place : Place} :
    t.isDirectory place = true ↔ ∃ name, t.signature? place = some (name, .directory) := by
  unfold isDirectory signature? Node.signature? Tree.at?
  cases h : t.root.at? place with
  | none => simp
  | some n => cases n <;> simp [Node.isDirectory, Node.signature, Node.name, Node.kind]

theorem getElem?_signatures (t : Tree) (place : Place) (i : Nat) :
    (t.signatures place)[i]? = t.signature? (place ++ [i]) := by
  unfold signatures children signature? Node.signature? Tree.at?
  rw [Node.at?_append]
  cases h : t.root.at? place with
  | none => simp
  | some n => cases hc : n.children[i]? <;> simp [Node.at?_cons, hc]

@[simp] theorem length_signatures (t : Tree) (place : Place) :
    (t.signatures place).length = (t.children place).length := by simp [signatures]

theorem isDirectory_of_signature?_append {t : Tree} {place : Place} {i : Nat}
    {sig : String × Kind} (h : t.signature? (place ++ [i]) = some sig) :
    t.isDirectory place = true := by
  unfold signature? Node.signature? at h
  rw [Node.at?_append] at h
  unfold isDirectory Tree.at?
  cases hn : t.root.at? place with
  | none => simp [hn] at h
  | some n =>
      cases n with
      | directory name cs => rfl
      | file name lines stamp => simp [hn, Node.at?_cons, Node.children] at h

theorem isDirectory_dropLast {t : Tree} {place : Place} (h : t.isDirectory place = true) :
    t.isDirectory place.dropLast = true := by
  rcases List.eq_nil_or_concat place with rfl | ⟨above, i, rfl⟩
  · exact h
  · obtain ⟨name, hn⟩ := isDirectory_iff.mp h
    simpa using isDirectory_of_signature?_append (by simpa using hn)

theorem isDirectory_nil (t : Tree) : t.isDirectory [] = true := rfl

theorem signature?_modify {f : Node → Node} (hs : ∀ m, (f m).signature = m.signature)
    (hc : ∀ m, (f m).children = m.children) (t : Tree) (place q : Place) :
    (t.modify place f).signature? q = t.signature? q := by
  rw [signature?, root_modify hs]
  exact Node.signature?_modify hs hc _ _ _

@[simp] theorem signature?_write (t : Tree) (place q : Place) (lines : List Line) :
    (t.write place lines).signature? q = t.signature? q :=
  signature?_modify (Node.signature_write lines) (Node.children_write lines) t place q

@[simp] theorem signature?_append (t : Tree) (place q : Place) (lines : List Line) :
    (t.append place lines).signature? q = t.signature? q :=
  signature?_modify (Node.signature_append lines) (Node.children_append lines) t place q

@[simp] theorem signature?_touch (t : Tree) (place q : Place) :
    (t.touch place).signature? q = t.signature? q :=
  signature?_modify Node.signature_touch Node.children_touch t place q

theorem root_after (changed : Line) (t : Tree) :
    (t.after changed).root = t.root.mapLines changed.after := by
  simp [root, after, Node.mapLines]

@[simp] theorem signature?_after (t : Tree) (changed : Line) (q : Place) :
    (t.after changed).signature? q = t.signature? q := by
  rw [signature?, root_after, signature?, Node.signature?, Node.at?_mapLines, Node.signature?]
  cases t.root.at? q <;> simp [Node.signature]

/-- A new node without children is the only one that a directory gains, in all that is read of nodes
apart from their children. -/
theorem map_at?_extend {α : Type} {g : Node → α}
    (hg : ∀ name cs cs', g (.directory name cs) = g (.directory name cs')) {t : Tree}
    {place : Place} (h : t.isDirectory place = true) {n : Node} (hn : n.children = []) (q : Place) :
    ((t.extend place [n]).at? q).map g =
      if q = place ++ [(t.children place).length] then some (g n) else (t.at? q).map g := by
  rw [Tree.at?, extend, root_modify (Node.signature_extend _)]
  by_cases hp : place <+: q
  · obtain ⟨r, rfl⟩ := hp
    unfold isDirectory Tree.at? at h
    unfold children Tree.at?
    rw [Node.at?_modify_append, Node.at?_append]
    cases hm : t.root.at? place with
    | none => simp [hm] at h
    | some m =>
        simp only [hm, Option.elim_some] at h
        cases r with
        | nil =>
            cases m with
            | directory name cs => simpa [Node.extend] using hg name (cs ++ [n]) cs
            | file name lines stamp => simp [Node.isDirectory] at h
        | cons i r =>
            simp only [Option.bind_some, Node.at?_cons, Node.children_extend h,
              Option.elim_some, List.append_cancel_left_eq, List.cons.injEq]
            -- The new node stands behind all that were there.
            rcases Nat.lt_trichotomy i m.children.length with hi | rfl | hi
            · simp [List.getElem?_append_left hi, Nat.ne_of_lt hi]
            · cases r <;> simp [Node.at?_cons, hn]
            · have hout : (m.children ++ [n])[i]? = none :=
                List.getElem?_eq_none (by rw [List.length_append]; exact hi)
              simp [hout, List.getElem?_eq_none (Nat.le_of_lt hi), Nat.ne_of_gt hi]
  · rw [Node.map_at?_modify_of_not_prefix hg _ _ hp, if_neg]
    · rfl
    · rintro rfl
      exact hp (List.prefix_append _ _)

theorem signature?_extend {t : Tree} {place : Place} (h : t.isDirectory place = true) {n : Node}
    (hn : n.children = []) (q : Place) :
    (t.extend place [n]).signature? q =
      if q = place ++ [(t.children place).length] then some n.signature else t.signature? q :=
  map_at?_extend (fun _ _ _ ↦ rfl) h hn q

end Tree

end TreeShell
