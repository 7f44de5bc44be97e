import TreeShell.Proofs.Tree.Seed

/-!
# Trees that are built node by node

A seed can be built entry by entry: each entry makes a node in its directory, which is then filled
or written to. That gives the tree that is built from the seed at once, and fails where that fails.
If nothing fails, the tree holds what the seed describes, and the seed that describes the tree
builds it again.
-/

namespace TreeShell

namespace Node

theorem modify_append (f : Node → Node) (p q : Place) :
    modify f (p ++ q) = modify (modify f q) p := by
  induction p with
  | nil => rfl
  | cons i p ih =>
      funext n
      cases n with
      | file name lines stamp => rfl
      | directory name cs => rw [List.cons_append, modify, modify, ih]

theorem modify_modify (f g : Node → Node) (n : Node) (p : Place) :
    (n.modify f p).modify g p = n.modify (g ∘ f) p := by
  induction p generalizing n with
  | nil => rfl
  | cons i p ih =>
      cases n with
      | file name lines stamp => rfl
      | directory name cs =>
          have hboth : modify g p ∘ modify f p = modify (g ∘ f) p := funext ih
          rw [modify, modify, modify, List.modify_modify_eq, hboth]

theorem modify_eq_self {f : Node → Node} (hf : ∀ m, f m = m) (n : Node) (p : Place) :
    n.modify f p = n := by
  induction p generalizing n with
  | nil => exact hf n
  | cons i p ih =>
      cases n with
      | file name lines stamp => rfl
      | directory name cs =>
          have hself : modify f p = id := funext ih
          rw [modify, hself, List.modify_id]

/-- Changing the last child of a directory when it has just been added is adding it changed. -/
theorem modify_modify_last (f : Node → Node) (n c : Node) {p : Place} {m : Node}
    (h : n.at? p = some m) (hd : m.isDirectory = true) :
    (n.modify (extend [c]) p).modify f (p ++ [m.children.length]) =
      n.modify (extend [f c]) p := by
  rw [modify_append, modify_modify]
  apply modify_congr
  intro m' hm'
  obtain rfl : m = m' := Option.some.inj (h.symm.trans hm')
  cases m with
  | file name lines stamp => cases hd
  | directory name cs =>
      have hlast : (cs ++ [c]).modify cs.length f = cs ++ [f c] := by
        rw [List.modify_eq_take_drop, List.take_left, List.drop_left]
        rfl
      exact congrArg (directory name) hlast

end Node

namespace Tree

variable {t : Tree} {place : Place}

/-! ## Adding to a tree -/

theorem modify_modify {f : Node → Node} (hf : ∀ m, (f m).signature = m.signature) (g : Node → Node)
    (t : Tree) (p q : Place) :
    (t.modify p f).modify q g =
      { t with entries := ((t.root.modify f p).modify g q).children } := by
  rw [modify, root_modify hf]
  rfl

theorem extend_nil (t : Tree) (place : Place) : t.extend place [] = t := by
  have hself (m : Node) : m.extend [] = m := by
    cases m with
    | directory name cs => exact congrArg (Node.directory name) (List.append_nil cs)
    | file name lines stamp => rfl
  rw [extend, modify, Node.modify_eq_self hself]
  rfl

theorem extend_extend (t : Tree) (place : Place) (ns more : List Node) :
    (t.extend place ns).extend place more = t.extend place (ns ++ more) := by
  have hboth : Node.extend more ∘ Node.extend ns = Node.extend (ns ++ more) := by
    funext m
    cases m with
    | directory name cs => exact congrArg (Node.directory name) (List.append_assoc cs ns more)
    | file name lines stamp => rfl
  rw [extend, extend, modify_modify (Node.signature_extend ns), Node.modify_modify, hboth]
  rfl

theorem modify_extend_last (h : t.isDirectory place = true) (n : Node) (f : Node → Node) :
    (t.extend place [n]).modify (place ++ [(t.children place).length]) f =
      t.extend place [f n] := by
  obtain ⟨m, hm, hd⟩ : ∃ m, t.root.at? place = some m ∧ m.isDirectory = true := by
    unfold isDirectory Tree.at? at h
    cases hm : t.root.at? place with
    | none => simp [hm] at h
    | some m => exact ⟨m, rfl, by simpa [hm] using h⟩
  rw [children, Tree.at?, hm, extend, modify_modify (Node.signature_extend [n]), Option.elim_some,
    Node.modify_modify_last f t.root n hm hd]
  rfl

theorem isDirectory_extend (ns : List Node) (place : Place) {q : Place}
    (h : t.isDirectory q = true) : (t.extend place ns).isDirectory q = true := by
  have hgrows : t.Grows (fun _ ↦ True) (t.extend place ns) :=
    grows_modify (Node.signature_extend ns) (Node.grows_extend ns) t place
  exact hgrows.isDirectory h

/-! ## Planting -/

def plantFile (t : Tree) (place : Place) (name : String) (lines : List Line) :
    Tree × Option Failure :=
  match t.create place [name] .text with
  | .error failure => (t, some failure)
  | .ok (t, child) => (t.write child lines, none)

mutual

def plantEntry (t : Tree) (place : Place) (name : String) : Json → Tree × Option Failure
  | .object fields =>
      match t.create place [name] .directory with
      | .error failure => (t, some failure)
      | .ok (t, child) => t.plant child fields
  | .text s => t.plantFile place name [.text s]
  | .list items =>
      match Json.texts? items with
      | none => (t, some (Seed.refusal name))
      | some ss => t.plantFile place name (ss.map .text)
  | _ => (t, some (Seed.refusal name))

/-- Makes the nodes for the fields of a seed one after the other, up to the first that fails. -/
def plant (t : Tree) (place : Place) : List (String × Json) → Tree × Option Failure
  | [] => (t, none)
  | (name, v) :: fields =>
      match t.plantEntry place name v with
      | (t, some failure) => (t, some failure)
      | (t, none) => t.plant place fields

end

theorem create_singleton (t : Tree) (place : Place) (name : String) (kind : Kind) :
    t.create place [name] kind =
      if name = "" then .error Seed.nameless
      else if t.isDirectory place then
        .ok (t.extend place [Node.blank name kind], place ++ [(t.children place).length])
      else .error childless := by
  by_cases hname : name = ""
  · subst hname
    rfl
  · exact (if_neg hname).trans (if_neg hname).symm

theorem plantFile_eq (h : t.isDirectory place = true) (name : String) (lines : List Line) :
    let entry : Option Node × Option Failure :=
      if name = "" then (none, some Seed.nameless) else (some (.file name lines 2), none)
    t.plantFile place name lines = (t.extend place entry.1.toList, entry.2) := by
  rw [plantFile, create_singleton]
  split_ifs
  · exact Prod.ext (extend_nil t place).symm rfl
  · have hwritten := modify_extend_last h (Node.blank name .text) (Node.write lines)
    exact Prod.ext hwritten rfl

mutual

theorem plantEntry_eq (t : Tree) (place : Place) (h : t.isDirectory place = true) (name : String)
    (v : Json) :
    t.plantEntry place name v =
      (t.extend place (Seed.node name v).1.toList, (Seed.node name v).2) := by
  cases v with
  | object fields =>
      rw [plantEntry, create_singleton, Seed.node]
      by_cases hname : name = ""
      · rw [if_pos hname, if_pos hname]
        exact Prod.ext (extend_nil t place).symm rfl
      · rw [if_neg hname, if_neg hname, if_pos h]
        have hsig := signature?_extend h (Node.children_blank name .directory)
          (place ++ [(t.children place).length])
        rw [if_pos rfl, Node.signature_blank] at hsig
        have hfilled := modify_extend_last h (Node.blank name .directory)
          (Node.extend (Seed.nodes fields).1)
        have hchild := plant_eq _ _ (isDirectory_iff.mpr ⟨name, hsig⟩) fields
        exact hchild.trans (Prod.ext hfilled rfl)
  | text s => exact plantFile_eq h name [.text s]
  | list items =>
      rw [plantEntry, Seed.node]
      cases Json.texts? items with
      | none => exact Prod.ext (extend_nil t place).symm rfl
      | some ss => exact plantFile_eq h name (ss.map .text)
  | _ => exact Prod.ext (extend_nil t place).symm rfl

theorem plant_eq (t : Tree) (place : Place) (h : t.isDirectory place = true)
    (fields : List (String × Json)) :
    t.plant place fields =
      (t.extend place (Seed.nodes fields).1, (Seed.nodes fields).2) := by
  match fields with
  | [] => exact Prod.ext (extend_nil t place).symm rfl
  | (name, v) :: fields =>
      rw [plant, plantEntry_eq t place h name v, Seed.nodes]
      cases hnode : Seed.node name v with
      | mk made fault =>
          cases fault with
          | some failure => rfl
          | none =>
              dsimp only
              rw [plant_eq _ place (isDirectory_extend _ place h) fields, extend_extend]

end

/-- Planting a seed entry by entry gives what building it at once gives, wherever it is planted. -/
theorem plant_eq_seed (t : Tree) (place : Place) (fields : List (String × Json)) :
    t.plant place fields = t.seed place fields := by
  unfold seed
  by_cases h : t.isDirectory place = true
  · rw [plant_eq t place h, if_pos h]
  · rw [if_neg h]
    cases fields with
    | nil => rfl
    | cons field fields =>
        -- No node can be made in a text file, so planting ends with the first entry.
        obtain ⟨name, v⟩ := field
        cases v with
        | object inner =>
            by_cases hname : name = "" <;>
              simp [plant, plantEntry, create_singleton, Seed.node, h, hname]
        | text s =>
            by_cases hname : name = "" <;>
              simp [plant, plantEntry, plantFile, create_singleton, Seed.node, h, hname]
        | list items =>
            cases hs : Json.texts? items with
            | none => simp [plant, plantEntry, Seed.node, hs]
            | some ss =>
                by_cases hname : name = "" <;>
                  simp [plant, plantEntry, plantFile, create_singleton, Seed.node, h, hname, hs]
        | _ => rfl

end Tree

/-! ## The seed of a tree -/

theorem Node.dumpAll_eq_map (ns : List Node) :
    dumpAll ns = ns.map fun n ↦ (n.name, n.dump) := by
  induction ns with
  | nil => rfl
  | cons n ns ih => rw [dumpAll, ih, List.map_cons]

theorem Node.dumpAll_file (name : String) (ss : List String) (stamp : Nat) (ns : List Node) :
    dumpAll (.file name (ss.map .text) stamp :: ns) =
      (name, .list (ss.map .text)) :: dumpAll ns := by
  rw [dumpAll, dump, List.map_map]
  rfl

namespace Seed

variable {fields : List (String × Json)}

/-- What describes the nodes that a seed describes is a seed, and describes the same nodes. -/
structure Redescribed (fields : List (String × Json)) : Prop where
  valid : Valid (Node.dumpAll (nodes fields).1)
  named : Named (Node.dumpAll (nodes fields).1)
  nodes : nodes (Node.dumpAll (nodes fields).1) = ((nodes fields).1, none)

theorem Redescribed.cons_lines {name : String} {v : Json} {ss : List String} (hname : name ≠ "")
    (hnode : node name v = (some (.file name (ss.map .text) 2), none))
    (h : Redescribed fields) : Redescribed ((name, v) :: fields) := by
  have hcons := @nodes_cons_of_built name v fields _ hnode
  have hdump : Node.dumpAll (Seed.nodes ((name, v) :: fields)).1 =
      (name, .list (ss.map .text)) :: Node.dumpAll (Seed.nodes fields).1 := by
    rw [hcons, Node.dumpAll_file]
  refine ⟨?_, ?_, ?_⟩
  · rw [hdump]
    exact .lines h.valid
  · rw [hdump]
    exact named_cons.mpr ⟨hname, nofun, h.named⟩
  · rw [hdump, nodes_cons_of_built (node_lines hname ss), h.nodes, hcons]

theorem Valid.redescribed (h : Valid fields) (hn : Named fields) : Redescribed fields := by
  induction h with
  | nil => exact ⟨.nil, named_nil, rfl⟩
  | @directory name inner fields held more ihHeld ihMore =>
      obtain ⟨hname, hheld, hmore⟩ := named_cons.mp hn
      have hinner := ihHeld (hheld inner rfl)
      have hrest := ihMore hmore
      have hcons := @nodes_cons_of_built name _ fields _
        (node_directory hname (held.built (hheld inner rfl)))
      have hdump : Node.dumpAll (nodes ((name, .object inner) :: fields)).1 =
          (name, .object (Node.dumpAll (nodes inner).1)) :: Node.dumpAll (nodes fields).1 := by
        rw [hcons]
        rfl
      have hagain := @nodes_cons_of_built name _ (Node.dumpAll (nodes fields).1) _
        (node_directory hname (hinner.valid.built hinner.named))
      refine ⟨?_, ?_, ?_⟩
      · rw [hdump]
        exact .directory hinner.valid hrest.valid
      · rw [hdump]
        refine named_cons.mpr ⟨hname, ?_, hrest.named⟩
        rintro _ ⟨⟩
        exact hinner.named
      · rw [hdump, hagain, hinner.nodes, hrest.nodes, hcons]
  | @line name s fields more ih =>
      obtain ⟨hname, -, hmore⟩ := named_cons.mp hn
      have hnode : node name (.text s) = (some (.file name ([s].map .text) 2), none) :=
        node_line hname s
      exact (ih hmore).cons_lines hname hnode
  | @lines name ss fields more ih =>
      obtain ⟨hname, -, hmore⟩ := named_cons.mp hn
      exact (ih hmore).cons_lines hname (node_lines hname ss)

/-- The nodes for a seed without a key that occurs twice are described by such a seed. -/
theorem KeysAre.dumpAll {P : String → Prop} (h : KeysAre P fields) :
    KeysAre P (Node.dumpAll (Seed.nodes fields).1) := by
  induction h with
  | @intro fields distinct keys below ih =>
      have hkeys : (Node.dumpAll (Seed.nodes fields).1).map Prod.fst =
          (Seed.nodes fields).1.map Node.name := by
        rw [Node.dumpAll_eq_map, List.map_map]
        rfl
      refine .intro (hkeys ▸ distinct.sublist (names_sublist fields)) ?_ ?_
      · intro field hfield
        have hmem := (names_sublist fields).subset (hkeys ▸ List.mem_map_of_mem hfield)
        obtain ⟨source, hsource, hname⟩ := List.mem_map.mp hmem
        exact hname ▸ keys source hsource
      · intro field hfield inner hinner
        rw [Node.dumpAll_eq_map] at hfield
        obtain ⟨n, hn, rfl⟩ := List.mem_map.mp hfield
        obtain ⟨source, hsource, hnode⟩ := mem_nodes hn
        rcases node_eq_some hnode with ⟨held, hv, rfl⟩ | ⟨ss, rfl⟩
        · cases hinner
          exact ih source hsource held hv
        · cases hinner

end Seed

namespace Tree

variable {path : String} {fields : List (String × Json)}

/-- A seed that passes the check and has no empty key is built without a failure, at once or entry
by entry, and the tree holds what the seed describes: directories, files of one line and files of
several, in the order and under the names of the keys, and nothing else. The seed that describes the
tree passes the check, has no empty key either and no key twice if the first one had none, and
builds the same tree under any label. -/
theorem seeding_is_faithful (hcheck : Seed.check path (.object fields) = .ok ())
    (hnamed : Seed.Named fields) (label : Json) :
    let t := (ofSeed label fields).1
    ofSeed label fields = (t, none) ∧ plant { label } [] fields = (t, none) ∧ t.label = label ∧
      List.Forall₂ Seed.Describes fields t.entries ∧
      Seed.check path (.object t.dump) = .ok () ∧ Seed.Named t.dump ∧
      (∀ P, Seed.KeysAre P fields → Seed.KeysAre P t.dump) ∧
      ∀ other, ofSeed other t.dump = ({ t with label := other }, none) := by
  intro t
  obtain ⟨fields', hfields, hvalid⟩ := Seed.check_eq_ok_iff.mp hcheck
  cases hfields
  obtain ⟨hnone, hdescribes⟩ := hvalid.built hnamed
  have hbuilt : ofSeed label fields = (t, none) := Prod.ext rfl hnone
  have hplant : plant { label } [] fields = (t, none) := (plant_eq_seed _ [] fields).trans hbuilt
  have hagain := hvalid.redescribed hnamed
  refine ⟨hbuilt, hplant, rfl, hdescribes, ?_, hagain.named, fun P hkeys ↦ hkeys.dumpAll, ?_⟩
  · exact Seed.check_eq_ok_iff.mpr ⟨_, rfl, hagain.valid⟩
  · intro other
    have hnodes : Seed.nodes t.dump = (t.entries, none) := hagain.nodes
    rw [ofSeed_eq, hnodes]

/-- A seed with a file, a directory and a file and an empty directory in it is built entry by entry.
What describes the tree has the one line of the first file in a list. -/
theorem nested_seed_is_planted :
    let fields := [("a", .text "x"),
      ("d", .object [("b", .list [.text "y", .text ""]), ("e", .object [])])]
    let t := (ofSeed (.text "~") fields).1
    Seed.check "seed" (.object fields) = .ok () ∧ Seed.Named fields ∧
      plant { label := .text "~" } [] fields = (t, none) ∧
      t.entries = [.file "a" [.text "x"] 2,
        .directory "d" [.file "b" [.text "y", .text ""] 2, .directory "e" []]] ∧
      t.dump = [("a", .list [.text "x"]),
        ("d", .object [("b", .list [.text "y", .text ""]), ("e", .object [])])] ∧
      ofSeed (.text "home") t.dump = ({ t with label := .text "home" }, none) := by
  intro fields t
  have hcheck : Seed.check "seed" (.object fields) = .ok () := rfl
  have hnamed : Seed.Named fields := by simp [fields, Seed.named_cons, Seed.named_nil]
  obtain ⟨-, hplant, -, -, -, -, -, hagain⟩ := seeding_is_faithful hcheck hnamed (.text "~")
  exact ⟨hcheck, hnamed, hplant, rfl, rfl, hagain (.text "home")⟩

end Tree

end TreeShell
