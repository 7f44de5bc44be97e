import Mathlib.Data.List.Nodup
import TreeShell.Proofs.Tree.Contents
import TreeShell.Settings
import TreeShell.Tree.Create

/-!
# Trees from seeds

A seed that passes the check and has no empty key is built completely, and the names in its tree are
as distinct as its keys.
-/

namespace TreeShell

/-!
## Trees that are built from a seed

The nodes for an object are named after its keys, in the same order. So where no object of the seed
has a key twice, no directory of the tree has a name twice.
-/

namespace Seed

/-- The keys in a seed are of a sort at every depth, and no object has a key twice. -/
inductive KeysAre (P : String → Prop) : List (String × Json) → Prop
  | intro {fields : List (String × Json)} (distinct : (fields.map Prod.fst).Nodup)
      (keys : ∀ field ∈ fields, P field.1)
      (below : ∀ field ∈ fields, ∀ inner, field.2 = .object inner → KeysAre P inner) :
      KeysAre P fields

/-- An entry becomes a directory with the nodes for its fields, or a file of texts. -/
theorem node_eq_some {name : String} {v : Json} {n : Node} (h : (node name v).1 = some n) :
    (∃ inner, v = .object inner ∧ n = .directory name (nodes inner).1) ∨
      ∃ ss : List String, n = .file name (ss.map .text) 2 := by
  cases v with
  | object inner =>
      by_cases hn : name = ""
      · simp [node, hn] at h
      · simp only [node, hn, if_false, Option.some.injEq] at h
        exact .inl ⟨inner, rfl, h.symm⟩
  | text s =>
      by_cases hn : name = ""
      · simp [node, hn] at h
      · simp only [node, hn, if_false, Option.some.injEq] at h
        exact .inr ⟨[s], h.symm⟩
  | list items =>
      cases hs : Json.texts? items with
      | none => simp [node, hs] at h
      | some ss =>
          by_cases hn : name = ""
          · simp [node, hs, hn] at h
          · simp only [node, hs, hn, if_false, Option.some.injEq] at h
            exact .inr ⟨ss, h.symm⟩
  | _ => simp [node] at h

theorem name_of_node {name : String} {v : Json} {n : Node} (h : (node name v).1 = some n) :
    n.name = name := by
  rcases node_eq_some h with ⟨inner, -, rfl⟩ | ⟨ss, rfl⟩ <;> rfl

theorem nodes_cons (name : String) (v : Json) (fields : List (String × Json)) :
    (nodes ((name, v) :: fields)).1 = (node name v).1.toList ++
      if (node name v).2.isSome then [] else (nodes fields).1 := by
  rw [nodes]
  split <;> (rename_i h; simp [h])

theorem mem_nodes {fields : List (String × Json)} {n : Node} (h : n ∈ (nodes fields).1) :
    ∃ field ∈ fields, (node field.1 field.2).1 = some n := by
  induction fields with
  | nil => simp [nodes] at h
  | cons field fields ih =>
      rw [nodes_cons, List.mem_append] at h
      rcases h with h | h
      · exact ⟨field, List.mem_cons_self, by simpa using h⟩
      · split_ifs at h
        · simp at h
        · obtain ⟨other, hmem, hn⟩ := ih h
          exact ⟨other, List.mem_cons_of_mem _ hmem, hn⟩

theorem names_sublist (fields : List (String × Json)) :
    ((nodes fields).1.map Node.name).Sublist (fields.map Prod.fst) := by
  induction fields with
  | nil => simp [nodes]
  | cons field fields ih =>
      rw [nodes_cons, List.map_append, List.map_cons, ← List.singleton_append]
      apply List.Sublist.append
      · cases hn : (node field.1 field.2).1 with
        | none => simp
        | some n => simp [name_of_node hn]
      · split_ifs
        · simp
        · exact ih

theorem flat_nodes (fields : List (String × Json)) :
    ∀ n ∈ (nodes fields).1, n.LinesAre Line.Flat := by
  intro n hn
  obtain ⟨⟨name, v⟩, hmem, hnode⟩ := mem_nodes hn
  rcases node_eq_some hnode with ⟨inner, hv, rfl⟩ | ⟨ss, rfl⟩
  · exact Node.linesAre_directory_iff.mpr (flat_nodes inner)
  · refine Node.linesAre_file_iff.mpr ?_
    intro l hl
    obtain ⟨s, -, rfl⟩ := List.mem_map.mp hl
    exact Line.flat_text s
termination_by sizeOf fields
decreasing_by
  have hlt := List.sizeOf_lt_of_mem hmem
  simp only at hv
  subst hv
  simp only [Prod.mk.sizeOf_spec, Json.object.sizeOf_spec] at hlt
  omega

def Distinct (P : String → Prop) (ns : List Node) : Prop :=
  (ns.map Node.signature).Nodup ∧ ∀ n ∈ ns, P n.name

theorem KeysAre.nodes {P : String → Prop} {fields : List (String × Json)} (h : KeysAre P fields) :
    Distinct P (nodes fields).1 ∧
      ∀ n ∈ (nodes fields).1, n.Everywhere fun m ↦ Distinct P m.children := by
  induction h with
  | @intro fields distinct keys below ih =>
      have hnames : ((Seed.nodes fields).1.map Node.name).Nodup :=
        distinct.sublist (names_sublist fields)
      refine ⟨⟨?_, ?_⟩, ?_⟩
      · apply List.Nodup.of_map Prod.fst
        rwa [List.map_map]
      · intro n hn
        obtain ⟨field, hmem, hnode⟩ := mem_nodes hn
        exact name_of_node hnode ▸ keys field hmem
      · intro n hn
        obtain ⟨field, hmem, hnode⟩ := mem_nodes hn
        rcases node_eq_some hnode with ⟨inner, hv, rfl⟩ | ⟨ss, rfl⟩
        · exact Node.everywhere_directory_iff.mpr (ih field hmem inner hv)
        · exact Node.everywhere_file_iff.mpr (by simp [Distinct, Node.children])

theorem keysAre_nil (P : String → Prop) : KeysAre P [] :=
  .intro List.nodup_nil (by simp) (by simp)

theorem keysAre_object {P : String → Prop} {name : String} {inner : List (String × Json)}
    (hname : P name) (h : KeysAre P inner) : KeysAre P [(name, .object inner)] := by
  refine .intro (List.nodup_singleton name) (by simpa using hname) ?_
  intro field hmem inner' hv
  cases List.mem_singleton.mp hmem
  cases hv
  exact h

theorem keysAre_defaultSeed : KeysAre Path.IsOrdinary defaultSeed := by
  refine .intro (by decide) (by decide) ?_
  intro field hmem inner hv
  simp only [defaultSeed, List.mem_cons, List.not_mem_nil, or_false] at hmem
  rcases hmem with rfl | rfl | rfl
  · cases hv
  · cases hv
  · cases hv
    refine .intro (by decide) (by decide) ?_
    intro field hmem inner hv
    cases List.mem_singleton.mp hmem
    cases hv

end Seed

namespace Tree

variable {label : Json} {fields : List (String × Json)}

theorem ofSeed_eq (label : Json) (fields : List (String × Json)) :
    ofSeed label fields = ({ label, entries := (Seed.nodes fields).1 }, (Seed.nodes fields).2) :=
  rfl

theorem root_ofSeed (label : Json) (fields : List (String × Json)) :
    (ofSeed label fields).1.root = .directory "" (Seed.nodes fields).1 := by
  rw [ofSeed_eq]
  rfl

theorem linesAre_flat_ofSeed (label : Json) (fields : List (String × Json)) :
    (ofSeed label fields).1.LinesAre Line.Flat := by
  rw [LinesAre, root_ofSeed]
  exact Node.linesAre_directory_iff.mpr (Seed.flat_nodes fields)

theorem distinct_ofSeed {P : String → Prop} (h : Seed.KeysAre P fields) (label : Json)
    (place : Place) : Seed.Distinct P ((ofSeed label fields).1.children place) := by
  have hall : (Node.directory "" (Seed.nodes fields).1).Everywhere fun m ↦
      Seed.Distinct P m.children := Node.everywhere_directory_iff.mpr h.nodes
  rw [children, Tree.at?, root_ofSeed]
  cases hm : (Node.directory "" (Seed.nodes fields).1).at? place with
  | none => simp [Seed.Distinct]
  | some m => exact hall place m hm

theorem siblingsUnique_ofSeed {P : String → Prop} (h : Seed.KeysAre P fields) (label : Json) :
    (ofSeed label fields).1.SiblingsUnique := by
  intro place
  exact (distinct_ofSeed h label place).1

theorem namesAre_ofSeed {P : String → Prop} (h : Seed.KeysAre P fields) (label : Json) :
    (ofSeed label fields).1.NamesAre P := by
  intro place sig hsig
  obtain ⟨n, hn, rfl⟩ := List.mem_map.mp hsig
  exact (distinct_ofSeed h label place).2 n hn

end Tree

/-!
## Seeds that are built completely

The check of a seed accepts what is made up of directories, single lines and lists of lines. One
thing in such a seed cannot be built, and the check does not look at it: an empty key.
-/

theorem Json.texts?_eq_some_iff {items : List Json} {ss : List String} :
    texts? items = some ss ↔ items = ss.map .text := by
  induction items generalizing ss with
  | nil => cases ss <;> simp [texts?]
  | cons v items ih => cases v <;> cases ss <;> simp [texts?, ih, and_comm]

namespace Seed

/-- Every entry is an object with such entries, a text or a list of texts. -/
inductive Valid : List (String × Json) → Prop
  | nil : Valid []
  | directory {name : String} {inner fields : List (String × Json)} (held : Valid inner)
      (more : Valid fields) : Valid ((name, .object inner) :: fields)
  | line {name s : String} {fields : List (String × Json)} (more : Valid fields) :
      Valid ((name, .text s) :: fields)
  | lines {name : String} {ss : List String} {fields : List (String × Json)}
      (more : Valid fields) : Valid ((name, .list (ss.map .text)) :: fields)

inductive Named : List (String × Json) → Prop
  | intro {fields : List (String × Json)} (keys : ∀ field ∈ fields, field.1 ≠ "")
      (below : ∀ field ∈ fields, ∀ inner, field.2 = .object inner → Named inner) : Named fields

/-- A node holds what an entry describes, and nothing else. -/
inductive Describes : String × Json → Node → Prop
  | directory {name : String} {fields : List (String × Json)} {children : List Node}
      (entries : List.Forall₂ Describes fields children) :
      Describes (name, .object fields) (.directory name children)
  | line {name s : String} : Describes (name, .text s) (.file name [.text s] 2)
  | lines {name : String} {ss : List String} :
      Describes (name, .list (ss.map .text)) (.file name (ss.map .text) 2)

variable {name path : String} {v : Json} {fields inner : List (String × Json)}

/-! ### The check -/

theorem checkFields_cons : checkFields path ((name, v) :: fields) = .ok () ↔
    checkEntry (path ++ "." ++ name) v = .ok () ∧ checkFields path fields = .ok () := by
  rw [checkFields]
  cases checkEntry (path ++ "." ++ name) v with
  | error e => exact iff_of_false nofun nofun
  | ok u => exact (and_iff_right rfl).symm

theorem valid_of_checkFields {path : String} {fields : List (String × Json)}
    (h : checkFields path fields = .ok ()) : Valid fields := by
  match fields with
  | [] => exact .nil
  | (name, v) :: fields =>
      obtain ⟨hentry, hmore⟩ := checkFields_cons.mp h
      have more : Valid fields := valid_of_checkFields hmore
      cases v with
      | object inner => exact .directory (valid_of_checkFields hentry) more
      | text s => exact .line more
      | list items =>
          cases hs : Json.texts? items with
          | none => simp [checkEntry, hs] at hentry
          | some ss =>
              rw [Json.texts?_eq_some_iff.mp hs]
              exact .lines more
      | _ => cases hentry

theorem Valid.checkFields (h : Valid fields) (path : String) :
    checkFields path fields = .ok () := by
  induction h generalizing path with
  | nil => rfl
  | directory held more ihHeld ihMore => exact checkFields_cons.mpr ⟨ihHeld _, ihMore path⟩
  | line more ih => exact checkFields_cons.mpr ⟨rfl, ih path⟩
  | @lines name ss fields more ih =>
      refine checkFields_cons.mpr ⟨?_, ih path⟩
      rw [checkEntry, Json.texts?_eq_some_iff.mpr rfl]
      rfl

theorem check_eq_ok_iff : check path v = .ok () ↔ ∃ fields, v = .object fields ∧ Valid fields := by
  constructor
  · intro h
    cases v with
    | object fields => exact ⟨fields, rfl, valid_of_checkFields h⟩
    | _ => cases h
  · rintro ⟨fields, rfl, h⟩
    exact h.checkFields path

/-! ### Building -/

theorem named_nil : Named [] := .intro nofun nofun

theorem named_cons : Named ((name, v) :: fields) ↔
    name ≠ "" ∧ (∀ inner, v = .object inner → Named inner) ∧ Named fields := by
  constructor
  · rintro ⟨keys, below⟩
    obtain ⟨hname, keys⟩ := List.forall_mem_cons.mp keys
    obtain ⟨hv, below⟩ := List.forall_mem_cons.mp below
    exact ⟨hname, hv, keys, below⟩
  · rintro ⟨hname, hv, keys, below⟩
    exact ⟨List.forall_mem_cons.mpr ⟨hname, keys⟩, List.forall_mem_cons.mpr ⟨hv, below⟩⟩

theorem nodes_cons_of_built {n : Node} (h : node name v = (some n, none)) :
    nodes ((name, v) :: fields) = (n :: (nodes fields).1, (nodes fields).2) := by
  simp [nodes, h]

theorem nodes_cons_of_fault {fault : Failure} (h : (node name v).2 = some fault) :
    (nodes ((name, v) :: fields)).2 = some fault := by
  rw [nodes]
  split <;> simp_all

def Built (fields : List (String × Json)) : Prop :=
  (nodes fields).2 = none ∧ List.Forall₂ Describes fields (nodes fields).1

theorem Built.cons {n : Node} (h : Built fields) (hnode : node name v = (some n, none))
    (hn : Describes (name, v) n) : Built ((name, v) :: fields) := by
  rw [Built, nodes_cons_of_built hnode]
  exact ⟨h.1, .cons hn h.2⟩

theorem node_directory (hname : name ≠ "") (h : Built inner) :
    node name (.object inner) = (some (.directory name (nodes inner).1), none) := by
  simp [node, hname, h.1]

theorem node_line (hname : name ≠ "") (s : String) :
    node name (.text s) = (some (.file name [.text s] 2), none) := by
  simp [node, hname]

theorem node_lines (hname : name ≠ "") (ss : List String) :
    node name (.list (ss.map .text)) = (some (.file name (ss.map .text) 2), none) := by
  simp [node, Json.texts?_eq_some_iff.mpr rfl, hname]

theorem Valid.built (h : Valid fields) (hn : Named fields) : Built fields := by
  induction h with
  | nil => exact ⟨rfl, .nil⟩
  | @directory name inner fields held more ihHeld ihMore =>
      obtain ⟨hname, hheld, hmore⟩ := named_cons.mp hn
      have hinner : Built inner := ihHeld (hheld inner rfl)
      exact (ihMore hmore).cons (node_directory hname hinner) (.directory hinner.2)
  | @line name s fields more ih =>
      obtain ⟨hname, -, hmore⟩ := named_cons.mp hn
      exact (ih hmore).cons (node_line hname s) .line
  | @lines name ss fields more ih =>
      obtain ⟨hname, -, hmore⟩ := named_cons.mp hn
      exact (ih hmore).cons (node_lines hname ss) .lines

theorem Valid.nameless_of_name (h : Valid ((name, v) :: fields)) (hname : name = "") :
    (nodes ((name, v) :: fields)).2 = some nameless := by
  apply nodes_cons_of_fault
  cases h with
  | lines more => simp [node, Json.texts?_eq_some_iff.mpr rfl, hname]
  | _ => simp [node, hname]

/-- The first empty key is where building stops. -/
theorem Valid.nameless (h : Valid fields) (hn : ¬ Named fields) :
    (nodes fields).2 = some nameless := by
  induction h with
  | nil => exact absurd named_nil hn
  | @directory name inner fields held more ihHeld ihMore =>
      by_cases hname : name = ""
      · exact (Valid.directory held more).nameless_of_name hname
      · by_cases hinner : Named inner
        · rw [nodes_cons_of_built (node_directory hname (held.built hinner))]
          refine ihMore fun hmore ↦ hn (named_cons.mpr ⟨hname, ?_, hmore⟩)
          rintro _ ⟨⟩
          exact hinner
        · apply nodes_cons_of_fault
          simp [node, hname, ihHeld hinner]
  | @line name s fields more ih =>
      by_cases hname : name = ""
      · exact (Valid.line more).nameless_of_name hname
      · rw [nodes_cons_of_built (node_line hname s)]
        refine ih fun hmore ↦ hn (named_cons.mpr ⟨hname, ?_, hmore⟩)
        rintro _ ⟨⟩
  | @lines name ss fields more ih =>
      by_cases hname : name = ""
      · exact (Valid.lines more).nameless_of_name hname
      · rw [nodes_cons_of_built (node_lines hname ss)]
        refine ih fun hmore ↦ hn (named_cons.mpr ⟨hname, ?_, hmore⟩)
        rintro _ ⟨⟩

end Seed

end TreeShell
