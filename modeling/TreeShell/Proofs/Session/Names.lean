import TreeShell.Proofs.Session.References
import TreeShell.Proofs.Session.Siblings
import TreeShell.Proofs.Tree.Reserved

/-!
# Names that paths can lead to

Every name that a session gives is a segment of some path, so it is not empty and has no slash in
it. A reserved name is given in two ways only. A line gives it at a path whose directory is written
with a slash at its end, where looking the path up tells nothing. The editor gives it when it saves
a text that was opened at such a name, since it takes the directory there for no file.
-/

namespace TreeShell

namespace Tree

variable {t t' : Tree} {M : Mark → Prop}

def Names (Q : String → Prop) (t : Tree) (start : Place) (segments : List String) (kind : Kind) :
    Prop :=
  t.CanMake start segments kind → Q (Path.lastName segments)

theorem Changes.namesAre_of {Q : String → Prop} (h : Changes (Names Q) M t t')
    (hn : t.NamesAre Q) : t'.NamesAre Q := by
  refine h.preserves (fun t t' hsame hn ↦ hsame.namesAre_iff.mpr hn) ?_ hn
  intro t t' start segments kind place hname hc hn
  obtain ⟨parent, -, hm⟩ := made_of_create hc
  exact hm.namesAre hn (hname ⟨_, hc⟩)

theorem CanMake.name_ne {start : Place} {segments : List String} {kind : Kind}
    (h : t.CanMake start segments kind) : Path.lastName segments ≠ "" := by
  obtain ⟨⟨t', place⟩, hc⟩ := h
  obtain ⟨parent, -, hm⟩ := made_of_create hc
  exact hm.name_ne

end Tree

namespace Session

variable {s s' : Session} {reg : Registry}

/-! ## All names are segments -/

/-- All names in a session are segments, and so is the one that an open editor will give. -/
structure Spelled (s : Session) : Prop where
  names : s.tree.NamesAre Path.IsSegment
  editor : ∀ e, s.editor = some e → Path.separator ∉ (Path.lastName e.segments).toList

abbrev SpelledChanges : Tree → Tree → Prop :=
  Tree.Changes (Tree.Names Path.IsSegment) fun _ ↦ True

theorem spelled_of_follows (h : s.Spelled) (hchanges : SpelledChanges s.tree s'.tree) {t : Tree}
    (hfollows : s.Follows t s'.editor) : s'.Spelled := by
  refine ⟨hchanges.namesAre_of h.names, ?_⟩
  intro e' he'
  rw [he'] at hfollows
  cases hfollows with
  | opened path => exact Path.separator_notMem_lastName_split path
  | kept he work =>
      have hsegments := (Prod.mk.inj (Prod.mk.inj work).1).1
      exact hsegments ▸ h.editor _ he
  | saved he work text =>
      have hsegments := (Prod.mk.inj (Prod.mk.inj work).1).1
      exact hsegments ▸ h.editor _ he

theorem spelled_of_site (hsite : s'.site = s.site) (h : s.Spelled) : s'.Spelled := by
  obtain ⟨hlocation, heditor⟩ := Prod.mk.inj hsite
  have htree := (Prod.mk.inj hlocation).1
  exact ⟨htree ▸ h.names, heditor ▸ h.editor⟩

theorem mayMake_segment (path : String) (kind : Kind) :
    MayMake (Tree.Names Path.IsSegment) path kind := by
  intro t start _ hmake
  exact ⟨hmake.name_ne, Path.separator_notMem_lastName_split path⟩

theorem spelled_execute (hreg : reg.OfBuiltins) (line : String) (h : s.Spelled) :
    (s.execute reg line).1.Spelled :=
  spelled_of_follows h (changes_execute hreg line s fun x _ ↦ mayMake_segment x.1 x.2)
    (follows_execute hreg line s s.tree)

theorem spelled_press (hreg : reg.OfBuiltins) (k : KeyEvent) (h : s.Spelled) :
    (s.press reg k).1.Spelled := by
  refine spelled_of_follows h ?_ (follows_press hreg k)
  unfold press
  split
  · rename_i e he
    refine changes_editorKey s e k ?_ fun _ _ _ _ _ ↦ trivial
    exact fun _ _ _ _ hmake ↦ ⟨hmake.name_ne, h.editor e he⟩
  · exact changes_shellKey hreg s k fun _ _ x _ ↦ mayMake_segment x.1 x.2

theorem spelled_runEx {e : Editor} (he : s.editor = some e) (command : String) (h : s.Spelled) :
    (s.runEx e command).1.Spelled := by
  refine spelled_of_follows h ?_ (follows_runEx he rfl command)
  exact changes_runEx s e command fun _ _ hmake ↦ ⟨hmake.name_ne, h.editor e he⟩

theorem spelled_step (hreg : reg.OfBuiltins) (x : Step) (h : s.Spelled) :
    (s.step reg x).Spelled :=
  step_preserves (fun hcore ↦ spelled_of_site (site_of_core hcore)) (spelled_execute hreg)
    (spelled_press hreg) spelled_runEx x (fun _ _ ↦ ⟨h.names, h.editor⟩) h

theorem spelled_run (hreg : reg.OfBuiltins) (steps : List Step) (h : s.Spelled) :
    (s.run reg steps).Spelled :=
  run_preserves reg (fun _ x _ hs ↦ spelled_step hreg x hs) h

/-! ## Reserved names -/

/-- The policy under which no reserved name is given: paths at which lines make nodes are guarded,
and no text without a file is saved at a reserved name. -/
def Policy.guarded : Policy where
  line _ line := ∀ x ∈ Registry.standard.paths line, Path.Guarded (Path.split x.1)
  save _ _ segments := ¬ Path.IsReserved (Path.lastName segments)
  list _ := True

theorem mayMake_unreserved {path : String} (h : Path.Guarded (Path.split path)) (kind : Kind) :
    MayMake (Tree.Names fun name ↦ ¬ Path.IsReserved name) path kind := by
  rintro t start hnone ⟨⟨t', place⟩, hc⟩
  exact Tree.not_isReserved_of_guarded (Path.split_ne_nil path) h hnone hc

theorem guarded_enforces :
    Policy.guarded.Enforces .standard (Tree.Names fun name ↦ ¬ Path.IsReserved name) where
  line := fun _ _ h x hx ↦ mayMake_unreserved (h x hx) x.2
  save := fun _ _ _ h _ ↦ h

theorem names_line_iff (hn : s.tree.NamesAre Path.IsOrdinary) (m : Maker) {path : String}
    (hp : Command.Word path) :
    (s.execute .standard (m.line path)).1.tree.NamesAre Path.IsOrdinary ↔
      Path.Guarded (Path.split path) ∨ ¬ s.tree.CanMake s.cwd (Path.split path) m.kind := by
  rw [(provides_line m hp s).nodes.namesAre_iff]
  exact Tree.namesAre_provide_iff hn (Path.split_ne_nil path)
    (Path.separator_notMem_lastName_split path) m.kind_mem_found

theorem names_save_iff (hn : s.tree.NamesAre Path.IsOrdinary) {e : Editor} (hf : e.file = none)
    (hslash : Path.separator ∉ (Path.lastName e.segments).toList) :
    (s.save e).1.tree.NamesAre Path.IsOrdinary ↔
      ¬ Path.IsReserved (Path.lastName e.segments) ∨
        ¬ s.tree.CanMake e.home e.segments .text := by
  rw [tree_save hf]
  cases hc : s.tree.create e.home e.segments .text with
  | ok made =>
      obtain ⟨t, place⟩ := made
      have hcan : s.tree.CanMake e.home e.segments .text := ⟨_, hc⟩
      rw [(Tree.sameNodes_write t place e.lines).namesAre_iff,
        Tree.namesAre_create_iff hn hslash hc]
      exact (or_iff_left (not_not.mpr hcan)).symm
  | error failure =>
      refine iff_of_true hn (.inr ?_)
      rintro ⟨made, hmade⟩
      cases hc.symm.trans hmade

theorem names_ex_iff (hn : s.tree.NamesAre Path.IsOrdinary) (hs : s.Spelled) {e : Editor}
    (he : s.editor = some e) (hf : e.file = none) {command : String}
    (hsaves : (ExCommand.ofString command).saves = true) :
    (s.step reg (.ex command)).tree.NamesAre Path.IsOrdinary ↔
      ¬ Path.IsReserved (Path.lastName e.segments) ∨
        ¬ s.tree.CanMake e.home e.segments .text := by
  rw [step, he, Option.elim_some, tree_runEx_of_saves hsaves]
  exact names_save_iff hn hf (hs.editor e he)

theorem spelled_ofConfig {config : Config}
    (h : Seed.KeysAre Path.IsOrdinary config.filesystem.seed) : (ofConfig config).1.Spelled where
  names := (Tree.namesAre_ordinary_iff.mp (Tree.namesAre_ofSeed h _)).1
  editor := nofun

/-- A session starts from a seed with ordinary keys. However it is run, names are segments, and they
are ordinary if every line makes its nodes at guarded paths and no text is saved to a new file of a
reserved name. While they are, the address of a node leads to it from every directory; a line that
makes a node gives a reserved name exactly at a path that is not guarded, and so does a save at a
reserved name, if a node can be made there. No path ever leads to a node of a reserved name from
outside of it. -/
theorem names_ordinary_while_guarded (config : Config)
    (hseed : Seed.KeysAre Path.IsOrdinary config.filesystem.seed) (steps : List Step) :
    let s := (ofConfig config).1.run .standard steps
    s.tree.NamesAre Path.IsSegment ∧
      (Policy.guarded.AllowsRun .standard (ofConfig config).1 steps →
        s.tree.NamesAre Path.IsOrdinary) ∧
      (s.tree.NamesAre Path.IsOrdinary →
        (s.tree.SiblingsUnique → ∀ place sig start, s.tree.signature? place = some sig →
          s.tree.isDirectory start = true →
            s.tree.resolve start (s.tree.address place) (some sig.2) = some place) ∧
        (∀ (m : Maker) (path : String), Command.Word path →
          ((s.execute .standard (m.line path)).1.tree.NamesAre Path.IsOrdinary ↔
            Path.Guarded (Path.split path) ∨
              ¬ s.tree.CanMake s.cwd (Path.split path) m.kind)) ∧
        ∀ e command, s.editor = some e → e.file = none →
          (ExCommand.ofString command).saves = true →
            ((s.step .standard (.ex command)).tree.NamesAre Path.IsOrdinary ↔
              ¬ Path.IsReserved (Path.lastName e.segments) ∨
                ¬ s.tree.CanMake e.home e.segments .text)) ∧
      ∀ above i sig, s.tree.signature? (above ++ [i]) = some sig → Path.IsReserved sig.1 →
        ∀ later start segments kind? q,
          (s.run .standard later).tree.resolve start segments kind? = some q →
            above ++ [i] <+: q → above ++ [i] <+: start := by
  intro s
  have hspelled : s.Spelled :=
    spelled_run Registry.standard_ofBuiltins steps (spelled_ofConfig hseed)
  have hseeded := Tree.namesAre_ordinary_iff.mp
    (Tree.namesAre_ofSeed hseed config.filesystem.rootLabel)
  refine ⟨hspelled.names, ?_, fun hn ↦ ⟨?_, ?_, ?_⟩, ?_⟩
  · intro hallowed
    have hchanges := changes_of_allowsRun Registry.standard_ofBuiltins guarded_enforces _ steps
      hallowed
    exact Tree.namesAre_ordinary_iff.mpr ⟨hspelled.names, hchanges.namesAre_of hseeded.2⟩
  · rintro hunique place ⟨name, kind⟩ start hsig hstart
    exact Tree.resolve_address hn hunique hstart hsig
  · intro m path hp
    exact names_line_iff hn m hp
  · intro e command he hf hsaves
    exact names_ex_iff hn hspelled he hf hsaves
  · intro above i sig hsig hreserved later start segments kind? q hleads hq
    have hgrows := (anyChanges_run s Registry.standard_ofBuiltins later).grows
    exact Tree.prefix_of_resolve (hgrows.signature? hsig) hreserved hleads hq

/-- In the session without any configuration `touch a` gives an ordinary name, while `mkdir /..` and
a save of what was opened by `vi ..` give a reserved one. -/
theorem default_names :
    let s := (ofConfig {}).1
    Seed.KeysAre Path.IsOrdinary defaultSeed ∧ s.tree.NamesAre Path.IsOrdinary ∧
      (s.execute .standard (Maker.touch.line "a")).1.tree.NamesAre Path.IsOrdinary ∧
      ¬ (s.execute .standard (Maker.mkdir.line "/..")).1.tree.NamesAre Path.IsOrdinary ∧
      ¬ (s.run .standard [.execute "vi ..", .ex "w"]).tree.NamesAre Path.IsOrdinary := by
  intro s
  have hseed := Seed.keysAre_defaultSeed
  obtain ⟨-, hordinary, hsteps, -⟩ := names_ordinary_while_guarded {} hseed []
  have hs : s.tree.NamesAre Path.IsOrdinary := hordinary trivial
  obtain ⟨-, hline, -⟩ := hsteps hs
  refine ⟨hseed, hs, (hline .touch "a" (by decide)).mpr (.inl (by decide)), ?_, ?_⟩
  · intro hn
    rcases (hline .mkdir "/.." (by decide)).mp hn with hguarded | hmake
    · revert hguarded
      decide
    · exact hmake ⟨_, rfl⟩
  · let opened := s.step .standard (.execute "vi ..")
    have heditor : opened.editor = some (s.editorAt "..") := by decide +kernel
    have hkept : opened.tree.NamesAre Path.IsOrdinary := by
      have hallowed : Policy.guarded.AllowsRun .standard s [.execute "vi .."] :=
        ⟨by change ∀ x ∈ Registry.standard.paths "vi ..", _; decide +kernel, trivial⟩
      exact (names_ordinary_while_guarded {} hseed [.execute "vi .."]).2.1 hallowed
    obtain ⟨-, -, hex⟩ := (names_ordinary_while_guarded {} hseed [.execute "vi .."]).2.2.1 hkept
    intro hn
    rcases (hex _ "w" heditor (by decide +kernel) (by decide)).mp hn with hfree | hmake
    · exact hfree (.inr (.inl (by decide +kernel)))
    · exact hmake ⟨_, rfl⟩

end Session

end TreeShell
