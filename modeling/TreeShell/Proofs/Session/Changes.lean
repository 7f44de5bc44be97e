import TreeShell.Proofs.Session.Commands
import TreeShell.Proofs.Session.Run

/-!
# What a step does to the tree

Every operation of a session changes its tree by a sequence of single changes. The nodes that are
made on the way obey `P`, and the lists that change have marks in `M`, if the policy sees to it.
-/

namespace TreeShell

open TreeShell.Tree (Changes)
open Relation (ReflTransGen)

variable {P : Tree → Place → List String → Kind → Prop} {M : Mark → Prop} {reg : Registry}

/-- A node of a kind may be made at a path wherever the path leads nowhere. -/
def MayMake (P : Tree → Place → List String → Kind → Prop) (path : String) (kind : Kind) : Prop :=
  ∀ t start, t.resolvePath start path (some kind) = none → P t start (Path.split path) kind

namespace Editor

variable {fresh : Mark} {e e' : Editor} {k : KeyEvent}

/-- What a key may make of an editor. In insert mode it may begin a line, take a character from the
last line or that line itself, or put its text there. Otherwise the text stays as it is. -/
inductive Takes (fresh : Mark) (e : Editor) (k : KeyEvent) : Editor → Prop
  | aside (mode : Mode) (command : String) : Takes fresh e k { e with mode, command }
  | begin (inserts : e.mode = .insert) (key : k.key = .enter) :
      Takes fresh e k { e with earlier := e.lines, line := .text "", modified := true }
  | erase (inserts : e.mode = .insert) (key : k.key = .backspace) {line : Line}
      (shorter : e.line.dropLast fresh = .ok line) : Takes fresh e k (e.withLine line)
  | join (inserts : e.mode = .insert) (key : k.key = .backspace) {line : Line}
      (last : e.earlier.getLast? = some line) :
      Takes fresh e k { e with earlier := e.earlier.dropLast, line, modified := true }
  | push (inserts : e.mode = .insert) (key : k.key ≠ .escape) (text : k.text ≠ "") {line : Line}
      (longer : e.line.push k.text = .ok line) : Takes fresh e k (e.withLine line)

theorem exists_of_map_withLine {line : Except Mismatch Line} (h : line.map e.withLine = .ok e') :
    ∃ l, line = .ok l ∧ e' = e.withLine l := by
  cases line with
  | error m => cases h
  | ok l =>
      cases h
      exact ⟨l, rfl, rfl⟩

theorem takes_insertKey (hmode : e.mode = .insert) (h : e.insertKey fresh k = .ok e') :
    e.Takes fresh k e' := by
  unfold insertKey at h
  split at h
  · cases h
    exact .aside .command ""
  · rename_i hkey
    cases h
    exact .begin hmode hkey
  · rename_i hkey
    unfold Editor.erase at h
    split_ifs at h
    · obtain ⟨line, hline, rfl⟩ := exists_of_map_withLine h
      exact .erase hmode hkey hline
    · cases h
      cases hlast : e.earlier.getLast? with
      | none => exact .aside e.mode e.command
      | some line => exact .join hmode hkey hlast
  · rename_i hescape _ _
    split_ifs at h with htext
    · cases h
      exact .aside e.mode e.command
    · obtain ⟨line, hline, rfl⟩ := exists_of_map_withLine h
      exact .push hmode hescape htext hline

theorem takes_press {submitted : Option String} (h : e.press fresh k = .ok (e', submitted)) :
    e.Takes fresh k e' := by
  unfold press at h
  split at h
  · rename_i hmode
    cases hk : e.insertKey fresh k with
    | error m => simp [hk, Except.map] at h
    | ok made =>
        rw [hk] at h
        cases h
        exact takes_insertKey hmode hk
  · rw [commandKey] at h
    split at h
    · cases h
      exact .aside e.mode ""
    · cases h
      exact .aside e.mode ""
    · cases h
      exact .aside e.mode _
    · split_ifs at h <;> (cases h; exact .aside _ _)

theorem press_eq_ok_some {command : String} (h : e.press fresh k = .ok (e', some command)) :
    e.mode = .command ∧ k.key = .enter ∧ e' = { e with command := "" } ∧ command = e.command := by
  unfold press at h
  split at h
  · cases hk : e.insertKey fresh k <;> simp [hk, Except.map] at h
  · rename_i hmode
    simp only [commandKey, Except.ok.injEq] at h
    split at h
    · simp at h
    · rename_i hkey
      simp only [Prod.mk.injEq, Option.some.injEq] at h
      exact ⟨hmode, hkey, h.1.symm, h.2.symm⟩
    · simp at h
    · split at h <;> simp at h

end Editor

namespace Session

variable {s : Session}

theorem create_eq_ok_iff {s s' : Session} {start place : Place} {segments : List String}
    {kind : Kind} :
    s.create start segments kind = .ok (s', place) ↔
      ∃ t, s.tree.create start segments kind = .ok (t, place) ∧
        s' = { s with tree := t }.note (createdRecord (t.path place) kind) := by
  unfold create
  cases h : s.tree.create start segments kind with
  | error e => simp
  | ok made =>
      obtain ⟨t, q⟩ := made
      simp only [Except.ok.injEq, Prod.mk.injEq]
      constructor
      · rintro ⟨rfl, rfl⟩
        exact ⟨t, ⟨rfl, rfl⟩, rfl⟩
      · rintro ⟨t', ⟨rfl, rfl⟩, rfl⟩
        exact ⟨rfl, rfl⟩

theorem changes_of_create {s s' : Session} {start place : Place} {segments : List String}
    {kind : Kind} (hP : P s.tree start segments kind)
    (h : s.create start segments kind = .ok (s', place)) : Changes P M s.tree s'.tree := by
  obtain ⟨t, ht, rfl⟩ := create_eq_ok_iff.mp h
  exact .single (.make hP ht)

/-! ## Commands -/

theorem changes_make (s : Session) (segments : List String) (kind : Kind)
    (hP : P s.tree s.cwd segments kind) : Changes P M s.tree (s.make segments kind).1.tree := by
  unfold make
  split
  · rename_i s' place h
    exact changes_of_create hP h
  · exact .refl
  · exact .refl

theorem changes_each (one : Session → String → Outcome) (s : Session) (paths : List String)
    (h : ∀ s, ∀ path ∈ paths, Changes P M s.tree (one s path).1.tree) :
    Changes P M s.tree (s.each one paths).1.tree :=
  each_preserves (I := fun s' ↦ Changes P M s.tree s'.tree)
    (fun s' path hmem hs ↦ hs.trans (h s' path hmem)) .refl

theorem changes_touchOne (s : Session) (path : String) (hP : MayMake P path .text) :
    Changes P M s.tree (s.touchOne path).1.tree := by
  unfold touchOne
  split
  · rename_i h
    exact changes_make s _ _ (hP _ _ h)
  · split
    · exact .refl
    · exact .single (.touch ..)

theorem changes_mkdirOne (s : Session) (path : String) (hP : MayMake P path .directory) :
    Changes P M s.tree (s.mkdirOne path).1.tree := by
  unfold mkdirOne
  split
  · exact .refl
  · rename_i h
    exact changes_make s _ _ (hP _ _ h)

def location (s : Session) : Tree × Place := (s.tree, s.cwd)

def site (s : Session) : (Tree × Place) × Option Editor := (s.location, s.editor)

def core (s : Session) : Session :=
  { s with screen := [], buffer := "", history := [], cursor := 0, tabPending := false, log := [] }

theorem site_of_core {s' : Session} (h : s'.core = s.core) : s'.site = s.site :=
  (congrArg site h :)

theorem location_run {b : Builtin} (hmakes : b.makes = none) (hcd : b ≠ .cd)
    (listing : List String) (s : Session) (cmd : Command) :
    (b.run listing s cmd).1.location = s.location := by
  cases b with
  | cd => exact absurd rfl hcd
  | touch => cases hmakes
  | mkdir => cases hmakes
  | clear => rfl
  | echo => rfl
  | help => rfl
  | pwd =>
      simp only [Builtin.run, showValue]
      split <;> rfl
  | whoami =>
      simp only [Builtin.run, showValue]
      split <;> rfl
  | ls =>
      simp only [Builtin.run, ls]
      split
      · split <;> rfl
      · refine each_keeps location (fun s path ↦ ?_) s _
        unfold listOne
        split <;> rfl
  | cat => exact each_keeps location (fun _ _ ↦ rfl) s _
  | vi =>
      simp only [Builtin.run, vi]
      split <;> rfl

theorem tree_cd (listing : List String) (s : Session) (cmd : Command) :
    (Builtin.cd.run listing s cmd).1.tree = s.tree := by
  simp only [Builtin.run, cd]
  split
  · rfl
  · split <;> rfl

theorem tree_run {b : Builtin} (h : b.makes = none) (listing : List String) (s : Session)
    (cmd : Command) : (b.run listing s cmd).1.tree = s.tree := by
  by_cases hcd : b = .cd
  · subst hcd
    exact tree_cd listing s cmd
  · exact congrArg Prod.fst (location_run h hcd listing s cmd)

theorem cwd_run {b : Builtin} (h : b ≠ .cd) (listing : List String) (s : Session) (cmd : Command) :
    (b.run listing s cmd).1.cwd = s.cwd := by
  by_cases htouch : b = .touch
  · subst htouch
    exact each_keeps cwd (fun s path ↦ (provides_touchOne s path).cwd) s _
  · by_cases hmkdir : b = .mkdir
    · subst hmkdir
      exact each_keeps cwd (fun s path ↦ (provides_mkdirOne s path).cwd) s _
    · have hmakes : b.makes = none := by cases b <;> simp_all [Builtin.makes]
      exact congrArg Prod.snd (location_run hmakes h listing s cmd)

theorem changes_run (b : Builtin) (listing : List String) (s : Session) (cmd : Command)
    (hP : ∀ kind, b.makes = some kind → ∀ path ∈ cmd.args, MayMake P path kind) :
    Changes P M s.tree (b.run listing s cmd).1.tree := by
  cases hb : b.makes with
  | none => rw [tree_run hb]
  | some kind =>
      have hpath := hP kind hb
      cases b <;> simp only [Builtin.makes, reduceCtorEq, Option.some.injEq] at hb
      case touch =>
        subst hb
        exact changes_each _ s _ fun s path hp ↦ changes_touchOne s path (hpath path hp)
      case mkdir =>
        subst hb
        exact changes_each _ s _ fun s path hp ↦ changes_mkdirOne s path (hpath path hp)

/-! ## Lines -/

theorem changes_dispatch (hreg : reg.OfBuiltins) (s : Session) (cmd : Command)
    (hP : ∀ kind, reg.makes cmd = some kind → ∀ path ∈ cmd.args, MayMake P path kind) :
    Changes P M s.tree (s.dispatch reg cmd).1.tree := by
  unfold dispatch
  split
  · exact .refl
  · split
    · exact .refl
    · rename_i spec hspec
      obtain ⟨b, hb⟩ := hreg spec (List.mem_of_find?_eq_some hspec)
      have hmakes : reg.makes cmd = b.makes := by simp [Registry.makes, hspec, hb]
      rw [tree_settle, hb]
      exact changes_run b reg.listing (s.note (.debug "interpreter" "Dispatching"
        [("command", Log.Detail.ofString cmd.name), ("args", .words cmd.args)])) cmd
        (hmakes ▸ hP)

theorem changes_redirectTarget (s : Session) (target : String) (hP : MayMake P target .text) :
    Changes P M s.tree (s.redirectTarget target).1.tree := by
  unfold redirectTarget
  split
  · exact .refl
  · rename_i h
    split
    · exact .refl
    · split
      · rename_i hmade
        exact changes_of_create (hP _ _ h) hmade
      · exact .refl
      · exact .refl

theorem changes_deliver (s : Session) (mode : RedirectMode) (place : Place) (lines : List Line) :
    Changes P M s.tree (s.deliver mode place lines).tree := by
  cases mode with
  | truncate => exact .single (.write ..)
  | append => exact .single (.append ..)

theorem changes_redirect (s : Session) (r : Redirect) (inner : Result Place)
    (hP : MayMake P r.target .text) : Changes P M s.tree (s.redirect r inner).1.tree := by
  have htarget := changes_redirectTarget (M := M) s r.target hP
  unfold redirect
  split
  · rename_i s' place hs
    rw [hs] at htarget
    exact htarget.trans (changes_deliver s' _ _ _)
  · rename_i s' e hs
    rwa [hs] at htarget
  · rename_i s' failure hs
    rwa [hs] at htarget

theorem changes_execute (hreg : reg.OfBuiltins) (line : String) (s : Session)
    (hP : ∀ x ∈ reg.paths line, MayMake P x.1 x.2) :
    Changes P M s.tree (s.execute reg line).1.tree := by
  induction line using Command.chain_induction with
  | error line e h =>
      rw [execute_of_error h]
      exact .refl
  | plain line cmd h hr =>
      rw [execute_of_plain h hr]
      refine changes_dispatch hreg s cmd fun kind hkind path hpath ↦ ?_
      rw [Registry.paths_of_plain h hr, hkind] at hP
      exact hP (path, kind) (List.mem_map_of_mem hpath)
  | redirect line cmd r h hr ih =>
      rw [Registry.paths_of_redirect h hr, List.forall_mem_cons] at hP
      have hbody := ih hP.2
      rw [execute_of_redirect h hr]
      unfold Outcome.send
      split
      · rename_i s' inner hs
        rw [hs] at hbody
        exact hbody.trans (changes_redirect s' r inner hP.1)
      · rename_i s' failure hs
        rwa [hs] at hbody

theorem label_execute (hreg : reg.OfBuiltins) (line : String) (s : Session) :
    (s.execute reg line).1.tree.label = s.tree.label := by
  have hchanges : Changes (fun _ _ _ _ ↦ True) (fun _ ↦ False) s.tree
      (s.execute reg line).1.tree := changes_execute hreg line s fun _ _ _ _ _ ↦ trivial
  exact hchanges.label

/-! ## Keys -/

theorem changes_save (s : Session) (e : Editor)
    (hP : e.file = none → P s.tree e.home e.segments .text) :
    Changes P M s.tree (s.save e).1.tree := by
  unfold save fileFor
  cases hf : e.file with
  | some place => exact .single (.write ..)
  | none =>
      simp only
      split
      · exact .refl
      · exact .refl
      · rename_i s' place hs
        exact (changes_of_create (hP hf) hs).trans (.single (.write ..))

theorem tree_save {e : Editor} (hf : e.file = none) :
    (s.save e).1.tree =
      match s.tree.create e.home e.segments .text with
      | .ok (t, place) => t.write place e.lines
      | .error _ => s.tree := by
  unfold save fileFor create
  rw [hf]
  cases s.tree.create e.home e.segments .text with
  | ok made => rfl
  | error failure => cases failure <;> rfl

@[simp] theorem tree_closeEditor (s : Session) : s.closeEditor.1.tree = s.tree := by
  unfold closeEditor
  dsimp only
  split <;> rfl

theorem changes_runEx (s : Session) (e : Editor) (command : String)
    (hP : e.file = none → (ExCommand.ofString command).saves = true →
      P s.tree e.home e.segments .text) :
    Changes P M s.tree (s.runEx e command).1.tree := by
  unfold runEx
  cases hc : ExCommand.ofString command with
  | write =>
      have hsave := changes_save (M := M) s e fun hf ↦ hP hf (by rw [hc]; rfl)
      simp only
      split <;> (rename_i h; rwa [h] at hsave)
  | writeQuit =>
      have hsave := changes_save (M := M) s e fun hf ↦ hP hf (by rw [hc]; rfl)
      simp only
      split
      · rename_i h
        rw [h] at hsave
        simpa using hsave
      · rename_i h
        rwa [h] at hsave
      · rename_i h
        rwa [h] at hsave
  | quit =>
      simp only
      split
      · exact .refl
      · simp [ReflTransGen.refl]
  | forceQuit => simp [ReflTransGen.refl]
  | unknown name => exact .refl

theorem changes_share (s : Session) {changed : Line} (h : changed.Within M) :
    Changes P M s.tree (s.share changed).tree := by
  cases changed with
  | text t => exact .refl
  | list mark items => exact .single (.share _ h)
  | other v => exact .refl

theorem exists_printAll (s : Session) (lines : List Line) :
    ∃ shown, (s.printAll lines).1 = { s with screen := s.screen ++ shown } := by
  induction lines generalizing s with
  | nil => exact ⟨[], by simp [printAll]⟩
  | cons line lines ih =>
      unfold printAll
      split
      · exact ⟨[], by simp⟩
      · obtain ⟨shown, hshown⟩ := ih (s.draw (.line line))
        refine ⟨.line line :: shown, ?_⟩
        rw [hshown]
        simp [draw]

def shown : Outcome → Session × Option Failure
  | (s, .ok result) => s.printAll result.render
  | (s, .error failure) => (s, some failure)

theorem exists_shown (o : Outcome) :
    ∃ lines, (shown o).1 = { o.1 with screen := o.1.screen ++ lines } := by
  obtain ⟨s, failure | result⟩ := o
  · exact ⟨[], by simp [shown]⟩
  · exact exists_printAll s result.render

theorem submit_eq_shown (s : Session) (prompt line : String) :
    s.submit reg prompt line =
      shown (({ s.print (prompt ++ line) with history := s.history ++ [line] } : Session).execute
        reg line) := rfl

theorem exists_complete (reg : Registry) (s : Session) :
    ∃ buffer tabPending screen log,
      (s.complete reg).1 = { s with buffer, tabPending, screen, log } := by
  unfold complete
  dsimp only
  split
  · exact ⟨_, _, _, _, rfl⟩
  · exact ⟨_, _, _, _, rfl⟩
  · split
    · split <;> exact ⟨_, _, _, _, rfl⟩
    · exact ⟨_, _, _, _, rfl⟩

theorem fst_tab_of_isOn (reg : Registry) (h : s.settings.enableAutocomplete.isOn = true) :
    (s.tab reg).1 = (s.complete reg).1 := by
  rw [tab, if_pos h]
  split <;> (rename_i hs; rw [hs])

theorem fst_tab (reg : Registry) (s : Session) :
    (s.tab reg).1 = s ∨ (s.tab reg).1 = (s.complete reg).1 := by
  by_cases h : s.settings.enableAutocomplete.isOn = true
  · exact .inr (fst_tab_of_isOn reg h)
  · rw [tab, if_neg h]
    exact .inl rfl

theorem core_complete (s : Session) : (s.complete reg).1.core = s.core := by
  obtain ⟨buffer, tabPending, screen, log, h⟩ := exists_complete reg s
  rw [h]
  rfl

theorem core_submit (s : Session) (prompt line : String) :
    (s.submit reg prompt line).1.core =
      (({ s.print (prompt ++ line) with history := s.history ++ [line] } : Session).execute reg
        line).1.core := by
  rw [submit_eq_shown]
  obtain ⟨lines, h⟩ := exists_shown
    (({ s.print (prompt ++ line) with history := s.history ++ [line] } : Session).execute reg line)
  rw [h]
  rfl

theorem press_of_shell (heditor : s.editor = none) (k : KeyEvent) :
    s.press reg k = s.shellKey reg k := by
  rw [press, heditor]

theorem press_of_enter (heditor : s.editor = none) {k : KeyEvent} (hk : k.key = .enter) :
    s.press reg k = ({ s with tabPending := false } : Session).enter reg := by
  rw [press_of_shell heditor, shellKey, hk]

theorem shellKey_of_submits {k : KeyEvent} {prompt : String} (h : s.Submits k prompt) :
    s.shellKey reg k =
      match ({ s with tabPending := false } : Session).submit reg prompt s.buffer with
      | (s, none) => (s.freshLine, none)
      | (s, some failure) => (s, some failure) := by
  have hprompt : ({ s with tabPending := false } : Session).prompt = .ok prompt := h.prompt
  unfold shellKey
  rw [h.key]
  dsimp only
  unfold enter
  rw [hprompt]
  exact (if_neg (by simp [h.line])).trans rfl

theorem core_shellKey_of_submits {k : KeyEvent} {prompt : String} (h : s.Submits k prompt) :
    (s.shellKey reg k).1.core = ((s.submitting prompt).execute reg s.buffer).1.core := by
  have hsubmit :
      (({ s with tabPending := false } : Session).submit reg prompt s.buffer).1.core =
        ((s.submitting prompt).execute reg s.buffer).1.core := core_submit _ _ _
  rw [shellKey_of_submits h, ← hsubmit]
  split
  · rename_i hs
    rw [hs]
    rfl
  · rename_i hs
    rw [hs]

theorem exists_shellKey_of_not_submits (reg : Registry) {k : KeyEvent}
    (h : ∀ prompt, ¬ s.Submits k prompt) :
    ∃ buffer cursor tabPending screen log,
      (s.shellKey reg k).1 = { s with buffer, cursor, tabPending, screen, log } := by
  unfold shellKey
  split
  · obtain ⟨buffer, tabPending, screen, log, hcomplete⟩ := exists_complete reg s
    rcases fst_tab reg s with htab | htab
    · exact ⟨_, _, _, _, _, htab⟩
    · exact ⟨_, _, _, _, _, htab.trans hcomplete⟩
  · dsimp only
    split
    · rename_i hkey
      unfold enter
      split
      · exact ⟨_, _, _, _, _, rfl⟩
      · rename_i prompt hprompt
        split
        · exact ⟨_, _, _, _, _, rfl⟩
        · rename_i hline
          exact absurd ⟨hkey, by simpa using hline, hprompt⟩ (h prompt)
    · exact ⟨_, _, _, _, _, rfl⟩
    · unfold older
      split <;> exact ⟨_, _, _, _, _, rfl⟩
    · unfold newer
      split <;> exact ⟨_, _, _, _, _, rfl⟩
    · exact ⟨_, _, _, _, _, rfl⟩

theorem core_shellKey_of_not_submits {k : KeyEvent} (h : ∀ prompt, ¬ s.Submits k prompt) :
    (s.shellKey reg k).1.core = s.core := by
  obtain ⟨buffer, cursor, tabPending, screen, log, hkey⟩ := exists_shellKey_of_not_submits reg h
  rw [hkey]
  rfl

/-- What lines preserve is preserved by keys in the shell, if what is typed, shown and logged does
not matter to it. -/
theorem shellKey_preserves {I : Session → Prop}
    (hcore : ∀ {s s' : Session}, s'.core = s.core → I s → I s')
    (hline : ∀ {s : Session} line, I s → I (s.execute reg line).1) (k : KeyEvent) (h : I s) :
    I (s.shellKey reg k).1 := by
  by_cases hsubmits : ∃ prompt, s.Submits k prompt
  · obtain ⟨prompt, hsubmits⟩ := hsubmits
    have hstart : I (s.submitting prompt) := hcore (s := s) rfl h
    exact hcore (core_shellKey_of_submits hsubmits) (hline s.buffer hstart)
  · exact hcore (core_shellKey_of_not_submits (not_exists.mp hsubmits)) h

theorem site_shellKey_of_submits {k : KeyEvent} {prompt : String} (h : s.Submits k prompt) :
    (s.shellKey reg k).1.site = ((s.submitting prompt).execute reg s.buffer).1.site :=
  site_of_core (core_shellKey_of_submits h)

theorem site_shellKey_of_not_submits {k : KeyEvent} (h : ∀ prompt, ¬ s.Submits k prompt) :
    (s.shellKey reg k).1.site = s.site :=
  site_of_core (core_shellKey_of_not_submits h)

theorem location_complete (s : Session) : (s.complete reg).1.location = s.location :=
  congrArg Prod.fst (site_of_core (core_complete s))

theorem location_shellKey_of_submits {k : KeyEvent} {prompt : String} (h : s.Submits k prompt) :
    (s.shellKey reg k).1.location = ((s.submitting prompt).execute reg s.buffer).1.location :=
  congrArg Prod.fst (site_shellKey_of_submits h)

theorem location_shellKey_of_not_submits {k : KeyEvent} (h : ∀ prompt, ¬ s.Submits k prompt) :
    (s.shellKey reg k).1.location = s.location :=
  congrArg Prod.fst (site_shellKey_of_not_submits h)

theorem tree_complete (s : Session) : (s.complete reg).1.tree = s.tree :=
  congrArg Prod.fst (location_complete s)

theorem tree_shellKey_of_submits {k : KeyEvent} {prompt : String} (h : s.Submits k prompt) :
    (s.shellKey reg k).1.tree = ((s.submitting prompt).execute reg s.buffer).1.tree :=
  congrArg Prod.fst (location_shellKey_of_submits h)

theorem tree_shellKey_of_not_submits {k : KeyEvent} (h : ∀ prompt, ¬ s.Submits k prompt) :
    (s.shellKey reg k).1.tree = s.tree :=
  congrArg Prod.fst (location_shellKey_of_not_submits h)

theorem changes_shellKey (hreg : reg.OfBuiltins) (s : Session) (k : KeyEvent)
    (hP : ∀ prompt, s.Submits k prompt → ∀ x ∈ reg.paths s.buffer, MayMake P x.1 x.2) :
    Changes P M s.tree (s.shellKey reg k).1.tree := by
  by_cases h : ∃ prompt, s.Submits k prompt
  · obtain ⟨prompt, hsubmits⟩ := h
    rw [tree_shellKey_of_submits hsubmits]
    exact changes_execute hreg s.buffer (s.submitting prompt) (hP prompt hsubmits)
  · rw [tree_shellKey_of_not_submits (not_exists.mp h)]

theorem editorKey_of_enter (s : Session) {e : Editor} {k : KeyEvent} (hk : k.key = .enter)
    (hmode : e.mode = .command) :
    s.editorKey e k = s.runEx { e with command := "" } e.command := by
  simp [editorKey, Editor.press, hmode, Editor.commandKey, hk]

theorem changes_editorKey (s : Session) (e : Editor) (k : KeyEvent)
    (hP : k.key = .enter → e.mode = .command → e.file = none →
      (ExCommand.ofString e.command).saves = true → P s.tree e.home e.segments .text)
    (hM : ∀ e', e.press ⟨s.freeGroup, 0⟩ k = .ok (e', none) → e'.line.Within M) :
    Changes P M s.tree (s.editorKey e k).1.tree := by
  unfold editorKey
  split
  · rename_i e' hpress
    exact changes_share { s with editor := some e' } (hM e' hpress)
  · rename_i e' command hpress
    obtain ⟨hmode, hkey, rfl, rfl⟩ := Editor.press_eq_ok_some hpress
    exact changes_runEx s _ e.command (hP hkey hmode)
  · exact .refl

/-- Whatever a policy allows makes only nodes that obey `P`. -/
structure Policy.Enforces (p : Policy) (reg : Registry)
    (P : Tree → Place → List String → Kind → Prop) : Prop where
  line : ∀ s line, p.line s line → ∀ x ∈ reg.paths line, MayMake P x.1 x.2
  save : ∀ t home segments, p.save t home segments → P t home segments .text

theorem changes_press (hreg : reg.OfBuiltins) {p : Policy} (hp : p.Enforces reg P) (s : Session)
    (k : KeyEvent) (h : p.AllowsKey s k) : Changes P p.list s.tree (s.press reg k).1.tree := by
  unfold press
  split
  · rename_i e he
    simp only [Policy.AllowsKey, he] at h
    exact changes_editorKey s e k
      (fun hkey hmode hfile hcmd ↦ hp.save _ _ _ (h.1 hkey hmode e he hfile hcmd)) h.2
  · rename_i he
    simp only [Policy.AllowsKey, he] at h
    exact changes_shellKey hreg s k fun prompt hsubmits ↦ hp.line _ _ (h prompt hsubmits)

theorem changes_pressAll (hreg : reg.OfBuiltins) {p : Policy} (hp : p.Enforces reg P) (s : Session)
    (ks : List KeyEvent) (h : p.AllowsKeys reg s ks) :
    Changes P p.list s.tree (s.pressAll reg ks).1.tree := by
  induction ks generalizing s with
  | nil => exact .refl
  | cons k ks ih =>
      have hkey := changes_press hreg hp s k h.1
      unfold pressAll
      split
      · rename_i s' hs
        rw [hs] at hkey
        refine hkey.trans (ih s' ?_)
        have hrest := h.2
        rw [hs] at hrest
        exact hrest rfl
      · rename_i s' failure hs
        rwa [hs] at hkey

theorem changes_step (hreg : reg.OfBuiltins) {p : Policy} (hp : p.Enforces reg P) (s : Session)
    (x : Step) (h : p.Allows reg s x) : Changes P p.list s.tree (s.step reg x).tree := by
  cases x with
  | execute line => exact changes_execute hreg line s (hp.line s line h)
  | key k => exact changes_press hreg hp s k h
  | feed line => exact changes_pressAll hreg hp s _ h
  | complete =>
      rw [step, tree_complete]
  | ex command =>
      cases he : s.editor with
      | none =>
          rw [step, he]
          exact .refl
      | some e =>
          rw [step, he]
          exact changes_runEx s e command fun hf hc ↦ hp.save _ _ _ (h e he hf hc)
  | changeDirectory place => exact .refl

/-- The changes that a run makes whose steps are all allowed. -/
theorem changes_of_allowsRun (hreg : reg.OfBuiltins) {p : Policy} (hp : p.Enforces reg P)
    (s : Session) (steps : List Step) (h : p.AllowsRun reg s steps) :
    Changes P p.list s.tree (s.run reg steps).tree := by
  induction steps generalizing s with
  | nil => exact .refl
  | cons x steps ih =>
      have hfirst := changes_step hreg hp s x h.1
      exact hfirst.trans (ih (s.step reg x) h.2)

/-- What lines, keys and commands of the editor preserve is preserved by steps, if what is typed,
shown and logged does not matter to it. -/
theorem step_preserves {I : Session → Prop}
    (hcore : ∀ {s s' : Session}, s'.core = s.core → I s → I s')
    (hline : ∀ {s : Session} line, I s → I (s.execute reg line).1)
    (hkey : ∀ {s : Session} k, I s → I (s.press reg k).1)
    (hex : ∀ {s : Session} {e}, s.editor = some e → ∀ command, I s → I (s.runEx e command).1)
    (x : Step) (hmove : ∀ place, x = .changeDirectory place → I (s.changeDirectory place))
    (h : I s) : I (s.step reg x) := by
  cases x with
  | execute line => exact hline line h
  | key k => exact hkey k h
  | feed line => exact pressAll_preserves reg (fun _ k hs ↦ hkey k hs) h _
  | complete => exact hcore (core_complete s) h
  | ex command =>
      cases he : s.editor with
      | none =>
          rw [step, he]
          exact h
      | some e =>
          rw [step, he]
          exact hex he command h
  | changeDirectory place => exact hmove place rfl

end Session

end TreeShell
