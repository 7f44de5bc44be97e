import Mathlib.Tactic.SplitIfs
import TreeShell.Line

/-!
# Lines that are lists

A text is replaced when it changes, a list changes in place wherever it is held. `Persists` says
what a line may read as after that, and `Flat` lines are those to which it does not happen.
-/

namespace TreeShell

/-- What a line of an untouched file may read as later: a list with a mark in `M` may have gained or
lost items, any other line is the same. -/
inductive Line.Persists (M : Mark → Prop) : Line → Line → Prop
  | same (l : Line) : Persists M l l
  | list {mark : Mark} (h : M mark) (items items' : List Json) :
      Persists M (.list mark items) (.list mark items')

def Line.Within (M : Mark → Prop) (l : Line) : Prop := ∀ mark items, l = .list mark items → M mark

variable {M : Mark → Prop}

theorem Line.Persists.trans {l l' l'' : Line} (h : l.Persists M l') (h' : l'.Persists M l'') :
    l.Persists M l'' := by
  cases h with
  | same => exact h'
  | list hm items items' =>
      cases h' with
      | same => exact .list hm items items'
      | list _ _ items'' => exact .list hm items items''

theorem Line.persists_after {changed : Line} (h : changed.Within M) (l : Line) :
    l.Persists M (changed.after l) := by
  cases changed with
  | text s => exact .same l
  | other v => exact .same l
  | list m items =>
      cases l with
      | text s => exact .same _
      | other v => exact .same _
      | list n items' =>
          by_cases hn : m = n
          · subst hn
            simpa [after] using Line.Persists.list (h m items rfl) items' items
          · simpa [after, hn] using Line.Persists.same (.list n items')

theorem Line.Within.after {l : Line} (h : l.Within M) (changed : Line) :
    (changed.after l).Within M := by
  intro mark items hl
  cases changed with
  | text s => exact h mark items hl
  | other v => exact h mark items hl
  | list m changedItems =>
      cases l with
      | text s => cases hl
      | other v => cases hl
      | list n lineItems =>
          rw [Line.after] at hl
          split_ifs at hl with hmn
          · cases hl
            exact h mark lineItems (by rw [hmn])
          · cases hl
            exact h mark items rfl

theorem Line.Within.dropLast {l l' : Line} {fresh : Mark} (h : l.Within M)
    (hfresh : ∀ mark, M mark → M fresh) (hl : l.dropLast fresh = .ok l') : l'.Within M := by
  cases l with
  | text s =>
      cases hl
      exact nofun
  | list mark items =>
      cases hl
      rintro _ _ ⟨rfl, rfl⟩
      exact hfresh mark (h mark items rfl)
  | other v => cases v <;> simp [Line.dropLast] at hl

theorem Line.Within.push {l l' : Line} {s : String} (h : l.Within M) (hl : l.push s = .ok l') :
    l'.Within M := by
  cases l with
  | text t =>
      cases hl
      exact nofun
  | list mark items =>
      cases hl
      rintro _ _ ⟨rfl, rfl⟩
      exact h mark items rfl
  | other v => simp [Line.push] at hl

/-! ## Flat lines -/

def Line.Flat (l : Line) : Prop := ∀ mark items, l ≠ .list mark items

def Json.Flat (v : Json) : Prop := ∀ items, v = .list items → ∀ item ∈ items, ∀ vs, item ≠ .list vs

theorem Line.flat_text (s : String) : (Line.text s).Flat := nofun

theorem Line.Flat.within {l : Line} (h : l.Flat) (M : Mark → Prop) : l.Within M :=
  fun mark items hl ↦ absurd hl (h mark items)

theorem Line.flat_ofJson {mark : Mark} {v : Json} (h : ∀ vs, v ≠ .list vs) :
    (Line.ofJson mark v).Flat := by
  cases v with
  | list vs => exact absurd rfl (h vs)
  | _ => exact nofun

theorem Json.Flat.linesOf {v : Json} (h : v.Flat) {group : Nat} {out : List Line}
    (ho : Line.linesOf group v = .ok out) : ∀ l ∈ out, l.Flat := by
  cases v <;> simp only [Line.linesOf, Line.items, Except.ok.injEq, reduceCtorEq] at ho <;> subst ho
  case null => simp
  case text s => simpa using Line.flat_text s
  case list vs =>
    intro l hl
    obtain ⟨i, hi, rfl⟩ := List.mem_mapIdx.mp hl
    exact Line.flat_ofJson (h vs rfl _ (List.getElem_mem hi))
  case object fields =>
    intro l hl
    obtain ⟨f, -, rfl⟩ := List.mem_map.mp hl
    exact Line.flat_text _

/-! ## Lines as one text -/

theorem Line.joined_map_text (separator : String) (ss : List String) :
    joined separator (ss.map text) = .ok (separator.intercalate ss) := by
  rw [joined, textsFrom_map_text]
  rfl

theorem Line.eq_map_text_of_textsFrom {index : Nat} {lines : List Line} {ss : List String}
    (h : textsFrom index lines = .ok ss) : lines = ss.map text := by
  induction lines generalizing index ss with
  | nil =>
      cases h
      rfl
  | cons l lines ih =>
      cases l with
      | text s =>
          rw [textsFrom] at h
          cases hrest : textsFrom (index + 1) lines with
          | error m => simp [hrest, Except.map] at h
          | ok rest =>
              rw [hrest] at h
              cases h
              rw [List.map_cons, ← ih hrest]
      | list mark items => cases h
      | other v => cases h

theorem Line.exists_map_text_of_joined {separator content : String} {lines : List Line}
    (h : joined separator lines = .ok content) :
    ∃ ss, lines = ss.map text ∧ separator.intercalate ss = content := by
  unfold joined at h
  cases hs : textsFrom 0 lines with
  | error m => simp [hs, Except.map] at h
  | ok ss =>
      rw [hs] at h
      cases h
      exact ⟨ss, eq_map_text_of_textsFrom hs, rfl⟩

end TreeShell
