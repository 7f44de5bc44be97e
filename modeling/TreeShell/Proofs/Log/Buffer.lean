import TreeShell.Log.Journal
import TreeShell.Proofs.Library

/-!
# What the buffer holds

A record is put at the end of the buffer, and what is then too much is cut off at the front. Cutting
again and again comes to the same as cutting once: the buffer holds the last of all records that it
was given since it was cleared, as many as it has room for. A query is answered with the last of
those that it matches and leaves the buffer as it is.
-/

namespace TreeShell

namespace Log

variable {α : Type}

theorem lastOf_eq_rtake {n : Int} (h : 0 < n) (as : List α) : lastOf n as = as.rtake n.toNat :=
  if_pos h

namespace Buffer

/-- A record matches a query: it has the level and the subsystem that are asked for. An empty text
asks for nothing. -/
structure Query.Matches (q : Query) (r : Record) : Prop where
  level : ∀ level, q.level = some level → level ≠ "" → r.level = level
  subsystem : ∀ name, q.subsystem = some name → name ≠ "" → r.subsystem = some (.text name)

theorem eq_some_text_iff {v : Option Json} {name : String} :
    v.bind Json.text? = some name ↔ v = some (.text name) := by
  rcases v with _ | v
  · simp
  · cases v <;> simp [Json.text?]

theorem Query.selects_iff {q : Query} {r : Record} : q.selects r = true ↔ q.Matches r := by
  rw [Query.selects, Bool.and_eq_true]
  constructor
  · rintro ⟨hlevel, hsubsystem⟩
    refine ⟨fun level h hne ↦ ?_, fun name h hne ↦ ?_⟩
    · simpa [h, hne] using hlevel
    · simpa [h, hne, eq_some_text_iff] using hsubsystem
  · rintro ⟨hlevel, hsubsystem⟩
    constructor
    · cases h : q.level with
      | none => rfl
      | some level =>
          by_cases hne : level = ""
          · simp [hne]
          · simp [hlevel level h hne]
    · cases h : q.subsystem with
      | none => rfl
      | some name =>
          by_cases hne : name = ""
          · simp [hne]
          · simp [hsubsystem name h hne, Json.text?]

instance (q : Query) : DecidablePred q.Matches := fun _ ↦ decidable_of_iff _ Query.selects_iff

inductive Operation where
  | push (r : Record)
  | clear
  | ask (q : Query)

namespace Operation

def clears : Operation → Bool
  | clear => true
  | _ => false

def record? : Operation → Option Record
  | push r => some r
  | _ => none

end Operation

def perform (b : Buffer) : Operation → List Record × Buffer
  | .push r => ([], b.push r)
  | .clear => ([], b.clear)
  | .ask q => (b.get q, b)

def after (b : Buffer) (ops : List Operation) : Buffer := ops.foldl (fun b op ↦ (b.perform op).2) b

/-- The records given since the last operation that threw records away. -/
def given (ops : List Operation) : List Record :=
  (ops.rtakeWhile fun op ↦ !op.clears).filterMap Operation.record?

theorem given_concat_clear (ops : List Operation) : given (ops ++ [.clear]) = [] := by
  simp [given, Operation.clears]

theorem given_concat {op : Operation} (h : op.clears = false) (ops : List Operation) :
    given (ops ++ [op]) = given ops ++ op.record?.toList := by
  rw [given, List.rtakeWhile_concat_pos _ _ _ (by simpa using h), List.filterMap_append]
  cases hr : op.record? <;> simp [given, hr]

theorem after_concat (b : Buffer) (ops : List Operation) (op : Operation) :
    b.after (ops ++ [op]) = ((b.after ops).perform op).2 := by
  simp [after]

theorem capacity_after (b : Buffer) (ops : List Operation) :
    (b.after ops).capacity = b.capacity := by
  induction ops using List.reverseRecOn with
  | nil => rfl
  | append_singleton ops op ih =>
      rw [after_concat]
      cases op <;> exact ih

theorem records_push {b : Buffer} (h : 0 < b.capacity) (r : Record) :
    (b.push r).records = (b.records ++ [r]).rtake b.capacity.toNat := by
  rw [push]
  dsimp only
  split_ifs with hfull
  · exact lastOf_eq_rtake h _
  · exact (List.rtake_of_length_le (by omega)).symm

theorem records_after {capacity : Int} (h : 0 < capacity) (ops : List Operation) :
    (({ capacity } : Buffer).after ops).records = (given ops).rtake capacity.toNat := by
  induction ops using List.reverseRecOn with
  | nil => exact (List.rtake_nil _).symm
  | append_singleton ops op ih =>
      have hcapacity := capacity_after { capacity } ops
      rw [after_concat]
      cases op with
      | push r =>
          change ((Buffer.after _ ops).push r).records = _
          rw [records_push (by rwa [hcapacity]), hcapacity, ih, given_concat rfl,
            List.rtake_rtake_concat (by omega)]
          rfl
      | clear =>
          rw [given_concat_clear, List.rtake_nil]
          rfl
      | ask q =>
          rw [given_concat rfl]
          simpa [perform, Operation.record?] using ih

theorem given_map_push (rs : List Record) : given (rs.map .push) = rs := by
  have hnone : ∀ op ∈ rs.map Operation.push, (!op.clears) = true := by simp [Operation.clears]
  rw [given, List.rtakeWhile_eq_self_iff.mpr hnone, List.filterMap_map]
  exact List.filterMap_some

theorem records_foldl_push {capacity : Int} (h : 0 < capacity) (rs : List Record) :
    (rs.foldl push { capacity }).records = rs.rtake capacity.toNat := by
  have hafter := records_after h (rs.map .push)
  rwa [after, List.foldl_map, given_map_push] at hafter

/-- A buffer holds the last records that it was given since it was cleared, in their order and as
many as it has room for. A query gets the last of those that it matches, and nothing changes. -/
theorem buffer_holds_last_given {capacity : Int} (h : 1 ≤ capacity) (ops : List Operation) :
    let b := ({ capacity } : Buffer).after ops
    b.records = (given ops).rtake capacity.toNat ∧
      b.records.length = min capacity.toNat (given ops).length ∧
      ∀ q : Query, 1 ≤ q.limit →
        b.perform (.ask q) =
          ((b.records.filter fun r ↦ q.Matches r).rtake q.limit.toNat, b) := by
  intro b
  have hrecords : b.records = (given ops).rtake capacity.toNat := records_after h ops
  refine ⟨hrecords, ?_, fun q hq ↦ ?_⟩
  · rw [hrecords, List.length_rtake]
  · have hfilter : b.records.filter q.selects = b.records.filter fun r ↦ q.Matches r :=
      List.filter_congr fun r _ ↦ Bool.eq_iff_iff.mpr (by simp [Query.selects_iff])
    have hanswer : b.get q = (b.records.filter fun r ↦ q.Matches r).rtake q.limit.toNat := by
      rw [get, lastOf_eq_rtake hq, hfilter]
    rw [perform, hanswer]

/-- A buffer with room for two is cleared, filled and asked for the last record of a subsystem. -/
theorem older_records_make_room :
    let r (name message : String) : Record := .info name message []
    let ops := [.push (r "a" "1"), .clear, .push (r "a" "2"), .push (r "a" "3"), .push (r "b" "4")]
    let q : Query := { subsystem := some "a", level := some "", limit := 1 }
    let b := ({ capacity := 2 } : Buffer).after ops
    1 ≤ b.capacity ∧ 1 ≤ q.limit ∧ b.records = [r "a" "3", r "b" "4"] ∧
      b.perform (.ask q) = ([r "a" "3"], b) := by
  intro r ops q b
  have hlimit : 1 ≤ q.limit := by decide
  obtain ⟨hrecords, -, hask⟩ := buffer_holds_last_given (by decide : (1 : Int) ≤ 2) ops
  refine ⟨by decide, hlimit, hrecords, ?_⟩
  have hanswer : b.perform (.ask q) = _ := hask q hlimit
  rw [hanswer, hrecords]
  rfl

end Buffer

end Log

end TreeShell
