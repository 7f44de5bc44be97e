import TreeShell.Error
import TreeShell.Text.Character
import TreeShell.Text.Pieces

/-!
# Command lines

A line is cut at its redirect operator: the first `>>` if there is one, else the first `>`. The
first word after the operator names the target; the words after it rejoin the text in front of
the operator, which forms the body of the command.
-/

namespace TreeShell

/-- How a redirect writes to its target. -/
inductive RedirectMode where
  | truncate
  | append
  deriving DecidableEq, Repr

def RedirectMode.operator : RedirectMode → String
  | truncate => ">"
  | append => ">>"

structure Redirect where
  mode : RedirectMode
  target : String
  deriving DecidableEq, Repr

/-- A command line in parts; `name` is empty if the body holds no word. -/
structure Command where
  name : String
  args : List String
  redirect : Option Redirect
  body : String
  deriving DecidableEq, Repr

namespace Command

def isEmpty (cmd : Command) : Bool := cmd.name = ""

/-- What stands before and after the first occurrence of a pattern. -/
def cut (pattern : List Char) : List Char → Option (List Char × List Char)
  | [] => if pattern = [] then some ([], []) else none
  | c :: cs =>
      if pattern.isPrefixOf (c :: cs) then some ([], (c :: cs).drop pattern.length)
      else (cut pattern cs).map fun (before, after) ↦ (c :: before, after)

/-- The redirect operator of a line, with the text on either side of it. -/
def findOperator (line : List Char) : Option (RedirectMode × List Char × List Char) :=
  match cut RedirectMode.append.operator.toList line with
  | some (before, after) => some (.append, before, after)
  | none => (cut RedirectMode.truncate.operator.toList line).map fun (before, after) ↦
      (.truncate, before, after)

/-- The command that the words of a body stand for. -/
def ofBody (redirect : Option Redirect) (body : String) : Command :=
  match Text.tokens body with
  | [] => ⟨"", [], redirect, body⟩
  | name :: args => ⟨name, args, redirect, body⟩

def parse (line : String) : Except ShellError Command :=
  match findOperator line.toList with
  | none => .ok (ofBody none line)
  | some (mode, before, after) =>
      match Text.tokens (String.ofList (Text.trim Text.isBlank after)) with
      | [] => .error (.missingTarget mode.operator)
      | target :: rest =>
          .ok (ofBody (some ⟨mode, target⟩) (Text.join ' ' (String.ofList before :: rest)))

theorem redirect_ofBody (redirect : Option Redirect) (body : String) :
    (ofBody redirect body).redirect = redirect := by
  unfold ofBody
  split <;> rfl

theorem body_ofBody (redirect : Option Redirect) (body : String) :
    (ofBody redirect body).body = body := by
  unfold ofBody
  split <;> rfl

theorem eq_append_of_cut {pattern cs before after : List Char}
    (h : cut pattern cs = some (before, after)) : cs = before ++ pattern ++ after := by
  induction cs generalizing before with
  | nil =>
      by_cases hp : pattern = [] <;> simp [cut, hp] at h
      simp [h.1, h.2, hp]
  | cons c cs ih =>
      by_cases hp : pattern.isPrefixOf (c :: cs) = true
      · obtain ⟨rest, hr⟩ := List.isPrefixOf_iff_prefix.1 hp
        simp only [cut, hp, if_true, Option.some.injEq, Prod.mk.injEq] at h
        rw [← hr, List.drop_left] at h
        simp [← h.1, ← h.2, hr]
      · simp only [cut, hp, Bool.false_eq_true, if_false, Option.map_eq_some_iff] at h
        obtain ⟨⟨b, a⟩, hc, he⟩ := h
        simp only [Prod.mk.injEq] at he
        obtain ⟨rfl, rfl⟩ := he
        simp [ih hc]

theorem eq_append_of_findOperator {line before after : List Char} {mode : RedirectMode}
    (h : findOperator line = some (mode, before, after)) :
    line = before ++ mode.operator.toList ++ after := by
  unfold findOperator at h
  split at h
  · rename_i hc
    simp only [Option.some.injEq, Prod.mk.injEq] at h
    obtain ⟨rfl, rfl, rfl⟩ := h
    exact eq_append_of_cut hc
  · simp only [Option.map_eq_some_iff, Prod.mk.injEq] at h
    obtain ⟨⟨b, a⟩, hc, rfl, rfl, rfl⟩ := h
    exact eq_append_of_cut hc

/-- A body has fewer redirect operators than its line, by the one that was cut out at least. -/
theorem count_body_add_operator_le {line : String} {cmd : Command} {r : Redirect}
    (h : parse line = .ok cmd) (hr : cmd.redirect = some r) :
    cmd.body.toList.count '>' + r.mode.operator.length ≤ line.toList.count '>' := by
  unfold parse at h
  split at h
  · simp only [Except.ok.injEq] at h
    subst h
    rw [redirect_ofBody] at hr
    cases hr
  · rename_i mode before after hf
    split at h
    · simp at h
    · rename_i target rest ht
      simp only [Except.ok.injEq] at h
      subst h
      have hmode : r.mode = mode := by
        rw [redirect_ofBody, Option.some.injEq] at hr
        rw [← hr]
      have hcount := Text.count_tokens (c := '>') (by decide)
        (String.ofList (Text.trim Text.isBlank after))
      rw [ht] at hcount
      rw [List.flatMap_cons, List.count_append, String.toList_ofList] at hcount
      have htrim := (Text.trim_sublist Text.isBlank after).count_le '>'
      rw [body_ofBody, Text.count_join (by decide), eq_append_of_findOperator hf, hmode]
      simp only [List.flatMap_cons, String.toList_ofList, List.count_append]
      have hop : mode.operator.toList.count '>' = mode.operator.length := by
        cases mode <;> rfl
      omega

theorem count_body_lt {line : String} {cmd : Command} {r : Redirect}
    (h : parse line = .ok cmd) (hr : cmd.redirect = some r) :
    cmd.body.toList.count '>' < line.toList.count '>' := by
  have hle := count_body_add_operator_le h hr
  have hop : 0 < r.mode.operator.length := by cases r.mode <;> decide
  omega

/-- The line that a list of words and a redirect are written as. -/
def print (words : List String) (redirect : Option Redirect) : String :=
  let body := Text.join ' ' words
  match redirect with
  | none => body
  | some r => body ++ " " ++ r.mode.operator ++ " " ++ r.target

end Command

end TreeShell
