import TreeShell.Json.Basic
import TreeShell.Text.Pieces

/-!
# Reading JSON

The reader takes the longest value at the front of a text and hands back what follows. Every
step consumes something, which is recorded in `Step` and makes the recursion well-founded. A
complaint tells how much of the text was still unread, from which its line and column follow.
Besides the grammar the words `NaN`, `Infinity` and `-Infinity` are numbers.
-/

namespace TreeShell

namespace Json

inductive Reason where
  | value
  | fieldName
  | colon
  | comma
  | extraData
  | unterminated
  | control
  | escape
  | codeEscape
  | byteOrderMark
  /-- A whole number has more digits than are read. -/
  | longNumber (digits : Nat)
  deriving DecidableEq, Repr

/-- The greatest number of digits of a whole number. -/
def greatestDigits : Nat := 4300

def longNumberMessage (digits : Nat) : String :=
  "Exceeds the limit (" ++ Number.natText greatestDigits ++
    " digits) for integer string conversion: value has " ++ Number.natText digits ++
    " digits; use sys.set_int_max_str_digits() to increase the limit"

def Reason.message : Reason → String
  | value => "Expecting value"
  | fieldName => "Expecting property name enclosed in double quotes"
  | colon => "Expecting ':' delimiter"
  | comma => "Expecting ',' delimiter"
  | extraData => "Extra data"
  | unterminated => "Unterminated string starting at"
  | control => "Invalid control character at"
  | escape => "Invalid \\escape"
  | codeEscape => "Invalid \\uXXXX escape"
  | byteOrderMark => "Unexpected UTF-8 BOM (decode using utf-8-sig)"
  | longNumber digits => longNumberMessage digits

/-- A reason and the number of characters from its place to the end of the text. -/
structure Complaint where
  reason : Reason
  left : Nat
  deriving DecidableEq, Repr

namespace Reader

open Text (Step)

abbrev Result (α : Type) (before : List Char) := Except Complaint (Step α before)

def fail {α : Type} (reason : Reason) (rest : List Char) : Except Complaint α :=
  .error ⟨reason, rest.length⟩

def isSpace (c : Char) : Bool := c == ' ' || c == '\t' || c == '\n' || c == '\r'

def skip (cs : List Char) : List Char := cs.dropWhile isSpace

theorem length_dropWhile_le (p : Char → Bool) (cs : List Char) :
    (cs.dropWhile p).length ≤ cs.length := by
  induction cs with
  | nil => simp
  | cons c cs ih =>
      by_cases h : p c
      · simpa [h] using Nat.le_succ_of_le ih
      · simp [h]

theorem length_skip_le (cs : List Char) : (skip cs).length ≤ cs.length :=
  length_dropWhile_le _ _

/-! ## Strings -/

def hexValue? (c : Char) : Option Nat :=
  if '0' ≤ c ∧ c ≤ '9' then some (c.toNat - '0'.toNat)
  else if 'a' ≤ c ∧ c ≤ 'f' then some (c.toNat - 'a'.toNat + 10)
  else if 'A' ≤ c ∧ c ≤ 'F' then some (c.toNat - 'A'.toNat + 10)
  else none

def hex4? (a b c d : Char) : Option Nat := do
  let a ← hexValue? a
  let b ← hexValue? b
  let c ← hexValue? c
  let d ← hexValue? d
  pure (((a * 16 + b) * 16 + c) * 16 + d)

/-- The character named by one letter after a backslash. -/
def escaped? : Char → Option Char
  | '"' => some '"'
  | '\\' => some '\\'
  | '/' => some '/'
  | 'b' => some '\x08'
  | 'f' => some '\x0c'
  | 'n' => some '\n'
  | 'r' => some '\r'
  | 't' => some '\t'
  | _ => none

def isHighSurrogate (n : Nat) : Bool := 0xd800 ≤ n && n ≤ 0xdbff

def isLowSurrogate (n : Nat) : Bool := 0xdc00 ≤ n && n ≤ 0xdfff

/-- The character with a code; half a surrogate pair gives the replacement character. -/
def charOf (n : Nat) : Char :=
  if isHighSurrogate n || isLowSurrogate n then '\ufffd' else Char.ofNat n

/-- The second half of a surrogate pair, if one follows. -/
def secondHalf (cs : List Char) : Except Complaint (Option (Step Nat cs)) :=
  match cs with
  | '\\' :: 'u' :: a :: b :: c :: d :: e :: rest =>
      match hex4? a b c d with
      | none => fail .codeEscape ('u' :: a :: b :: c :: d :: e :: rest)
      | some low =>
          .ok (if isLowSurrogate low then some ⟨low, e :: rest, by simp +arith⟩ else none)
  | _ => .ok none

/-- A character named by four hexadecimal digits, or by two such groups that form a surrogate
pair; `cs` starts with the letter of the escape. -/
def codePoint (cs : List Char) : Result Char ('\\' :: cs) :=
  match cs with
  | u :: a :: b :: c :: d :: e :: rest =>
      match hex4? a b c d with
      | none => fail .codeEscape (u :: a :: b :: c :: d :: e :: rest)
      | some n =>
          if isHighSurrogate n then do
            match ← secondHalf (e :: rest) with
            | some ⟨low, rest', h⟩ =>
                let c := Char.ofNat (0x10000 + (n - 0xd800) * 0x400 + (low - 0xdc00))
                pure ⟨c, rest', by simp at h ⊢; omega⟩
            | none => pure ⟨charOf n, e :: rest, by simp +arith⟩
          else .ok ⟨charOf n, e :: rest, by simp +arith⟩
  | cs => fail .codeEscape cs

/-- One character of a string, or nothing at its closing quote; `start` is the text from the
opening quote on. -/
def stringChar (start cs : List Char) : Result (Option Char) cs :=
  match cs with
  | [] => fail .unterminated start
  | '"' :: rest => .ok (Step.one none '"' rest)
  | ['\\'] => fail .unterminated start
  | '\\' :: 'u' :: rest => do
      let ⟨c, rest', h⟩ ← codePoint ('u' :: rest)
      pure ⟨some c, rest', h⟩
  | '\\' :: c :: rest =>
      match escaped? c with
      | none => fail .escape ('\\' :: c :: rest)
      | some x => .ok ((Step.one (some x) c rest).after '\\')
  | c :: rest =>
      if c < ' ' then fail .control (c :: rest) else .ok (Step.one (some c) c rest)

/-- The rest of a string after its opening quote. -/
def stringBody (start cs : List Char) : Result (List Char) cs := do
  let ⟨c?, rest, h⟩ ← stringChar start cs
  match c? with
  | none => pure ⟨[], rest, h⟩
  | some c =>
      let ⟨body, rest', h'⟩ ← stringBody start rest
      pure ⟨c :: body, rest', Nat.lt_trans h' h⟩
termination_by cs.length

/-! ## Numbers -/

def isDigit (c : Char) : Bool := '0' ≤ c && c ≤ '9'

/-- The integer part of a number: a zero alone, or digits that start with another one. -/
def integerPart : List Char → Option (List Char × List Char)
  | '0' :: rest => some (['0'], rest)
  | c :: rest =>
      if isDigit c then some (c :: rest.takeWhile isDigit, rest.dropWhile isDigit) else none
  | [] => none

/-- The digits after a point, if at least one follows it. -/
def fractionPart : List Char → List Char × List Char
  | '.' :: c :: rest =>
      if isDigit c then (c :: rest.takeWhile isDigit, rest.dropWhile isDigit)
      else ([], '.' :: c :: rest)
  | cs => ([], cs)

/-- The exponent of ten, if at least one digit follows its letter and sign. -/
def exponentPart (cs : List Char) : Option Int × List Char :=
  match cs with
  | letter :: rest =>
      if letter = 'e' ∨ letter = 'E' then
        let (negative, ds) := match rest with
          | '-' :: r => (true, r)
          | '+' :: r => (false, r)
          | r => (false, r)
        match ds.takeWhile isDigit with
        | [] => (none, cs)
        | e =>
            let n : Int := Number.ofDigits e
            (some (if negative then -n else n), ds.dropWhile isDigit)
      else (none, cs)
  | [] => (none, cs)

theorem length_fractionPart_le (cs : List Char) : (fractionPart cs).2.length ≤ cs.length := by
  unfold fractionPart
  split
  · split
    · have := length_dropWhile_le isDigit
      grind
    · simp
  · simp

theorem length_exponentPart_le (cs : List Char) : (exponentPart cs).2.length ≤ cs.length := by
  have := length_dropWhile_le isDigit
  unfold exponentPart
  grind

theorem length_integerPart_lt {cs ds rest : List Char} (h : integerPart cs = some (ds, rest)) :
    rest.length < cs.length := by
  have := length_dropWhile_le isDigit
  unfold integerPart at h
  grind

/-- A number without its sign; `start` is the text from the sign on. -/
def magnitude (negative : Bool) (start cs : List Char) : Result Json cs :=
  match h : integerPart cs with
  | none => fail .value start
  | some (whole, rest) =>
      let fraction := fractionPart rest
      let exponent := exponentPart fraction.2
      let shorter : exponent.2.length < cs.length :=
        Nat.lt_of_le_of_lt (Nat.le_trans (length_exponentPart_le _) (length_fractionPart_le _))
          (length_integerPart_lt h)
      match fraction.1, exponent.1 with
      | [], none =>
          let n : Int := Number.ofDigits whole
          if greatestDigits < whole.length then fail (.longNumber whole.length) start
          else .ok ⟨.int (if negative then -n else n), exponent.2, shorter⟩
      | ds, e =>
          let x := .ofDecimal negative (Number.ofDigits (whole ++ ds)) (e.getD 0 - ds.length)
          .ok ⟨.real x, exponent.2, shorter⟩

/-! ## Values -/

def words : List (List Char × Json) :=
  [("null".toList, .null), ("true".toList, .bool true), ("false".toList, .bool false),
    ("NaN".toList, .real .notANumber), ("Infinity".toList, .real (.infinity false)),
    ("-Infinity".toList, .real (.infinity true))]

def word? (cs : List Char) : Option (Step Json cs) :=
  words.findSome? fun (word, value) ↦
    if h : word.isPrefixOf cs ∧ 0 < word.length then
      some ⟨value, cs.drop word.length, by
        have := (List.isPrefixOf_iff_prefix.1 h.1).length_le
        simp only [List.length_drop]
        omega⟩
    else none

def scalar (cs : List Char) : Result Json cs :=
  match word? cs with
  | some r => .ok r
  | none =>
      match cs with
      | '-' :: rest => (magnitude true ('-' :: rest) rest).map (·.after '-')
      | cs => magnitude false cs cs

mutual

def value (cs : List Char) : Result Json cs :=
  match cs with
  | '"' :: rest => do
      let ⟨body, rest', h⟩ ← stringBody ('"' :: rest) rest
      pure ⟨.text (String.ofList body), rest', by simp; omega⟩
  | '[' :: rest =>
      have hs := length_skip_le rest
      if (skip rest).head? = some ']' then
        .ok ⟨.list [], (skip rest).tail, by simp; omega⟩
      else do
        let ⟨items, rest', h⟩ ← elements (skip rest)
        pure ⟨.list items, rest', by simp; omega⟩
  | '\x7b' :: rest =>
      have hs := length_skip_le rest
      if (skip rest).head? = some '\x7d' then
        .ok ⟨.object [], (skip rest).tail, by simp; omega⟩
      else do
        let ⟨fields, rest', h⟩ ← members (skip rest)
        pure ⟨.object (fields.foldl (fun fs f ↦ setField f.1 f.2 fs) []), rest', by simp; omega⟩
  | cs => scalar cs
termination_by (cs.length, 0)

def elements (cs : List Char) : Result (List Json) cs := do
  let ⟨v, rest, h⟩ ← value cs
  have hs := length_skip_le rest
  match hr : skip rest with
  | ']' :: rest' => pure ⟨[v], rest', by simp [hr] at hs; omega⟩
  | ',' :: rest' =>
      have hl := congrArg List.length hr
      have hs' := length_skip_le rest'
      let ⟨vs, rest'', h''⟩ ← elements (skip rest')
      pure ⟨v :: vs, rest'', by simp [hr] at hs; omega⟩
  | rest' => fail .comma rest'
termination_by (cs.length, 1)
decreasing_by
  · apply Prod.Lex.right
    omega
  · apply Prod.Lex.left
    simp only [List.length_cons] at hl
    omega

def members (cs : List Char) : Result (List (String × Json)) cs :=
  match cs with
  | '"' :: rest => do
      let ⟨name, rest₁, h₁⟩ ← stringBody ('"' :: rest) rest
      have s₁ := length_skip_le rest₁
      match hc : skip rest₁ with
      | ':' :: rest₂ =>
          have l₁ := congrArg List.length hc
          have s₂ := length_skip_le rest₂
          let ⟨v, rest₃, h₃⟩ ← value (skip rest₂)
          have s₃ := length_skip_le rest₃
          match hr : skip rest₃ with
          | '\x7d' :: rest₄ => pure ⟨[(String.ofList name, v)], rest₄, by grind⟩
          | ',' :: rest₄ =>
              have l₃ := congrArg List.length hr
              have s₄ := length_skip_le rest₄
              let ⟨fields, rest₅, h₅⟩ ← members (skip rest₄)
              pure ⟨(String.ofList name, v) :: fields, rest₅, by grind⟩
          | rest₄ => fail .comma rest₄
      | rest₂ => fail .colon rest₂
  | cs => fail .fieldName cs
termination_by (cs.length, 0)
decreasing_by
  all_goals
    apply Prod.Lex.left
    simp only [List.length_cons] at *
    omega

end

end Reader

/-- The value a text stands for; blanks around it are allowed. -/
def read (s : String) : Except Complaint Json := do
  let cs := s.toList
  if cs.head? = some '\ufeff' then Reader.fail .byteOrderMark cs
  let r ← Reader.value (Reader.skip cs)
  match Reader.skip r.rest with
  | [] => pure r.value
  | rest => Reader.fail .extraData rest

/-- The complaint with its place in the text: line and column count from one, characters from
zero. A long number is not told the place of. -/
def Complaint.message (e : Complaint) (s : String) : String :=
  let before := s.toList.take (s.length - e.left)
  let line := before.count '\n' + 1
  let column := (before.reverse.takeWhile (· != '\n')).length + 1
  match e.reason with
  | .longNumber digits => longNumberMessage digits
  | reason =>
      reason.message ++ ": line " ++ Number.natText line ++ " column " ++ Number.natText column ++
        " (char " ++ Number.natText before.length ++ ")"

def Complaint.title (e : Complaint) : String :=
  match e.reason with
  | .longNumber _ => "ValueError"
  | _ => "JSONDecodeError"

end Json

end TreeShell
