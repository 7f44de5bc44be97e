import TreeShell.Line

/-!
# Keys and the screen

What the user types comes in as keystrokes, and what the shell has to say is drawn.
-/

namespace TreeShell

/-!
## Keys

A keystroke is a key and the text it produced, if any.
-/

inductive Key where
  | character
  | backspace
  | tab
  | enter
  | escape
  | up
  | down
  | other (code : Int)
  deriving DecidableEq, Repr

namespace Key

def code : Key → Int
  | character => 0
  | backspace => 8
  | tab => 9
  | enter => 13
  | escape => 27
  | up => 38
  | down => 40
  | other code => code

def ofCode (code : Int) : Key :=
  if code = 0 then character
  else if code = 8 then backspace
  else if code = 9 then tab
  else if code = 13 then enter
  else if code = 27 then escape
  else if code = 38 then up
  else if code = 40 then down
  else other code

end Key

structure KeyEvent where
  key : Key
  text : String := ""
  deriving DecidableEq, Repr

namespace KeyEvent

def ofKey (key : Key) : KeyEvent := { key }

/-- The keystroke that types a character. -/
def ofChar (c : Char) : KeyEvent :=
  if c = '\t' then ofKey .tab
  else if c = '\n' then ofKey .enter
  else if c = '\x1b' then ofKey .escape
  else ⟨.character, String.singleton c⟩

/-- The keystrokes that type a text. -/
def typing (s : String) : List KeyEvent := s.toList.map ofChar

end KeyEvent

/-!
## The screen

What the shell draws is recorded as a transcript. It can be replayed on a terminal, as the text
written there, or on a page, as the lines that are left and the number of times it was cleared.
-/

/-- What a session draws on. A page takes every line, a stream none but texts. -/
inductive Surface where
  | page
  | stream
  deriving DecidableEq, Repr, Inhabited

/-- What keeps a surface from taking a line. -/
def Surface.refusal : Surface → Line → Option Mismatch
  | page, _ => none
  | stream, line =>
      match line.ended with
      | .ok _ => none
      | .error m => some m

inductive Drawing where
  | line (l : Line)
  | inline (items : List String)
  | clear
  /-- Text that a terminal gets and a page does not show. -/
  | raw (s : String)
  deriving DecidableEq, Repr

namespace Drawing

/-- A drawing as it reads after the line `changed` was changed. -/
def after (changed : Line) : Drawing → Drawing
  | line l => line (changed.after l)
  | d => d

/-- The items of a list as they stand on one line. -/
def row (items : List String) : String := "  ".intercalate items

/-- The text written to a stream, which takes no lines but texts; only a terminal is cleared. -/
def streamText (terminal : Bool) : Drawing → String
  | line (.text s) => s ++ "\n"
  | line _ => ""
  | inline items => row items ++ "\n"
  | clear => if terminal then "\x1b[2J\x1b[H" else ""
  | raw s => s

end Drawing

def streamText (terminal : Bool) (ds : List Drawing) : String :=
  String.join (ds.map (Drawing.streamText terminal))

/-- The lines on a page and how often it was cleared. -/
structure Page where
  lines : List Line := []
  clears : Nat := 0
  deriving DecidableEq, Repr

namespace Page

def draw (p : Page) : Drawing → Page
  | .line l => { p with lines := p.lines ++ [l] }
  | .inline items => { p with lines := p.lines ++ [.text (Drawing.row items)] }
  | .clear => { lines := [], clears := p.clears + 1 }
  | .raw _ => p

def drawAll (p : Page) (ds : List Drawing) : Page := ds.foldl draw p

end Page

end TreeShell
