import TreeShell.Log.Journal
import TreeShell.Text.Character

/-!
# Arguments of the program

An argument is a flag, in full or cut short as long as it stays unambiguous, or a plain word.
The value of a flag stands after an equals sign or is the next word; a double hyphen after the
equals sign is no value and takes back what was set before. A word that looks like a negative
number or holds a space is plain, and so is every word after a double hyphen. The program takes
no plain words but complains only after the flags are read.
-/

namespace TreeShell

namespace Console

structure Arguments where
  config : Option String := none
  level : Option String := none
  deriving DecidableEq, Repr

/-- What the arguments ask for. -/
inductive Request where
  | run (a : Arguments)
  | help
  | misuse (message : String)
  deriving DecidableEq, Repr

inductive Flag where
  | help
  | config
  | level
  deriving DecidableEq, Repr

namespace Flag

def all : List Flag := [help, config, level]

def long : Flag → String
  | help => "--help"
  | config => "--config"
  | level => "--log-level"

def title : Flag → String
  | help => "-h/--help"
  | config => "--config"
  | level => "--log-level"

def short : String := "-h"

end Flag

/-- A word; a flag may have a text written together with it. -/
inductive Word where
  | plain
  | separator
  | unknown
  | flag (f : Flag) (isShort : Bool) (attached : Option (List Char))
  deriving DecidableEq, Repr

/-- Whether a text is a negative number in decimal digits, perhaps with a decimal point; a newline
may follow it. -/
def looksNegative (cs : List Char) : Bool :=
  let cs := if cs.getLast? = some '\n' then cs.dropLast else cs
  match cs with
  | '-' :: cs =>
      match cs.dropWhile Text.isDigit with
      | [] => cs ≠ []
      | '.' :: ds => ds ≠ [] && ds.all Text.isDigit
      | _ => false
  | _ => false

/-- The text before the first equals sign, and the text behind it. -/
def cutEquals (cs : List Char) : List Char × Option (List Char) :=
  match cs.dropWhile (· != '=') with
  | [] => (cs, none)
  | _ :: behind => (cs.takeWhile (· != '='), some behind)

/-- A word that no flag matches. -/
def strange (cs : List Char) : Word :=
  if looksNegative cs ∨ ' ' ∈ cs then .plain else .unknown

/-- What a word stands for; an ambiguous one is refused. -/
def Word.read (word : String) : Except String Word :=
  let cs := word.toList
  let (head, attached) := cutEquals cs
  match cs with
  | '-' :: '-' :: _ =>
      match Flag.all.filter fun f ↦ head.isPrefixOf f.long.toList with
      | [] => .ok (strange cs)
      | [f] => .ok (.flag f false attached)
      | several =>
          .error ("ambiguous option: " ++ word ++ " could match " ++
            ", ".intercalate (several.map Flag.long))
  | '-' :: c :: rest =>
      if head = Flag.short.toList then .ok (.flag .help true attached)
      else if ['-', c] = Flag.short.toList then .ok (.flag .help true (some rest))
      else .ok (strange cs)
  | _ => .ok .plain

def readWords : List String → Except String (List (String × Word))
  | [] => .ok []
  | "--" :: words => .ok (("--", .separator) :: words.map (·, .plain))
  | word :: words => do
      let w ← Word.read word
      let ws ← readWords words
      pure ((word, w) :: ws)

def argumentMessage (f : Flag) (message : String) : String :=
  "argument " ++ f.title ++ ": " ++ message

def ignored (f : Flag) (text : List Char) : String :=
  argumentMessage f ("ignored explicit argument " ++ Text.quoted (String.ofList text))

/-- What is written together with the short flag for help: the letter of that flag, any number of
times. -/
def helpLetters : List Char → Request
  | ['h'] => .help
  | 'h' :: rest => helpLetters rest
  | text => .misuse (ignored .help text)

def setFlag (a : Arguments) (f : Flag) (v : String) : Except String Arguments :=
  match f with
  | .help => .ok a
  | .config => .ok { a with config := some v }
  | .level =>
      if Log.levelNames.any (·.1 == v) then .ok { a with level := some v }
      else
        .error (argumentMessage f ("invalid choice: " ++ Text.quoted v ++ " (choose from " ++
          ", ".intercalate (Log.levelNames.map fun l ↦ Text.quoted l.1) ++ ")"))

def setAttached (a : Arguments) (f : Flag) (text : List Char) : Except String Arguments :=
  if text = "--".toList then
    .ok <| match f with
      | .help => a
      | .config => { a with config := none }
      | .level => { a with level := none }
  else setFlag a f (String.ofList text)

/-- Goes through the words; `extra` are the ones that the program has no use for. -/
def readArguments (a : Arguments) (extra : List String) : List (String × Word) → Request
  | [] =>
      if extra = [] then .run a
      else .misuse ("unrecognized arguments: " ++ " ".intercalate extra)
  | (_, .flag .help isShort attached) :: _ =>
      match isShort, attached with
      | _, none => .help
      | true, some text => helpLetters text
      | false, some text => .misuse (ignored .help text)
  | (_, .flag f _ (some text)) :: words =>
      match setAttached a f text with
      | .ok a => readArguments a extra words
      | .error message => .misuse message
  | (_, .flag f _ none) :: (v, .plain) :: words =>
      match setFlag a f v with
      | .ok a => readArguments a extra words
      | .error message => .misuse message
  | (_, .flag f _ none) :: _ => .misuse (argumentMessage f "expected one argument")
  | (word, _) :: words => readArguments a (extra ++ [word]) words

/-- What a list of arguments asks for. -/
def Request.ofArguments (args : List String) : Request :=
  match readWords args with
  | .error message => .misuse message
  | .ok words => readArguments {} [] words

def usage : String :=
  "usage: vshell [-h] [--config CONFIG]\n" ++
  "              [--log-level \x7bDEBUG,INFO,WARNING,ERROR,CRITICAL\x7d]\n"

def helpText : String :=
  usage ++
  "\nSimulated shell over an in-memory filesystem.\n\n" ++
  "options:\n" ++
  "  -h, --help            show this help message and exit\n" ++
  "  --config CONFIG       path to a JSON configuration file\n" ++
  "  --log-level \x7bDEBUG,INFO,WARNING,ERROR,CRITICAL\x7d\n" ++
  "                        override the configured log level\n"

def misuseText (message : String) : String := usage ++ "vshell: error: " ++ message ++ "\n"

end Console

end TreeShell
