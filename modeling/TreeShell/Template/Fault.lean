import TreeShell.Error
import TreeShell.Text.Character

/-!
# What can be wrong with a template

A template fails in its own syntax, in a field that names no value, in a step into a value, or
in the layout that a field asks for.
-/

namespace TreeShell

namespace Template

inductive Fault where
  -- syntax
  | loneBrace (brace : Char)
  | braceInName
  | unclosedField
  | unclosedLayout
  | noConversion
  | noColonAfterConversion
  | nestedTooDeep
  | unknownConversion (letter : Char)
  | tooManyDigits
  | emptyStep
  | unclosedIndex
  | strayAfterIndex
  -- values
  | unknownField (name : String)
  | positional (index : Nat)
  | mismatch (m : Mismatch)
  | noKindMember (kind name : String)
  | wordIndex (kind : String)
  | kindNotIndexed (kind : String)
  | notGeneric (subject : String)
  | missingKey (name : String)
  | missingNumber (index : Nat)
  | outOfRange (kind : String)
  -- layouts
  | badLayout (layout kind : String)
  | bothSeparators
  | separator (mark code : Char)
  | noPrecision
  | signedText (mark : Char)
  | zeroText
  | alternateText
  | spreadText
  | wholePrecision
  | zeroWhole
  | signedLetter
  | alternateLetter
  | noLetter
  | longLetter
  | longNumber
  | longPrecision
  | tooWide
  | unknownCode (code : Char) (kind : String)
  | unsupported (kind : String)
  deriving DecidableEq, Repr

namespace Fault

/-- A letter as it is shown in a message: by its code unless it lies between the blank and
`limit`. -/
def letter (limit : Nat) (c : Char) : String :=
  if 32 < c.toNat ∧ c.toNat < limit then String.singleton c
  else "\\x" ++ String.ofList (Nat.toDigits 16 c.toNat)

def message : Fault → String
  | loneBrace brace => "Single '" ++ String.singleton brace ++ "' encountered in format string"
  | braceInName => "unexpected '\x7b' in field name"
  | unclosedField => "expected '\x7d' before end of string"
  | unclosedLayout => "unmatched '\x7b' in format spec"
  | noConversion => "end of string while looking for conversion specifier"
  | noColonAfterConversion => "expected ':' after conversion specifier"
  | nestedTooDeep => "Max string recursion exceeded"
  | unknownConversion c => "Unknown conversion specifier " ++ letter 127 c
  | tooManyDigits => "Too many decimal digits in format string"
  | emptyStep => "Empty attribute in format string"
  | unclosedIndex => "Missing ']' in format string"
  | strayAfterIndex => "Only '.' or '[' may follow ']' in format field specifier"
  | unknownField name => Text.quoted name
  | positional index =>
      "Replacement index " ++ Number.natText index ++ " out of range for positional args tuple"
  | mismatch m => m.message
  | noKindMember kind name => "type object '" ++ kind ++ "' has no attribute '" ++ name ++ "'"
  | wordIndex "str" => "string indices must be integers, not 'str'"
  | wordIndex kind => kind ++ " indices must be integers or slices, not str"
  | notGeneric subject => subject ++ " is not a generic class"
  | kindNotIndexed kind => "type '" ++ kind ++ "' is not subscriptable"
  | missingKey name => Text.quoted name
  | missingNumber index => Number.natText index
  | outOfRange "str" => "string index out of range"
  | outOfRange kind => kind ++ " index out of range"
  | badLayout layout kind =>
      "Invalid format specifier '" ++ layout ++ "' for object of type '" ++ kind ++ "'"
  | bothSeparators => "Cannot specify both ',' and '_'."
  | separator mark code =>
      "Cannot specify '" ++ letter 128 mark ++ "' with '" ++ letter 128 code ++ "'."
  | noPrecision => "Format specifier missing precision"
  | signedText ' ' => "Space not allowed in string format specifier"
  | signedText _ => "Sign not allowed in string format specifier"
  | zeroText => "Negative zero coercion (z) not allowed in string format specifier"
  | alternateText => "Alternate form (#) not allowed in string format specifier"
  | spreadText => "'=' alignment not allowed in string format specifier"
  | wholePrecision => "Precision not allowed in integer format specifier"
  | zeroWhole => "Negative zero coercion (z) not allowed in integer format specifier"
  | signedLetter => "Sign not allowed with integer format specifier 'c'"
  | alternateLetter => "Alternate form (#) not allowed with integer format specifier 'c'"
  | noLetter => "%c arg not in range(0x110000)"
  | longLetter => "Python int too large to convert to C long"
  | longNumber => "int too large to convert to float"
  | longPrecision => "precision too big"
  | tooWide => ""
  | unknownCode code kind =>
      "Unknown format code '" ++ letter 128 code ++ "' for object of type '" ++ kind ++ "'"
  | unsupported kind => "unsupported format string passed to " ++ kind ++ ".__format__"

def title : Fault → String
  | unknownField _ | missingKey _ | missingNumber _ => "KeyError"
  | positional _ | outOfRange _ => "IndexError"
  | mismatch m => m.title
  | noKindMember _ _ => "AttributeError"
  | wordIndex _ | kindNotIndexed _ | notGeneric _ | unsupported _ => "TypeError"
  | noLetter | longLetter | longNumber => "OverflowError"
  | tooWide => "MemoryError"
  | _ => "ValueError"

end Fault

end Template

end TreeShell
