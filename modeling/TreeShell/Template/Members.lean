import TreeShell.Text.Pieces

/-!
# Members of values

Every value is of a kind. A kind knows the more general kinds above it, and it describes itself.
What the values of a kind can do is listed here by name; a kind has the members of the more general
kinds as well, unless it has one of that name itself.
-/

namespace TreeShell

namespace Template

/-- A kind and the more general ones, the most general last. -/
def lineage (kind : String) : List String :=
  if kind = "object" then [kind]
  else if kind = "bool" then [kind, "int", "object"]
  else [kind, "object"]

/-- The forms that members have. -/
inductive Form where
  | operator
  | method
  | property
  | slot
  /-- A member of the kind itself and not of its values. -/
  | maker
  deriving DecidableEq, Repr

/-- What a form is called. -/
def Form.title : Form → String
  | operator => "slot wrapper"
  | method => "method"
  | property => "attribute"
  | slot => "member"
  | maker => "built-in method"

/-- The kind of a member that belongs to no value. -/
def Form.kindName : Form → String
  | operator => "wrapper_descriptor"
  | method => "method_descriptor"
  | property => "getset_descriptor"
  | slot => "member_descriptor"
  | maker => "builtin_function_or_method"

/-- The kind of a member that belongs to a value. -/
def Form.boundName : Form → String
  | operator => "method-wrapper"
  | _ => "builtin_function_or_method"

def forms : List Form := [.operator, .method, .property, .slot, .maker]

/-- The members of a form that a kind has of its own. -/
def ownMembers : String → Form → String
  | "object", .operator =>
      "__delattr__ __eq__ __ge__ __getattribute__ __gt__ __hash__ __init__ __le__ __lt__ " ++
        "__ne__ __repr__ __setattr__ __str__"
  | "object", .method =>
      "__dir__ __format__ __getstate__ __reduce__ __reduce_ex__ __sizeof__"
  | "object", .maker =>
      "__init_subclass__ __new__ __subclasshook__"
  | "type", .operator =>
      "__call__ __delattr__ __getattribute__ __init__ __or__ __repr__ __ror__ __setattr__"
  | "type", .method =>
      "__dir__ __instancecheck__ __sizeof__ __subclasscheck__ __subclasses__ mro"
  | "type", .property =>
      "__abstractmethods__ __annotations__ __bases__ __dict__ __module__ __name__ " ++
        "__qualname__ __text_signature__"
  | "type", .slot =>
      "__base__ __basicsize__ __dictoffset__ __flags__ __itemsize__ __mro__ " ++
        "__weakrefoffset__"
  | "type", .maker =>
      "__new__ __prepare__"
  | "str", .operator =>
      "__add__ __contains__ __eq__ __ge__ __getattribute__ __getitem__ __gt__ __hash__ " ++
        "__iter__ __le__ __len__ __lt__ __mod__ __mul__ __ne__ __repr__ __rmod__ __rmul__ " ++
        "__str__"
  | "str", .method =>
      "__format__ __getnewargs__ __sizeof__ capitalize casefold center count encode " ++
        "endswith expandtabs find format format_map index isalnum isalpha isascii isdecimal " ++
        "isdigit isidentifier islower isnumeric isprintable isspace istitle isupper join " ++
        "ljust lower lstrip partition removeprefix removesuffix replace rfind rindex rjust " ++
        "rpartition rsplit rstrip split splitlines startswith strip swapcase title translate " ++
        "upper zfill"
  | "str", .maker =>
      "__new__ maketrans"
  | "int", .operator =>
      "__abs__ __add__ __and__ __bool__ __divmod__ __eq__ __float__ __floordiv__ __ge__ " ++
        "__getattribute__ __gt__ __hash__ __index__ __int__ __invert__ __le__ __lshift__ " ++
        "__lt__ __mod__ __mul__ __ne__ __neg__ __or__ __pos__ __pow__ __radd__ __rand__ " ++
        "__rdivmod__ __repr__ __rfloordiv__ __rlshift__ __rmod__ __rmul__ __ror__ __rpow__ " ++
        "__rrshift__ __rshift__ __rsub__ __rtruediv__ __rxor__ __sub__ __truediv__ __xor__"
  | "int", .method =>
      "__ceil__ __floor__ __format__ __getnewargs__ __round__ __sizeof__ __trunc__ " ++
        "as_integer_ratio bit_count bit_length conjugate to_bytes"
  | "int", .property =>
      "denominator imag numerator real"
  | "int", .maker =>
      "__new__ from_bytes"
  | "bool", .operator =>
      "__and__ __or__ __rand__ __repr__ __ror__ __rxor__ __xor__"
  | "bool", .maker =>
      "__new__"
  | "float", .operator =>
      "__abs__ __add__ __bool__ __divmod__ __eq__ __float__ __floordiv__ __ge__ " ++
        "__getattribute__ __gt__ __hash__ __int__ __le__ __lt__ __mod__ __mul__ __ne__ " ++
        "__neg__ __pos__ __pow__ __radd__ __rdivmod__ __repr__ __rfloordiv__ __rmod__ " ++
        "__rmul__ __rpow__ __rsub__ __rtruediv__ __sub__ __truediv__"
  | "float", .method =>
      "__ceil__ __floor__ __format__ __getnewargs__ __round__ __trunc__ as_integer_ratio " ++
        "conjugate hex is_integer"
  | "float", .property =>
      "imag real"
  | "float", .maker =>
      "__getformat__ __new__ fromhex"
  | "list", .operator =>
      "__add__ __contains__ __delitem__ __eq__ __ge__ __getattribute__ __gt__ __iadd__ " ++
        "__imul__ __init__ __iter__ __le__ __len__ __lt__ __mul__ __ne__ __repr__ __rmul__ " ++
        "__setitem__"
  | "list", .method =>
      "__getitem__ __reversed__ __sizeof__ append clear copy count extend index insert pop " ++
        "remove reverse sort"
  | "list", .maker =>
      "__class_getitem__ __new__"
  | "dict", .operator =>
      "__delitem__ __eq__ __ge__ __getattribute__ __gt__ __init__ __ior__ __iter__ __le__ " ++
        "__len__ __lt__ __ne__ __or__ __repr__ __ror__ __setitem__"
  | "dict", .method =>
      "__contains__ __getitem__ __reversed__ __sizeof__ clear copy get items keys pop " ++
        "popitem setdefault update values"
  | "dict", .maker =>
      "__class_getitem__ __new__ fromkeys"
  | "tuple", .operator =>
      "__add__ __contains__ __eq__ __ge__ __getattribute__ __getitem__ __gt__ __hash__ " ++
        "__iter__ __le__ __len__ __lt__ __mul__ __ne__ __repr__ __rmul__"
  | "tuple", .method =>
      "__getnewargs__ count index"
  | "tuple", .maker =>
      "__class_getitem__ __new__"
  | "NoneType", .operator =>
      "__bool__ __repr__"
  | "NoneType", .maker =>
      "__new__"
  | _, _ => ""

/-- The form of a member and the kind in a lineage that it comes from. -/
def findMember? (kind name : String) : Option (Form × String) :=
  (lineage kind).findSome? fun owner ↦
    (forms.find? fun f ↦ name ∈ Text.tokens (ownMembers owner f)).map fun f ↦ (f, owner)

/-- Values that can change cannot stand for a key. -/
def isUnhashable (kind : String) : Bool := kind == "list" || kind == "dict"

/-- The kinds that can be given the kinds of their items. -/
def isGeneric (kind : String) : Bool :=
  kind == "list" || kind == "dict" || kind == "tuple" || kind == "type"

/-- What a kind says of itself. -/
def about? : String → Option String
  | "object" => some <|
      "The base class of the class hierarchy.\n\n" ++
        "When called, it accepts no arguments and returns a new featureless\n" ++
        "instance that has no instance attributes and cannot be given any.\n"
  | "type" => some <|
      "type(object) -> the object's type\n" ++
        "type(name, bases, dict, **kwds) -> a new type"
  | "str" => some <|
      "str(object='') -> str\n" ++
        "str(bytes_or_buffer[, encoding[, errors]]) -> str\n\n" ++
        "Create a new string object from the given object. If encoding or\n" ++
        "errors is specified, then the object must expose a data buffer\n" ++
        "that will be decoded using the given encoding and error handler.\n" ++
        "Otherwise, returns the result of object.__str__() (if defined)\n" ++
        "or repr(object).\n" ++
        "encoding defaults to sys.getdefaultencoding().\n" ++
        "errors defaults to 'strict'."
  | "int" => some <|
      "int([x]) -> integer\n" ++
        "int(x, base=10) -> integer\n\n" ++
        "Convert a number or string to an integer, or return 0 if no arguments\n" ++
        "are given.  If x is a number, return x.__int__().  For floating point\n" ++
        "numbers, this truncates towards zero.\n\n" ++
        "If x is not a number or if base is given, then x must be a string,\n" ++
        "bytes, or bytearray instance representing an integer literal in the\n" ++
        "given base.  The literal can be preceded by '+' or '-' and be surrounded\n" ++
        "by whitespace.  The base defaults to 10.  Valid bases are 0 and 2-36.\n" ++
        "Base 0 means to interpret the base from the string as an integer literal.\n" ++
        ">>> int('0b100', base=0)\n" ++
        "4"
  | "bool" => some <|
      "bool(x) -> bool\n\n" ++
        "Returns True when the argument x is true, False otherwise.\n" ++
        "The builtins True and False are the only two instances of the class bool.\n" ++
        "The class bool is a subclass of the class int, and cannot be subclassed."
  | "float" => some <|
      "Convert a string or number to a floating point number, if possible."
  | "list" => some <|
      "Built-in mutable sequence.\n\n" ++
        "If no argument is given, the constructor creates a new empty list.\n" ++
        "The argument must be an iterable if specified."
  | "dict" => some <|
      "dict() -> new empty dictionary\n" ++
        "dict(mapping) -> new dictionary initialized from a mapping object's\n    (key, " ++
        "value) pairs\n" ++
        "dict(iterable) -> new dictionary initialized as if via:\n    d = \x7b\x7d\n    for " ++
        "k, v in iterable:\n        d[k] = v\n" ++
        "dict(**kwargs) -> new dictionary initialized with the name=value pairs\n    in the " ++
        "keyword argument list.  For example:  dict(one=1, two=2)"
  | "tuple" => some <|
      "Built-in immutable sequence.\n\n" ++
        "If no argument is given, the constructor returns an empty tuple.\n" ++
        "If iterable is specified the tuple is initialized from iterable's items.\n\n" ++
        "If the argument is a tuple, the return value is the same object."
  | _ => none

/-- How a kind is called to make a value, as far as it tells. -/
def signature? : String → Option String
  | "object" => some "()"
  | "float" => some "(x=0, /)"
  | "list" | "tuple" => some "(iterable=(), /)"
  | _ => none

end Template

end TreeShell
