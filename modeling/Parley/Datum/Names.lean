import Parley.Datum

/-!
# The names a datum answers to

A host may ask a datum for a part by name.  Every kind of datum has some names of
its own.  Behind a few of them stands another datum, such as the payload of a script
value; behind the others stand operations, which are no data.

The operations with symbols, such as a sum or a look-up, have names between two
pairs of underscores.  Names that every datum has are not listed.
-/

namespace Parley.Datum

/-- Between two pairs of underscores. -/
def special (stem : String) : String := "__" ++ stem ++ "__"

/-! ## Parts that are data -/

/-- The parts of an integer. -/
def partOfInt? (i : Int) (name : String) : Option Datum :=
  if name = "real" || name = "numerator" then some (.int i)
  else if name = "imag" then some (.int 0)
  else if name = "denominator" then some (.int 1)
  else none

/-- The parts of a double. -/
def partOfDouble? (x : Double) (name : String) : Option Datum :=
  if name = "real" then some (.float x)
  else if name = "imag" then some (.float .zero)
  else none

/-- The name of a script value's payload. -/
def payloadName : String := "value"

/-- The parts of a script value. -/
def partOfValue? (payload : Datum) (name : String) : Option Datum :=
  if name = payloadName then some payload
  else if name = special "match_args" then some (.tuple [.text payloadName])
  else none

/-- The part of a datum under a name. -/
def part? : Datum → String → Option Datum
  | .bool b => partOfInt? (if b then 1 else 0)
  | .int i => partOfInt? i
  | .float x => partOfDouble? x
  | .number x => partOfValue? (.float x)
  | .boolean p | .string p | .bare p => partOfValue? p
  | _ => fun _ => none

/-! ## Names -/

/-- The operations of numbers. -/
def numberOperations : List String :=
  [ "abs", "add", "bool", "ceil", "divmod", "float", "floor", "floordiv", "getnewargs", "int",
    "mod", "mul", "neg", "pos", "pow", "radd", "rdivmod", "rfloordiv", "rmod", "rmul", "round",
    "rpow", "rsub", "rtruediv", "sub", "truediv", "trunc" ]

/-- The operations that only integers have. -/
def integerOperations : List String :=
  [ "and", "index", "invert", "lshift", "or", "rand", "rlshift", "ror", "rrshift", "rshift",
    "rxor", "xor" ]

def integerNames : List String :=
  (numberOperations ++ integerOperations).map special ++
  [ "as_integer_ratio", "bit_count", "bit_length", "conjugate", "denominator", "from_bytes",
    "imag", "numerator", "real", "to_bytes" ]

def doubleNames : List String :=
  ("getformat" :: numberOperations).map special ++
  [ "as_integer_ratio", "conjugate", "fromhex", "hex", "imag", "is_integer", "real" ]

/-- The operations of whatever has items in an order. -/
def sequenceOperations : List String :=
  [ "add", "contains", "getitem", "iter", "len", "mul", "rmul" ]

/-- The names that texts and bytes share. -/
def stringNames : List String :=
  (sequenceOperations ++ ["getnewargs", "mod", "rmod"]).map special ++
  [ "capitalize", "center", "count", "endswith", "expandtabs", "find", "index", "isalnum",
    "isalpha", "isascii", "isdigit", "islower", "isspace", "istitle", "isupper", "join", "ljust",
    "lower", "lstrip", "maketrans", "partition", "removeprefix", "removesuffix", "replace",
    "rfind", "rindex", "rjust", "rpartition", "rsplit", "rstrip", "split", "splitlines",
    "startswith", "strip", "swapcase", "title", "translate", "upper", "zfill" ]

def textNames : List String :=
  stringNames ++
  [ "casefold", "encode", "format", "format_map", "isdecimal", "isidentifier", "isnumeric",
    "isprintable" ]

def bytesNames : List String := special "bytes" :: stringNames ++ ["decode", "fromhex", "hex"]

def listNames : List String :=
  (sequenceOperations ++
    ["class_getitem", "delitem", "iadd", "imul", "reversed", "setitem"]).map special ++
  [ "append", "clear", "copy", "count", "extend", "index", "insert", "pop", "remove", "reverse",
    "sort" ]

def tupleNames : List String :=
  (sequenceOperations ++ ["class_getitem", "getnewargs"]).map special ++ ["count", "index"]

def dictNames : List String :=
  [ "class_getitem", "contains", "delitem", "getitem", "ior", "iter", "len", "or", "reversed",
    "ror", "setitem" ].map special ++
  [ "clear", "copy", "fromkeys", "get", "items", "keys", "pop", "popitem", "setdefault",
    "update", "values" ]

/-- The names of a script value.  Only a number settles its payload when it is made. -/
def valueNames (settles : Bool) : List String :=
  (["annotations", "dataclass_fields", "dataclass_params", "match_args"] ++
    if settles then ["post_init"] else []).map special ++ [payloadName]

/-- The names that a datum answers to, beyond those that every datum has. -/
def names : Datum → List String
  | .bool _ | .int _ => integerNames
  | .float _ => doubleNames
  | .text _ => textNames
  | .bytes _ => bytesNames
  | .list _ => listNames
  | .tuple _ => tupleNames
  | .dict _ => dictNames
  | .number _ => valueNames true
  | .boolean _ | .string _ | .bare _ => valueNames false
  | .nothing | .error .. => []

end Parley.Datum
