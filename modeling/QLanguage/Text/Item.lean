import QLanguage.Text.Joined
import QLanguage.Text.Quoted

/-!
# What a field of a template can reach

A field of a template starts at an argument, which is a text, and selectors lead on from there: an
index to a character, and the name of a property to something else that belongs to the text. All
that can be reached in this way is an item.

Every item is of a kind, and kinds are items themselves. What can be done with the items of a kind
is reached by a name: a method by a plain one, an operator by the name of the operation behind a
mark such as `+`. Reached from a kind they stand alone, and reached from an item they are bound to
it. The most general kind hands its own methods and operators on to all others.
-/

namespace QLanguage

/-- The kind of an item. -/
inductive ItemKind where
  /-- Texts. -/
  | text
  /-- Kinds. -/
  | kind
  /-- Whatever there is: the most general kind. -/
  | anything
  /-- Rows of kinds. -/
  | row
  /-- Nothing. -/
  | nothing
  /-- Methods that stand alone. -/
  | method
  /-- Operators that stand alone. -/
  | operator
  /-- Methods bound to an item. -/
  | boundMethod
  /-- Operators bound to an item. -/
  | boundOperator
deriving Repr, DecidableEq

namespace ItemKind

/-- The name of a kind. -/
def name : ItemKind → String
  | .text => "str"
  | .kind => "type"
  | .anything => "object"
  | .row => "tuple"
  | .nothing => "NoneType"
  | .method => "method_descriptor"
  | .operator => "wrapper_descriptor"
  | .boundMethod => "builtin_function_or_method"
  | .boundOperator => "method-wrapper"

/-- What is said of a kind, if anything is. -/
def doc : ItemKind → Option String
  | .text => some <|
    "str(object='') -> str\nstr(bytes_or_buffer[, encoding[, errors]]) -> str\n\n" ++
    "Create a new string object from the given object. If encoding or\n" ++
    "errors is specified, then the object must expose a data buffer\n" ++
    "that will be decoded using the given encoding and error handler.\n" ++
    "Otherwise, returns the result of object.__str__() (if defined)\nor repr(object).\n" ++
    "encoding defaults to sys.getdefaultencoding().\nerrors defaults to 'strict'."
  | .kind => some <|
    "type(object) -> the object's type\ntype(name, bases, dict, **kwds) -> a new type"
  | .anything => some <|
    "The base class of the class hierarchy.\n\n" ++
    "When called, it accepts no arguments and returns a new featureless\n" ++
    "instance that has no instance attributes and cannot be given any.\n"
  | .row => some <|
    "Built-in immutable sequence.\n\n" ++
    "If no argument is given, the constructor returns an empty tuple.\n" ++
    "If iterable is specified the tuple is initialized from iterable's items.\n\n" ++
    "If the argument is a tuple, the return value is the same object."
  | _ => none

/-- The kind that a kind is a special case of. -/
def parent : ItemKind → Option ItemKind
  | .anything => none
  | _ => some .anything

/-- A kind and what it is a special case of, the kind itself first. -/
def lineage (k : ItemKind) : List ItemKind := k :: k.parent.toList

/-- The methods that a kind has of its own. -/
def methods : ItemKind → List String
  | .text =>
    ["__format__", "__getnewargs__", "__sizeof__", "capitalize", "casefold", "center", "count",
      "encode", "endswith", "expandtabs", "find", "format", "format_map", "index", "isalnum",
      "isalpha", "isascii", "isdecimal", "isdigit", "isidentifier", "islower", "isnumeric",
      "isprintable", "isspace", "istitle", "isupper", "join", "ljust", "lower", "lstrip",
      "partition", "removeprefix", "removesuffix", "replace", "rfind", "rindex", "rjust",
      "rpartition", "rsplit", "rstrip", "split", "splitlines", "startswith", "strip", "swapcase",
      "title", "translate", "upper", "zfill"]
  | .kind =>
    ["__dir__", "__instancecheck__", "__sizeof__", "__subclasscheck__", "__subclasses__", "mro"]
  | .anything =>
    ["__dir__", "__format__", "__getstate__", "__reduce__", "__reduce_ex__", "__sizeof__"]
  | .row => ["__getnewargs__", "count", "index"]
  | .nothing => []
  | .method | .operator | .boundMethod | .boundOperator => ["__reduce__"]

/-- The operators that a kind has of its own. -/
def operators : ItemKind → List String
  | .text =>
    ["__add__", "__contains__", "__eq__", "__ge__", "__getattribute__", "__getitem__", "__gt__",
      "__hash__", "__iter__", "__le__", "__len__", "__lt__", "__mod__", "__mul__", "__ne__",
      "__repr__", "__rmod__", "__rmul__", "__str__"]
  | .kind =>
    ["__call__", "__delattr__", "__getattribute__", "__init__", "__or__", "__repr__", "__ror__",
      "__setattr__"]
  | .anything =>
    ["__delattr__", "__eq__", "__ge__", "__getattribute__", "__gt__", "__hash__", "__init__",
      "__le__", "__lt__", "__ne__", "__repr__", "__setattr__", "__str__"]
  | .row =>
    ["__add__", "__contains__", "__eq__", "__ge__", "__getattribute__", "__getitem__", "__gt__",
      "__hash__", "__iter__", "__le__", "__len__", "__lt__", "__mul__", "__ne__", "__repr__",
      "__rmul__"]
  | .nothing => ["__bool__", "__repr__"]
  | .method | .operator => ["__call__", "__get__", "__getattribute__", "__repr__"]
  | .boundMethod | .boundOperator =>
    ["__call__", "__eq__", "__ge__", "__getattribute__", "__gt__", "__hash__", "__le__", "__lt__",
      "__ne__", "__repr__"]

/-- The methods of its own that are bound to the kind where they come from. -/
def makers : ItemKind → List String
  | .text => ["__new__", "maketrans"]
  | .kind => ["__new__", "__prepare__"]
  | .anything | .row | .nothing => ["__new__"]
  | _ => []

/-- The methods of its own that are bound to the kind where they are reached. -/
def inheritedMakers : ItemKind → List String
  | .anything => ["__init_subclass__", "__subclasshook__"]
  | .row => ["__class_getitem__"]
  | _ => []

end ItemKind

/-- What a field of a template can reach. -/
inductive Item where
  /-- A text. -/
  | text (chars : List Char)
  /-- A kind. -/
  | kind (k : ItemKind)
  /-- A row of kinds. -/
  | row (kinds : List ItemKind)
  /-- Nothing. -/
  | nothing
  /-- A method of a kind. -/
  | method (owner : ItemKind) (name : String)
  /-- An operator of a kind. -/
  | operator (owner : ItemKind) (name : String)
  /-- A method bound to an item. -/
  | boundMethod (item : Item) (name : String)
  /-- An operator of a kind bound to an item. -/
  | boundOperator (owner : ItemKind) (item : Item) (name : String)
deriving Repr, DecidableEq

namespace Item

/-- The kind of an item. -/
def kindOf : Item → ItemKind
  | .text _ => .text
  | .kind _ => .kind
  | .row _ => .row
  | .nothing => .nothing
  | .method _ _ => .method
  | .operator _ _ => .operator
  | .boundMethod _ _ => .boundMethod
  | .boundOperator _ _ _ => .boundOperator

/-- A text that may be missing. -/
def ofText? : Option String → Item
  | none => .nothing
  | some said => .text said.toList

/-- Where an item is said to be kept. No item is told from another by this. -/
def place : String := "0x7f0000000000"

/-- An item in debug form. -/
def debugged : Item → String
  | .text chars => quoted (String.ofList chars)
  | .kind k => "<class '" ++ k.name ++ "'>"
  | .row kinds => tupleText (kinds.map fun k => "<class '" ++ k.name ++ "'>")
  | .nothing => "None"
  | .method owner name => "<method '" ++ name ++ "' of '" ++ owner.name ++ "' objects>"
  | .operator owner name => "<slot wrapper '" ++ name ++ "' of '" ++ owner.name ++ "' objects>"
  | .boundMethod item name =>
    "<built-in method " ++ name ++ " of " ++ item.kindOf.name ++ " object at " ++ place ++ ">"
  | .boundOperator _ item name =>
    "<method-wrapper '" ++ name ++ "' of " ++ item.kindOf.name ++ " object at " ++ place ++ ">"

/-- An item as it is filled in: a text as it is, and all else in debug form. -/
def shown : Item → List Char
  | .text chars => chars
  | item => item.debugged.toList

/-- The name that a method bound to an item has, with the kind that it belongs to. -/
def qualified (name : String) : Item → String
  | .kind k => k.name ++ "." ++ name
  | item => item.kindOf.name ++ "." ++ name

/-- The properties that an item has by itself. -/
def own? : Item → String → Option Item
  | .kind k, "__name__" | .kind k, "__qualname__" => some (.text k.name.toList)
  | .kind _, "__module__" => some (.text "builtins".toList)
  | .kind k, "__base__" => some (k.parent.elim .nothing .kind)
  | .kind k, "__bases__" => some (.row k.parent.toList)
  | .kind k, "__mro__" => some (.row k.lineage)
  | .kind k, "__doc__" => some (ofText? k.doc)
  | .method _ name, "__name__" | .operator _ name, "__name__" | .boundMethod _ name, "__name__"
  | .boundOperator _ _ name, "__name__" => some (.text name.toList)
  | .method owner name, "__qualname__" | .operator owner name, "__qualname__"
  | .boundOperator owner _ name, "__qualname__" => some (.text (owner.name ++ "." ++ name).toList)
  | .boundMethod item name, "__qualname__" => some (.text (item.qualified name).toList)
  | .method owner _, "__objclass__" | .operator owner _, "__objclass__"
  | .boundOperator owner _ _, "__objclass__" => some (.kind owner)
  | .boundMethod item _, "__self__" | .boundOperator _ item _, "__self__" => some item
  | .boundMethod _ _, "__module__" => some .nothing
  | item, "__class__" => some (.kind item.kindOf)
  | item, "__doc__" => some (ofText? item.kindOf.doc)
  | _, _ => none

/-- A property that comes from a kind, where `method` and `operator` say what the methods and
operators of an owner are reached as. The owner is the kind itself or what it is a special case
of. -/
def ofKind? (k : ItemKind) (name : String) (method operator : ItemKind → Item) : Option Item :=
  k.lineage.findSome? fun owner =>
    if owner.methods.contains name then some (method owner)
    else if owner.operators.contains name then some (operator owner)
    else if owner.makers.contains name then some (.boundMethod (.kind owner) name)
    else if owner.inheritedMakers.contains name then some (.boundMethod (.kind k) name)
    else none

/-- A property that an item has from its kind. -/
def bound? (item : Item) (name : String) : Option Item :=
  ofKind? item.kindOf name (fun _ => .boundMethod item name) (.boundOperator · item name)

/-- A property that a kind has for its items. -/
def standing? (k : ItemKind) (name : String) : Option Item :=
  ofKind? k name (.method · name) (.operator · name)

/-- The property of an item that has a name. A kind looks among its own methods and operators
before those that it has as an item. -/
def property? (item : Item) (name : String) : Option Item :=
  (item.own? name).or <|
    match item with
    | .kind k => (standing? k name).or (item.bound? name)
    | _ => item.bound? name

/-- Every item tells its kind. -/
theorem property?_kind (item : Item) : item.property? "__class__" = some (.kind item.kindOf) := by
  cases item <;> rfl

end Item

end QLanguage
