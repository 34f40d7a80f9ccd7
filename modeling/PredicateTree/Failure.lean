import PredicateTree.StaticType
import PredicateTree.ErrorClass
import PredicateTree.Number.Reading

/-!
# Failures of operations on values

What can go wrong when an operator, a function or a read meets values it is not made for
(`Failure`), with the class of each failure (`Failure.errorClass`) and its wording
(`Failure.message`).
-/

namespace PredicateTree

/-- The divisions that refuse a zero divisor. -/
inductive ZeroDivision where
  | quotient
  | floatQuotient
  | floorQuotient
  | floatFloorQuotient
  | remainder
  | floatRemainder
  | negativePower

/-- How the number of arguments of a call differs from what the function takes. -/
inductive ArgumentMismatch where
  | exactlyOne (function : String) (given : Nat)
  | none (function : String) (given : Nat)
  | expectedExactly (function : String) (expected given : Nat)
  | expectedAtLeast (function : String) (least given : Nat)
  | expectedAtMost (function : String) (most given : Nat)
  | atLeast (function : String) (positional : Bool) (least given : Nat)
  | atMost (function : String) (most given : Nat)
  /-- A function with named parameters got too many arguments. -/
  | tooMany (function : String) (taken given : Nat)
  /-- A function with optional parameters got too many arguments. -/
  | tooManyBetween (function : String) (least most given : Nat)
  /-- A function with named parameters got too few arguments. -/
  | missing (function : String) (names : List String)
  /-- A type got no argument at a position. -/
  | missingAt (type name : String) (position : Nat)
  /-- A compiled lambda got a wrong number of arguments. -/
  | lambda (taken given : Nat)
  /-- A type that builds from nothing got arguments. -/
  | takesNone (type : StaticType)

/-- What a missing attribute was looked for on. -/
inductive AttributeOwner where
  | instanceOf (t : StaticType)
  /-- An instance of a type, of which the attribute should be deleted. -/
  | deletedFrom (t : StaticType)
  | typeItself (t : StaticType)
  | module (name : String)

/-- A failure of an operation on values. -/
inductive Failure where
  | unsupportedOperands (symbol : String) (left right : StaticType)
  | unsupportedOperand (operation : String) (operand : StaticType)
  | unordered (symbol : String) (left right : StaticType)
  | concatenation (sequence found : StaticType)
  | repetition (count : StaticType)
  | countTooLarge
  | limitTooLarge
  | repetitionTooLong
  | outOfMemory
  | notCallable (t : StaticType)
  | notIterable (t : StaticType)
  /-- A value answered under a special name with something that should be a text. -/
  | answerNotText (name : String) (t : StaticType)
  /-- A value answered under a special name with something that should be an integer. -/
  | answerNotInt (name : String) (t : StaticType)
  /-- An object of type `owner` answered with something that should be a floating-point number. -/
  | answerNotFloat (owner t : StaticType)
  /-- An object without its fraction is no integer. -/
  | notIntegral (t : StaticType)
  /-- A value answered with something that should be a truth value. -/
  | truthNotBool (t : StaticType)
  | hashNotInt
  | negativeLength
  /-- The number of items that a class announces is no integer. -/
  | hintNotInt (found : StaticType)
  | negativeHint
  /-- A class says that its objects contain nothing. -/
  | refusesMembers (t : StaticType)
  | formatNotText (t : StaticType)
  /-- A part of a text, the `place`-th of several, is no text. -/
  | partNotText (place : Nat) (t : StaticType)
  /-- What an object gives to be asked for its items cannot be asked for them. -/
  | notAnIterator (t : StaticType)
  | notContainer (t : StaticType)
  | notSized (t : StaticType)
  | unhashable (t : StaticType)
  | textMembership (t : StaticType)
  /-- A value of this type was looked for in an enumeration. -/
  | notAnEnumerationMember (t : StaticType)
  | missingAttribute (owner : AttributeOwner) (name : String)
  | attributeNameNotText (t : StaticType)
  /-- An enumeration has no member with a label. -/
  | missingMember (label : String)
  | notWritable (owner : StaticType) (name : String)
  | readOnly (owner : StaticType) (name : String)
  | computedAttribute (deleted : Bool) (owner : StaticType) (name : String)
  | immutableType (t : StaticType) (name : String)
  /-- A type should lose a name that every type has. -/
  | undeletedName (t : StaticType) (name : String)
  /-- A function should get a name that is no text. -/
  | nameNotText (label : String)
  /-- A type should get a name that is no text. -/
  | typeNameNotText (t : StaticType) (label : String) (found : StaticType)
  | typeNameWithNull
  | enumerationAttribute (deleted : Bool) (name : String)
  /-- A value should become one of a class that is none. -/
  | classNotAType (t : StaticType)
  /-- A value should become one of another class, and it or the class does not allow that. -/
  | classAssignment
  /-- An object should become one of a class whose objects are made up otherwise. -/
  | classLayout (old new : StaticType)
  | classDeletion
  | reassignedMember (name : String)
  | deletedMember (owner : StaticType) (name : String)
  | notCopied (t : StaticType)
  | missingKey (shown : String)
  | indexOutOfRange (sequence : StaticType)
  | indexTooLarge
  | notAnItemIndex (sequence found : StaticType)
  | notSubscriptable (t : StaticType)
  | typeNotSubscriptable (t : StaticType)
  | notGeneric (shown : String)
  /-- The type of functions was given no arguments and no result. -/
  | callableForm
  | division (kind : ZeroDivision)
  | intTooLarge
  | quotientTooLarge
  | powerTooLarge
  | notANumberToInt
  | infinityToInt
  | mathDomain
  | ambiguousTruth
  | unusedFormatArguments
  | missingFormatArguments
  /-- A directive for numbers, or for integers only, got something else. -/
  | formatNumber (directive : Char) (integral : Bool) (t : StaticType)
  | formatDirective (c : Char) (position : Nat)
  | incompleteFormat
  | namedArgumentsRequired
  | unclosedName
  | extentNotAnInt
  | widthTooBig
  | precisionTooBig
  | precisionTooLarge
  | precisionUnfit
  | notACharacter
  | characterOutOfRange
  | arguments (mismatch : ArgumentMismatch)
  /-- A function got an argument under a name that it does not know. -/
  | unexpectedArgument (function name : String)
  /-- A function that takes some arguments under names got one under another name. -/
  | invalidArgument (function name : String)
  /-- A function that takes no arguments under names got one. -/
  | namedArgument (function : String)
  | emptyArgument (function : String)
  | sumOfText
  | textAffix (method : String) (t : StaticType)
  | textAffixItem (method : String) (t : StaticType)
  | mustBeText (t : StaticType)
  | mustBeTextOrAbsent (t : StaticType)
  | stripArgument
  /-- An argument at a position, counted from one, is not of the type that a function expects. -/
  | argumentAt (function : String) (position : Nat) (expected : String) (t : StaticType)
  | emptySeparator
  | substringNotFound
  | notAnIndex (t : StaticType)
  | notASliceIndex
  | notARealNumber (t : StaticType)
  | notAnInt (base : Int) (shown : String)
  | notAnIntArgument (t : StaticType)
  | baseOfNonText
  | baseOutOfRange
  | notAFloat (shown : String)
  | notAFloatArgument (t : StaticType)
  | textDecoding (t : StaticType)
  /-- A named argument is not of the type that a function expects. -/
  | argumentNamed (function name expected : String) (t : StaticType)
  | embeddedNull
  | abstractType (t : StaticType)
  | notCreated (t : StaticType)
  | notAMapping (t : StaticType)
  /-- A table should be completed by something that is no dictionary. -/
  | notATable (t : StaticType)
  /-- A value of the text `shown` should extend an enumeration. -/
  | enumerationExtended (shown : String) (t : StaticType)
  /-- What an object gives as its keys has no items. -/
  | keysNotIterable (t found : StaticType)
  | typeArguments
  /-- A new type should extend one that cannot be extended. -/
  | notABase (t : StaticType)
  /-- A new type should have a qualified name that is no text. -/
  | qualifiedNameNotText (t : StaticType)
  /-- What prepares a new object gave something back. -/
  | initGave (t : StaticType)
  /-- A new type should extend something that is no type, or types of two kinds. -/
  | basesOfTwoKinds
  /-- A new type should extend types that keep what they hold in different ways. -/
  | basesKeptApart
  /-- A new type should extend a type twice. -/
  | baseTwice (t : StaticType)
  /-- The types that a new type should extend come in no order that all of them agree with. -/
  | basesWithoutOrder (waiting : List StaticType)
  /-- A function should be bound that is none. -/
  | boundNotCallable
  /-- A function should be bound to nothing. -/
  | boundToNothing
  | tooManyDigits (given : Option Nat)
  | unboundMethod (method : String)
  | pairExpected (position : Nat)
  | pairLength (position length : Nat)
  | notAMember (shown : String) (vocabulary : String)
  | operandCount (count : Nat) (symbol : String)
  | notAnOperator (shown : String)
  | fixedOperator (symbol : String)
  | notALambda (purpose : String) (t : StaticType)
  | replacement (old : String) (t : StaticType)
  | lambdaParameter (shown : String)
  | childCount (className : String) (expected given : Nat)
  | immutable (className : String)
  /-- Things that hold one another nest too deeply for what is being done with them. -/
  | nestedTooDeep (doing : String)

namespace ZeroDivision

/-- The wording of a division by zero. -/
def message : ZeroDivision → String
  | .quotient => "division by zero"
  | .floatQuotient => "float division by zero"
  | .floorQuotient => "integer division or modulo by zero"
  | .floatFloorQuotient => "float floor division by zero"
  | .remainder => "integer modulo by zero"
  | .floatRemainder => "float modulo"
  | .negativePower => "0.0 cannot be raised to a negative power"

end ZeroDivision

/-- A count with its noun, in the plural unless the count is one. -/
def counted (n : Nat) (noun : String) : String :=
  toString n ++ " " ++ noun ++ (if n = 1 then "" else "s")

/-- Names in quotes as a list in a sentence. -/
def enumerated (names : List String) : String :=
  let quotedNames := names.map fun n => "'" ++ n ++ "'"
  match quotedNames with
  | [] => ""
  | [a] => a
  | [a, b] => a ++ " and " ++ b
  | _ => ", ".intercalate quotedNames.dropLast ++ ", and " ++ quotedNames.getLastD ""

namespace ArgumentMismatch

/-- The wording of a call with a wrong number of arguments. -/
def message (naming : TypeNaming) : ArgumentMismatch → String
  | .exactlyOne f n => s!"{f}() takes exactly one argument ({n} given)"
  | .none f n => s!"{f}() takes no arguments ({n} given)"
  | .expectedExactly f k n => f ++ " expected " ++ counted k "argument" ++ s!", got {n}"
  | .expectedAtLeast f k n => f ++ " expected at least " ++ counted k "argument" ++ s!", got {n}"
  | .expectedAtMost f k n => f ++ " expected at most " ++ counted k "argument" ++ s!", got {n}"
  | .atLeast f positional k n =>
    let noun := if positional then "positional argument" else "argument"
    f ++ "() takes at least " ++ counted k noun ++ s!" ({n} given)"
  | .atMost f k n => f ++ "() takes at most " ++ counted k "argument" ++ s!" ({n} given)"
  | .tooMany f k n =>
    let verb := if n = 1 then "was" else "were"
    f ++ "() takes " ++ counted k "positional argument" ++ s!" but {n} {verb} given"
  | .missing f names =>
    let count := counted names.length "required positional argument"
    s!"{f}() missing {count}: {enumerated names}"
  | .missingAt t name i => s!"{t}() missing required argument '{name}' (pos {i})"
  | .tooManyBetween f l k n =>
    f ++ s!"() takes from {l} to " ++ counted k "positional argument" ++ s!" but {n} were given"
  | .lambda k n => s!"lambda takes {k} arguments but {n} were given"
  | .takesNone .absent => "NoneType takes no arguments"
  | .takesNone t => t.reported naming 200 ++ "() takes no arguments"

end ArgumentMismatch

namespace AttributeOwner

/-- How a sentence names the owner of a missing attribute. -/
def description (naming : TypeNaming) : AttributeOwner → String
  | .instanceOf (.custom c) => s!"'{(naming (.custom c)).name}' object"
  | .instanceOf t => s!"'{t.reported naming 50}' object"
  | .deletedFrom t => s!"'{t.reported naming 100}' object"
  | .typeItself t => s!"type object '{t.reported naming 50}'"
  | .module n => s!"module '{n}'"

end AttributeOwner

namespace Failure

/-- The class of a failure. -/
def errorClass : Failure → ErrorClass
  | .missingAttribute .. | .missingMember _ | .immutable _ | .notWritable .. | .readOnly ..
  | .computedAttribute .. | .enumerationAttribute .. | .reassignedMember _
  | .deletedMember .. => .attribute
  | .missingKey _ => .key
  | .indexOutOfRange _ | .indexTooLarge => .index
  | .division _ => .zeroDivision
  | .intTooLarge | .quotientTooLarge | .powerTooLarge | .infinityToInt | .countTooLarge
  | .limitTooLarge | .repetitionTooLong | .precisionTooLarge | .precisionUnfit
  | .characterOutOfRange => .overflow
  | .outOfMemory => .memory
  | .nestedTooDeep _ => .recursion
  | .notANumberToInt | .mathDomain | .ambiguousTruth | .emptyArgument _ | .emptySeparator
  | .substringNotFound | .notAnInt .. | .baseOutOfRange | .notAFloat _ | .tooManyDigits _
  | .negativeLength | .negativeHint | .pairLength .. | .notAMember .. | .operandCount ..
  | .notAnOperator _
  | .fixedOperator _ | .childCount .. | .formatDirective .. | .incompleteFormat
  | .unclosedName | .widthTooBig | .precisionTooBig
  | .embeddedNull | .typeNameWithNull => .value
  | _ => .type

/-- How a report names the type of an argument that should be a text. -/
def argumentName (naming : TypeNaming) (t : StaticType) : String :=
  if t = .absent then "None" else t.reported naming 50

/-- The wording of a failure. -/
def message (naming : TypeNaming) : Failure → String
  | .unsupportedOperands symbol l r =>
    s!"unsupported operand type(s) for {symbol}: '{l.reported naming 100}' and " ++
      s!"'{r.reported naming 100}'"
  | .unsupportedOperand operation t =>
    s!"bad operand type for {operation}: '{t.reported naming 200}'"
  | .unordered symbol l r =>
    s!"'{symbol}' not supported between instances of '{l.reported naming 100}' and " ++
      s!"'{r.reported naming 100}'"
  | .concatenation s t =>
    "can only concatenate " ++ s.name ++ " (not \"" ++ t.reported naming 200 ++ "\") to " ++ s.name
  | .repetition t => s!"can't multiply sequence by non-int of type '{t.reported naming 200}'"
  | .countTooLarge | .indexTooLarge => "cannot fit 'int' into an index-sized integer"
  | .limitTooLarge => "Python int too large to convert to C ssize_t"
  | .repetitionTooLong => "repeated string is too long"
  | .outOfMemory => ""
  | .notCallable t => s!"'{t.reported naming 200}' object is not callable"
  | .notIterable t => s!"'{t.reported naming 200}' object is not iterable"
  | .answerNotText name t => s!"{name} returned non-string (type {t.reported naming 200})"
  | .answerNotInt name t => s!"{name} returned non-int (type {t.reported naming 200})"
  | .answerNotFloat owner t =>
    s!"{owner.reported naming 50}.__float__ returned non-float (type {t.reported naming 50})"
  | .notIntegral t => s!"__trunc__ returned non-Integral (type {t.reported naming 200})"
  | .truthNotBool t => s!"__bool__ should return bool, returned {t.reported naming 200}"
  | .hashNotInt => "__hash__ method should return an integer"
  | .negativeLength => "__len__() should return >= 0"
  | .hintNotInt t => s!"__length_hint__ must be an integer, not {t.reported naming 100}"
  | .negativeHint => "__length_hint__() should return >= 0"
  | .refusesMembers t => s!"'{t.reported naming 200}' object is not a container"
  | .formatNotText t => s!"__format__ must return a str, not {t.reported naming 200}"
  | .partNotText i t =>
    s!"sequence item {i}: expected str instance, {t.reported naming 80} found"
  | .notAnIterator t => s!"iter() returned non-iterator of type '{t.reported naming 100}'"
  | .notContainer t => s!"argument of type '{t.reported naming 200}' is not iterable"
  | .notSized t => s!"object of type '{t.reported naming 200}' has no len()"
  | .unhashable t => s!"unhashable type: '{t.reported naming 200}'"
  | .textMembership t =>
    s!"'in <string>' requires string as left operand, not {t.reported naming 100}"
  | .notAnEnumerationMember t =>
    s!"unsupported operand type(s) for 'in': '{(naming t).qualifiedName}' and 'EnumType'"
  | .missingMember label => label
  | .attributeNameNotText t =>
    s!"attribute name must be string, not '{t.reported naming 200}'"
  | .missingAttribute owner name => owner.description naming ++ s!" has no attribute '{name}'"
  | .notWritable t name =>
    s!"attribute '{name}' of '{t.reported naming 100}' objects is not writable"
  | .readOnly t name => s!"'{t.reported naming 100}' object attribute '{name}' is read-only"
  | .computedAttribute deleted t name =>
    s!"property '{name}' of '{(naming t).name}' object has no " ++
      (if deleted then "deleter" else "setter")
  | .immutableType t name =>
    s!"cannot set '{name}' attribute of immutable type '{t.fullName naming}'"
  | .undeletedName t name =>
    s!"cannot delete '{name}' attribute of immutable type '{(naming t).name}'"
  | .nameNotText label => s!"{label} must be set to a string object"
  | .typeNameNotText t label found =>
    s!"can only assign string to {(naming t).name}.{label}, not '{found.reportedName naming}'"
  | .typeNameWithNull => "type name must not contain null characters"
  | .classNotAType t =>
    s!"__class__ must be set to a class, not '{t.reported naming 1000}' object"
  | .classAssignment =>
    "__class__ assignment only supported for mutable types or ModuleType subclasses"
  | .classLayout old new =>
    s!"__class__ assignment: '{(naming new).name}' object layout differs from " ++
      s!"'{(naming old).name}'"
  | .classDeletion => "can't delete __class__ attribute"
  | .enumerationAttribute deleted name =>
    "<enum 'Enum'> cannot " ++ (if deleted then "delete" else "set") ++ s!" attribute '{name}'"
  | .reassignedMember name => s!"cannot reassign member '{name}'"
  | .deletedMember t name => s!"'{(naming t).name}' cannot delete member '{name}'."
  | .notCopied t => s!"cannot pickle '{(naming t).name}' object"
  | .missingKey shown => shown
  | .indexOutOfRange .str => "string index out of range"
  | .indexOutOfRange t => (naming t).name ++ " index out of range"
  | .notAnItemIndex .str t => s!"string indices must be integers, not '{t.reported naming 200}'"
  | .notAnItemIndex s t =>
    s.name ++ s!" indices must be integers or slices, not {t.reported naming 200}"
  | .notSubscriptable t => s!"'{t.reported naming 200}' object is not subscriptable"
  | .typeNotSubscriptable t => s!"type '{t.reported naming 200}' is not subscriptable"
  | .notGeneric shown => s!"{shown} is not a generic class"
  | .callableForm => "Callable must be used as Callable[[arg, ...], result]."
  | .division kind => kind.message
  | .intTooLarge => "int too large to convert to float"
  | .quotientTooLarge => "integer division result too large for a float"
  | .powerTooLarge => "(34, 'Numerical result out of range')"
  | .notANumberToInt => "cannot convert float NaN to integer"
  | .infinityToInt => "cannot convert float infinity to integer"
  | .mathDomain => "math domain error"
  | .ambiguousTruth => "truth value is ambiguous"
  | .unusedFormatArguments => "not all arguments converted during string formatting"
  | .missingFormatArguments => "not enough arguments for format string"
  | .formatNumber directive integral t =>
    "%" ++ String.singleton directive ++ " format: " ++
      (if integral then "an integer" else "a real number") ++
      s!" is required, not {t.reported naming 200}"
  | .formatDirective c position =>
    let code := String.ofList (Nat.toDigits 16 c.toNat)
    let seen := if 31 ≤ c.toNat ∧ c.toNat ≤ 126 then c else '?'
    s!"unsupported format character '{seen}' (0x{code}) at index {position}"
  | .incompleteFormat => "incomplete format"
  | .namedArgumentsRequired => "format requires a mapping"
  | .unclosedName => "incomplete format key"
  | .extentNotAnInt => "* wants int"
  | .widthTooBig => "width too big"
  | .precisionTooBig => "precision too big"
  | .precisionTooLarge => "precision too large"
  | .precisionUnfit => "Python int too large to convert to C int"
  | .notACharacter => "%c requires int or char"
  | .characterOutOfRange => "%c arg not in range(0x110000)"
  | .arguments mismatch => mismatch.message naming
  | .unexpectedArgument f name => s!"{f}() got an unexpected keyword argument '{name}'"
  | .invalidArgument f name => s!"'{name}' is an invalid keyword argument for {f}()"
  | .namedArgument f => s!"{f}() takes no keyword arguments"
  | .emptyArgument f => s!"{f}() arg is an empty sequence"
  | .sumOfText => "sum() can't sum strings [use ''.join(seq) instead]"
  | .textAffix m t => s!"{m} first arg must be str or a tuple of str, not {t.reported naming 100}"
  | .textAffixItem m t => s!"tuple for {m} must only contain str, not {t.reported naming 100}"
  | .mustBeText t => s!"must be str, not {t.reported naming 100}"
  | .mustBeTextOrAbsent t => s!"must be str or None, not {t.reported naming 100}"
  | .stripArgument => "strip arg must be None or str"
  | .argumentAt f position expected t =>
    s!"{f}() argument {position} must be {expected}, not {argumentName naming t}"
  | .emptySeparator => "empty separator"
  | .substringNotFound => "substring not found"
  | .notAnIndex t => s!"'{t.reported naming 200}' object cannot be interpreted as an integer"
  | .notASliceIndex => "slice indices must be integers or None or have an __index__ method"
  | .notARealNumber t => s!"must be real number, not {t.reported naming 50}"
  | .notAnInt base shown =>
    s!"invalid literal for int() with base {base}: {Text.cutTo 200 shown}"
  | .notAnIntArgument t =>
    "int() argument must be a string, a bytes-like object or a real number, not '" ++
      t.reported naming 200 ++ "'"
  | .baseOfNonText => "int() can't convert non-string with explicit base"
  | .baseOutOfRange => "int() base must be >= 2 and <= 36, or 0"
  | .notAFloat shown => s!"could not convert string to float: {shown}"
  | .notAFloatArgument t =>
    s!"float() argument must be a string or a real number, not '{t.reported naming 200}'"
  | .textDecoding .str => "decoding str is not supported"
  | .textDecoding t => s!"decoding to str: need a bytes-like object, {t.reported naming 80} found"
  | .argumentNamed f name expected t =>
    s!"{f}() argument '{name}' must be {expected}, not {argumentName naming t}"
  | .embeddedNull => "embedded null character"
  | .abstractType t =>
    s!"Can't instantiate abstract class {(naming t).name} with abstract method __call__"
  | .notCreated t => s!"cannot create '{t.reported naming 100}' instances"
  | .notAMapping t => s!"mappingproxy() argument must be a mapping, not {(naming t).name}"
  | .notATable t => s!"'{t.reported naming 200}' object is not a mapping"
  | .enumerationExtended shown t => s!"<enum {shown}> cannot extend {t.shown naming}"
  | .keysNotIterable t found =>
    t.reported naming 200 ++
      s!".keys() returned a non-iterable (type {found.reported naming 200})"
  | .typeArguments => "type() takes 1 or 3 arguments"
  | .notABase t => s!"type '{t.reported naming 100}' is not an acceptable base type"
  | .qualifiedNameNotText t => s!"type __qualname__ must be a str, not {(naming t).name}"
  | .initGave t => s!"__init__() should return None, not '{t.reported naming 200}'"
  | .basesOfTwoKinds =>
    "metaclass conflict: the metaclass of a derived class must be a (non-strict) subclass of " ++
      "the metaclasses of all its bases"
  | .basesKeptApart => "multiple bases have instance lay-out conflict"
  | .baseTwice t => s!"duplicate base class {(naming t).name}"
  | .basesWithoutOrder waiting =>
    "Cannot create a consistent method resolution\norder (MRO) for bases " ++
      ", ".intercalate (waiting.map fun t => (naming t).name)
  | .boundNotCallable => "first argument must be callable"
  | .boundToNothing => "instance must not be None"
  | .tooManyDigits given =>
    let digits := match given with
      | some n => s!": value has {n} digits"
      | none => ""
    s!"Exceeds the limit ({Number.digitLimit} digits) for integer string conversion{digits}; " ++
      "use sys.set_int_max_str_digits() to increase the limit"
  | .unboundMethod m => s!"unbound method {m}() needs an argument"
  | .pairExpected i => s!"cannot convert dictionary update sequence element #{i} to a sequence"
  | .pairLength i n => s!"dictionary update sequence element #{i} has length {n}; 2 is required"
  | .notAMember shown vocabulary => s!"{shown} is not a valid {vocabulary}"
  | .operandCount n symbol => s!"no {n}-operand operator '{symbol}'"
  | .notAnOperator shown => s!"not an operator: {shown}"
  | .fixedOperator symbol => s!"short-circuit operator {symbol} cannot be overridden"
  | .notALambda purpose t => s!"{purpose} a Lambda, got {(naming t).name}"
  | .replacement old t =>
    s!"parameter '{old}' must be replaced by a Parameter, got {(naming t).name}"
  | .lambdaParameter shown => s!"lambda parameters must be Parameter nodes, got {shown}"
  | .childCount className expected given =>
    s!"{className} takes {expected} children, got {given}"
  | .immutable className => s!"{className} nodes are immutable"
  | .nestedTooDeep doing => "maximum recursion depth exceeded " ++ doing

end Failure

end PredicateTree
