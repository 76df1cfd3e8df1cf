import Reckoner.Value.Text

/-!
# Errors

Every way in which an operation of the library can fail, as a cause. The wording of the messages
stands in one place, `Error.message`; some errors have a second, longer text, `Error.detail`.

A `fault` is not an answer about the data: it reports that the caller broke a precondition, such
as setting a variable to no value.
-/

namespace Reckoner

/-- Why a file operation fails. -/
inductive FileFault where
  /-- Nothing stands at the path. -/
  | noEntry
  /-- A directory is used as a file. -/
  | isDirectory
  /-- A file is used as a directory. -/
  | notDirectory
  /-- Something stands where a directory is to be made. -/
  | alreadyExists
  /-- The path has a zero byte in it. -/
  | invalid
  /-- The path, or a name in it, is too long. -/
  | nameTooLong
  deriving DecidableEq, Repr

/-- What the system says about a refused file operation. -/
def FileFault.message : FileFault → Text
  | noEntry => "no such file or directory"
  | isDirectory => "is a directory"
  | notDirectory => "not a directory"
  | alreadyExists => "file exists"
  | invalid => "invalid argument"
  | nameTooLong => "file name too long"

/-- A cause of failure. -/
inductive Error where
  /-- An operator has no meaning for the types of its operands, whose texts are kept. -/
  | operands (op left right : Text) (leftText rightText : Text)
  /-- Sequences of different lengths are combined item by item. -/
  | lengths (op : Text) (left right : Nat)
  /-- Shapes do not fit an operation; there is no right one for an operation on one value. -/
  | shapes (op left : Text) (right : Option Text)
  /-- An argument, counted from one, lies outside the domain of an operator or function. -/
  | outsideDomain (x : Option Value) (arg : Nat) (func : Text)
  /-- A matrix has no inverse. -/
  | singular (rows : Nat)
  /-- A call has too few or too many arguments; no upper bound for variadic functions. -/
  | argumentCount (func : Text) (least : Nat) (most : Option Nat) (got : Nat) (usage : Text)
  /-- An argument has a type that its parameter does not allow. -/
  | argumentType (func : Text) (index : Nat) (expected : List Kind) (actual usage : Text)
  /-- An item has another kind than its array. -/
  | itemKind (want : Kind) (got : Text) (index : Nat)
  /-- No scope has a variable of the name. -/
  | undefinedName (name : Text)
  /-- There is no function of the name. -/
  | unknownFunction (name : Text)
  /-- An expression gave no value where one is needed. -/
  | noValue (expr : Text)
  /-- A context contains itself, through the named variable if the name is not empty. -/
  | cycle (name : Text)
  /-- No constructor is known for a tag. -/
  | unknownTag (tag : Text)
  /-- A tag did not exist yet in the version of the stream. -/
  | newerTag (tag : Text) (since version : Int)
  /-- A stream is malformed, at a line if that is known (not zero). -/
  | malformed (message : Text) (line : Nat) (cause : Option Error)
  /-- A thing of the named type cannot be written to a stream. -/
  | notStorable (type : Text)
  /-- A file operation failed on a path. -/
  | file (operation : Text) (path : Text) (reason : FileFault)
  /-- A finished file could not be moved to its place. -/
  | rename
  /-- Nothing has been stored under the name, or at all. -/
  | missing (name : Option Text)
  /-- There is no store for global variables. -/
  | noGlobal
  /-- The input ended inside of something. -/
  | unexpectedEnd
  /-- Compressed data is damaged at the offset. -/
  | corrupt (offset : Nat)
  /-- A failure that has only a text. -/
  | other (message : Text)
  /-- What failed while doing something, with the cause. -/
  | during (activity : Text) (cause : Error)
  /-- A broken precondition of the caller, with a text if it was noticed. -/
  | fault (message : Option Text)
  deriving Inhabited, Repr

namespace Error

/-- The text of a scalar value inside a message. -/
def scalarText (v : Value) : Text := v.toText fun _ => []

/-- The message of an error. -/
def message : Error → Text
  | operands op left right _ _ =>
    "unsupported operand types for " ++ op ++ ": " ++ left ++ " and " ++ right
  | lengths op left right =>
    "array lengths differ for " ++ op ++ ": " ++ Text.ofNat left ++ " and " ++ Text.ofNat right
  | shapes op left none => "invalid shape for " ++ op ++ ": " ++ left
  | shapes op left (some right) =>
    "mismatched shapes for " ++ op ++ ": " ++ left ++ " and " ++ right
  | outsideDomain x arg func =>
    (match x with
      | some v => scalarText v ++ " "
      | none => [])
      ++ "outside domain of " ++ func ++ " (argument " ++ Text.ofNat arg ++ ")"
  | singular rows => "singular " ++ Text.ofNat rows ++ "x" ++ Text.ofNat rows ++ " matrix"
  | argumentCount func least most got _ =>
    let want : Text := match most with
      | none => "at least " ++ Text.ofNat least
      | some most =>
        if least = most then Text.ofNat least
        else Text.ofNat least ++ " to " ++ Text.ofNat most
    "cannot call " ++ func ++ " with " ++ Text.ofNat got ++ " arguments, want " ++ want
  | argumentType func index expected actual _ =>
    "argument " ++ Text.ofNat index ++ " of " ++ func ++ " has type " ++ actual ++ ", want "
      ++ Kind.alternatives expected
  | itemKind want got index =>
    "array of " ++ want.name ++ " cannot hold " ++ got ++ " (item " ++ Text.ofNat index ++ ")"
  | undefinedName name => "undefined variable: " ++ Text.quote name
  | unknownFunction name => "unknown function: " ++ Text.quote name
  | noValue expr => "expression has no value: " ++ Text.clip expr
  | cycle name =>
    if name.isEmpty then "context contains itself"
    else "context contains itself through variable " ++ Text.quote name
  | unknownTag tag => "ie: unknown type tag " ++ Text.quote tag
  | newerTag tag since version =>
    "ie: tag " ++ Text.quote tag ++ " requires format version " ++ Text.ofInt since
      ++ ", stream has version " ++ Text.ofInt version
  | malformed msg _ none => "ie: malformed stream: " ++ msg
  | malformed msg _ (some cause) => "ie: malformed stream: " ++ msg ++ ": " ++ cause.message
  | notStorable type => "ie: cannot export value of type " ++ type
  | file operation path reason => operation ++ " " ++ path ++ ": " ++ reason.message
  | rename => "rename failed"
  | missing none => "file does not exist"
  | missing (some name) => "context " ++ Text.quote name ++ ": file does not exist"
  | noGlobal => "expressions: no global context"
  | unexpectedEnd => "unexpected EOF"
  | corrupt offset => "flate: corrupt input before offset " ++ Text.ofNat offset
  | other msg => msg
  | during activity cause => activity ++ ": " ++ cause.message
  | fault (some msg) => msg
  | fault none => []

/-- The longer explanation of an error or of its innermost cause that has one. -/
def detail : Error → Option Text
  | operands _ _ _ left right =>
    some ("left operand: " ++ Text.clip left ++ "\nright operand: " ++ Text.clip right)
  | argumentCount _ _ _ _ usage => some usage
  | argumentType _ _ _ _ usage => some usage
  | malformed _ line _ => some (if line = 0 then [] else "line " ++ Text.ofNat line)
  | during _ cause => cause.detail
  | _ => none

/-- Whether the error says that nothing has been stored yet. -/
def isMissing : Error → Bool
  | missing _ => true
  | file _ _ .noEntry => true
  | _ => false

end Error

/-- A stream error without a known position. -/
def malformed (message : Text) : Error := .malformed message 0 none

end Reckoner
