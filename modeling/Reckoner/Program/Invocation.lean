import Reckoner.Number.Numeral
import Reckoner.Program.Command
import Reckoner.Text.Case
import Reckoner.Text.Distance

/-!
# Invocations

How the words of a command line are read: the command that they name, the flags, which can stand
anywhere in front of two dashes, and the arguments. What follows a flag that wants a value is
never taken for a command, nor is anything that starts with a dash.
-/

namespace Reckoner

namespace Program

/-- Why a command line is refused. -/
inductive Refusal where
  /-- There is no such command; the names of some like it are given. -/
  | unknownCommand (name : Text) (similar : List Text)
  /-- A command without arguments has one. -/
  | unexpected (arg : Text) (command : Command)
  /-- A command has not just the arguments that it wants. -/
  | argumentCount (want got : Nat)
  /-- A command has fewer arguments than it wants. -/
  | tooFewArguments (least got : Nat)
  /-- A flag has neither name nor letter. -/
  | badFlag (word : Text)
  /-- There is no flag of the name. -/
  | unknownFlag (name : Text)
  /-- There is no flag with the first of these letters. -/
  | unknownLetter (letter : UInt8) (letters : Text)
  /-- The value of a flag is missing at the end of the line. -/
  | missingValue (flag : Flag)
  /-- So is that of a flag given by its letter. -/
  | missingLetterValue (letter : UInt8) (letters : Text)
  /-- The value is none that the flag takes. -/
  | badValue (value : Text) (flag : Flag) (fault : NumeralFault)
  deriving DecidableEq, Repr

/-- A letter between single quotes. A byte counts as the character with its number. -/
def quoteLetter (b : UInt8) : Text :=
  let shown :=
    if b = Text.byte '\'' then Text.ofString "\\'"
    else if b = Text.byte '"' then [b]
    else Text.quoteRune (.char b.toNat)
  "'" ++ shown ++ "'"

/-- The lines that name similar commands, if there are any. -/
def suggestions (similar : List Text) : Text :=
  let line (name : Text) : Text := "\t" ++ name ++ "\n"
  if similar.isEmpty then [] else "\n\nDid you mean this?\n" ++ similar.flatMap line

/-- What the user is told about a refused command line. -/
def Refusal.message : Refusal → Text
  | unknownCommand name similar =>
    "unknown command " ++ Text.quote name ++ " for " ++ Text.quote Command.root.path
      ++ suggestions similar
  | unexpected arg command =>
    "unknown command " ++ Text.quote arg ++ " for " ++ Text.quote command.path
  | argumentCount want got =>
    "accepts " ++ Text.ofNat want ++ " arg(s), received " ++ Text.ofNat got
  | tooFewArguments least got =>
    "requires at least " ++ Text.ofNat least ++ " arg(s), only received " ++ Text.ofNat got
  | badFlag word => "bad flag syntax: " ++ word
  | unknownFlag name => "unknown flag: --" ++ name
  | unknownLetter letter letters =>
    "unknown shorthand flag: " ++ quoteLetter letter ++ " in -" ++ letters
  | missingValue flag => "flag needs an argument: --" ++ flag.name
  | missingLetterValue letter letters =>
    "flag needs an argument: " ++ quoteLetter letter ++ " in -" ++ letters
  | badValue value flag fault =>
    "invalid argument " ++ Text.quote value ++ " for " ++ Text.quote flag.shown ++ " flag: "
      ++ fault.message "strconv.ParseBool" value

/-! ### Commands -/

/-- The byte that flags start with. -/
def dash : UInt8 := Text.byte '-'

/-- The word behind which there are no flags. -/
def flagsEnd : Text := [dash, dash]

/-- Whether a word is a flag that takes the next word as its value. -/
def takesNext (c : Command) (word : Text) : Bool :=
  !word.contains (Text.byte '=')
    && match word with
      | [a, b] => a = dash && !(c.letterFlag? b).any (·.isSwitch)
      | a :: b :: name => a = dash && b = dash && !(c.flag? name).any (·.isSwitch)
      | _ => false

/-- The words that are neither flags nor their values. -/
def plainWords (c : Command) : List Text → List Text
  | [] => []
  | word :: rest =>
    if word = flagsEnd then []
    else if takesNext c word then
      match rest with
      | _ :: next :: more => plainWords c (next :: more)
      | _ => []
    else if word.isEmpty || word.head? = some dash then plainWords c rest
    else word :: plainWords c rest

/-- The words without the first that is `name` and neither a flag nor the value of one. -/
def removeWord (c : Command) (name : Text) : List Text → List Text
  | [] => []
  | word :: rest =>
    if word = flagsEnd then word :: rest
    else if takesNext c word then
      match rest with
      | value :: more => word :: value :: removeWord c name more
      | [] => [word]
    else if word.head? ≠ some dash && word = name then rest
    else word :: removeWord c name rest

/-- Goes down the tree of commands from `c`, at most `fuel` levels, and gives the words that are
left. -/
def findCommand : (fuel : Nat) → (c : Command) → List Text → Command × List Text
  | 0, c, words => (c, words)
  | fuel + 1, c, words =>
    match plainWords c words with
    | [] => (c, words)
    | name :: _ =>
      match c.children.find? (·.name = name) with
      | some child => findCommand fuel child (removeWord c name words)
      | none => (c, words)

/-- How far a name may be from that of a similar command. -/
def similarDistance : Nat := 2

/-- The names of commands that are like a name: few changes away from it, or starting with it. -/
def similarCommands (name : Text) : List Text :=
  let typed := Text.lower name
  let isSimilar (c : Command) : Bool :=
    c ≠ .help && (Text.distance typed c.name ≤ similarDistance || typed.isPrefixOf c.name)
  (Command.root.children.filter isSimilar).map (·.name)

/-! ### Flags -/

/-- The values of the flags. -/
structure Options where
  /-- Log everything. -/
  verbose : Bool := false
  /-- The file that the configuration is in. -/
  config : Text
  /-- The name of the mode that a file is converted to. -/
  mode : Text := "compressed"
  /-- Show how the command is used, and do nothing else. -/
  help : Bool := false

/-- Sets a flag. -/
def Options.set (o : Options) (f : Flag) (value : Text) : Except Refusal Options :=
  let switch (use : Bool → Options) : Except Refusal Options :=
    match Numeral.bool? value with
    | .ok b => .ok (use b)
    | .error e => .error (.badValue value f e)
  match f with
  | .verbose => switch fun verbose => { o with verbose }
  | .help => switch fun help => { o with help }
  | .config => .ok { o with config := value }
  | .mode => .ok { o with mode := value }

/-- What a switch without a value is set to. -/
def switchedOn : Text := "true"

/-- Sets the flags of some letters. A last one that wants the next word as its value is given
back. -/
def setLetters (c : Command) : Text → Options → Except Refusal (Options × Option (Flag × UInt8))
  | [], o => .ok (o, none)
  | b :: rest, o =>
    match c.letterFlag? b with
    | none => .error (.unknownLetter b (b :: rest))
    | some f =>
      match rest with
      | e :: v :: value =>
        if e = Text.byte '=' then do return (← o.set f (v :: value), none)
        else if f.isSwitch then do setLetters c (e :: v :: value) (← o.set f switchedOn)
        else do return (← o.set f (e :: v :: value), none)
      | rest =>
        if f.isSwitch then do setLetters c rest (← o.set f switchedOn)
        else if rest.isEmpty then .ok (o, some (f, b))
        else do return (← o.set f rest, none)

/-- The flag of a word with two dashes, and its value unless that is the next word. -/
def longFlag (c : Command) (word : Text) : Except Refusal (Flag × Option Text) :=
  let body := word.drop 2
  if body.head?.any fun b => b = dash || b = Text.byte '=' then .error (.badFlag word)
  else
    let name := body.takeWhile (· ≠ Text.byte '=')
    match c.flag? name with
    | none => .error (.unknownFlag name)
    | some f =>
      if name.length < body.length then .ok (f, some (body.drop (name.length + 1)))
      else .ok (f, if f.isSwitch then some switchedOn else none)

/-- Reads flags and arguments. -/
def readWords (c : Command) : List Text → Options → (args : List Text) →
    Except Refusal (Options × List Text)
  | [], o, args => .ok (o, args)
  | word :: rest, o, args =>
    match word with
    | a :: b :: letters =>
      if a ≠ dash then readWords c rest o (args ++ [word])
      else if word = flagsEnd then .ok (o, args ++ rest)
      else if b = dash then
        match longFlag c word with
        | .error e => .error e
        | .ok (f, some value) => do readWords c rest (← o.set f value) args
        | .ok (f, none) =>
          match rest with
          | value :: rest => do readWords c rest (← o.set f value) args
          | [] => .error (.missingValue f)
      else
        match setLetters c (b :: letters) o with
        | .error e => .error e
        | .ok (o, none) => readWords c rest o args
        | .ok (o, some (f, letter)) =>
          match rest with
          | value :: rest => do readWords c rest (← o.set f value) args
          | [] => .error (.missingLetterValue letter [letter])
    | _ => readWords c rest o (args ++ [word])

/-- Checks the number of arguments. -/
def checkArity (c : Command) (args : List Text) : Arity → Except Refusal Unit
  | .exactly n => if args.length = n then .ok () else .error (.argumentCount n args.length)
  | .atLeast n => if n ≤ args.length then .ok () else .error (.tooFewArguments n args.length)
  | .nothing =>
    match args with
    | [] => .ok ()
    | arg :: _ => .error (.unexpected arg c)
  | .anything => .ok ()

/-! ### Command lines -/

/-- What a command line asks for. -/
inductive Invocation where
  /-- A description of a command. -/
  | help (c : Command)
  /-- A command is carried out. -/
  | run (c : Command) (options : Options) (args : List Text)

/-- Reads a command line; `config` is the path of the configuration unless a flag gives another
one. -/
def Invocation.read (config : Text) (words : List Text) : Except Refusal Invocation := do
  let (c, words) := findCommand 3 .root words
  if c = .root then
    match plainWords c words with
    | name :: _ => throw (.unknownCommand name (similarCommands name))
    | [] => pure ()
  let (options, args) ← readWords c words { config } []
  match c.arity? with
  | none => return .help c
  | some arity =>
    if options.help then return .help c
    checkArity c args arity
    return .run c options args

end Program

end Reckoner
