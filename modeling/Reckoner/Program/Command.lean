import Reckoner.Text.Basic

/-!
# Commands and flags

The commands of the program form a tree. Those that have commands below them only help with
these; the others do something with their arguments, of which they want a certain number.
-/

namespace Reckoner

namespace Program

/-- A command. -/
inductive Command where
  /-- The program itself, which only tells what there is. -/
  | root
  /-- The group of commands for the global context. -/
  | global
  /-- Shows all global variables. -/
  | list
  /-- Shows one global variable. -/
  | get
  /-- Sets one global variable. -/
  | set
  /-- Removes global variables. -/
  | clear
  /-- Shows the stored context whenever it changes. -/
  | watch
  /-- Applies an operator to two literals. -/
  | calculate
  /-- Calls a function with literals. -/
  | call
  /-- Lists the functions. -/
  | funcs
  /-- Shows the values of a file. -/
  | dump
  /-- Writes the values of a file in another mode. -/
  | convert
  /-- Shows how a command is used. -/
  | help
  /-- Writes a script for the shell. -/
  | completion
  deriving DecidableEq, Repr

namespace Command

/-- The word for a command, and for the root the name of the program. -/
def name : Command → Text
  | root => "expressions"
  | global => "global"
  | list => "list"
  | get => "get"
  | set => "set"
  | clear => "clear"
  | watch => "watch"
  | calculate => "calc"
  | call => "call"
  | funcs => "funcs"
  | dump => "dump"
  | convert => "convert"
  | help => "help"
  | completion => "completion"

/-- The commands below a command. -/
def children : Command → List Command
  | root => [global, calculate, call, funcs, dump, convert, help, completion]
  | global => [list, get, set, clear, watch]
  | _ => []

/-- The names from the root of the tree down to a command. -/
def path (c : Command) : Text :=
  if c = root then c.name
  else if children global |>.contains c then
    root.name ++ " " ++ global.name ++ " " ++ c.name
  else root.name ++ " " ++ c.name

end Command

/-- How many arguments a command wants. -/
inductive Arity where
  /-- Just so many. -/
  | exactly (n : Nat)
  /-- So many or more. -/
  | atLeast (n : Nat)
  | nothing
  | anything
  deriving DecidableEq, Repr

/-- How many arguments a command wants, if it does something. -/
def Command.arity? : Command → Option Arity
  | list | watch | funcs => some .nothing
  | get | dump => some (.exactly 1)
  | set | convert => some (.exactly 2)
  | calculate => some (.exactly 3)
  | call => some (.atLeast 1)
  | clear => some .anything
  | root | global | help | completion => none

/-- A flag. -/
inductive Flag where
  /-- Log everything. -/
  | verbose
  /-- Another configuration file. -/
  | config
  /-- The mode to convert to. -/
  | mode
  /-- Show how the command is used. -/
  | help
  deriving DecidableEq, Repr

namespace Flag

/-- The long form of a flag, without its dashes. -/
def name : Flag → Text
  | verbose => "verbose"
  | config => "config"
  | mode => "mode"
  | help => "help"

/-- The letter that a flag can be shortened to. -/
def letter? : Flag → Option UInt8
  | verbose => some (Text.byte 'v')
  | mode => some (Text.byte 'm')
  | help => some (Text.byte 'h')
  | config => none

/-- Whether a flag can stand without a value. -/
def isSwitch : Flag → Bool
  | verbose | help => true
  | config | mode => false

/-- A flag in messages. -/
def shown (f : Flag) : Text :=
  match f.letter? with
  | some b => "-" ++ [b] ++ ", --" ++ f.name
  | none => "--" ++ f.name

end Flag

/-- The flags of a command. -/
def Command.flags (c : Command) : List Flag :=
  [.verbose, .config, .help] ++ if c = .convert then [.mode] else []

/-- The flag of a command with a name. -/
def Command.flag? (c : Command) (name : Text) : Option Flag := c.flags.find? (·.name = name)

/-- The flag of a command with a letter. -/
def Command.letterFlag? (c : Command) (b : UInt8) : Option Flag :=
  c.flags.find? (·.letter? = some b)

end Program

end Reckoner
