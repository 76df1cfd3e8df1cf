import Reckoner.Program.Action

/-!
# The program

A run of the program: the command line is read, then the configuration, and then the command is
carried out. Everything that a run does is in its outcome.
-/

namespace Reckoner

/-- What a run of the program leaves behind. -/
structure Outcome where
  /-- The output. -/
  out : Text := []
  /-- The messages about errors. -/
  err : Text := []
  /-- Whether there was no error. -/
  ok : Bool
  /-- What is stored after the run. -/
  storage : Storage

namespace Program

/-- The line for an error message. -/
def errorLine (message : Text) : Text := "Error: " ++ message ++ "\n"

/-- The line behind the message on an unknown command. -/
def helpHint (c : Command) : Text := "Run '" ++ c.path ++ " --help' for usage.\n"

/-- What is said about a refused command line. -/
def refusalText (r : Refusal) : Text :=
  errorLine r.message ++
    match r with
    | .unknownCommand _ _ => helpHint .root
    | _ => []

/-- The detail of an error itself, not of its cause. -/
def ownDetail : Error → Text
  | .during _ _ => []
  | e => e.detail.getD []

/-- What is said about an error of a command. A failed conversion is reported without detail. -/
def errorText (c : Command) (e : Error) : Text :=
  let detail := if c = .convert then [] else ownDetail e
  let explanation : Text := if detail.isEmpty then [] else detail ++ "\n"
  explanation ++ errorLine e.message

/-- The checked configuration. -/
def configure (disk : Disk) (vars : Variables) (path : Text) : Except Error Config := do
  let c ← Config.load disk vars path
  c.validate
  c.checkLogLevel
  return c

/-- Carries out a command on a storage. -/
def execute (vars : Variables) (storage : Storage) (c : Command) (options : Options)
    (args : List Text) : Outcome :=
  match configure storage.disk vars options.config with
  | .error e => { err := errorLine e.message, ok := false, storage }
  | .ok config =>
    let (r, w) := (perform config options c args).exec { storage, out := some {} }
    let out := (w.out.map (·.written)).getD []
    match r with
    | .ok _ => { out, ok := true, storage := w.storage }
    | .error e => { out, err := errorText c e, ok := false, storage := w.storage }

/-- Runs the program with the words of a command line. -/
def run (vars : Variables) (storage : Storage) (words : List Text) : Outcome :=
  match Invocation.read (Config.defaultPath vars) words with
  | .error r => { err := refusalText r, ok := false, storage }
  | .ok (.help _) => { ok := true, storage }
  | .ok (.run c options args) => execute vars storage c options args

end Program

end Reckoner
