import Reckoner.Text.Basic

/-!
# Paths

A path is a text whose parts are divided by slashes. Here are the operations that look at the
text alone and not at any file.
-/

namespace Reckoner

namespace Path

/-- The byte between the parts of a path. -/
def slash : UInt8 := 47

/-- The part that stands for the directory it is read in. -/
def here : Text := "."

/-- The part that stands for the enclosing directory. -/
def up : Text := ".."

/-- Adds a part to a cleaned path, whose parts are given from the last to the first. -/
def push (rooted : Bool) (parts : List Text) (part : Text) : List Text :=
  if part.isEmpty || part = here then parts
  else if part = up then
    match parts with
    | last :: rest => if last = up then part :: parts else rest
    | [] => if rooted then [] else [part]
  else part :: parts

/-- The shortest path that means the same. -/
def clean (p : Text) : Text :=
  let rooted := p.head? = some slash
  let parts := (Text.splitAtByte slash p).foldl (push rooted) []
  let body := Text.join [slash] parts.reverse
  if rooted then slash :: body else if body.isEmpty then here else body

/-- All but the last part of a path. -/
def directory (p : Text) : Text :=
  clean (p.reverse.dropWhile (· ≠ slash)).reverse

/-- The path through several paths in turn; empty ones are left out. -/
def join (parts : List Text) : Text :=
  match parts.filter fun p => !p.isEmpty with
  | [] => []
  | parts => clean (Text.join [slash] parts)

/-- The path without slashes at its end. -/
def trimSlashes (p : Text) : Text := (p.reverse.dropWhile (· = slash)).reverse

/-- What stands in front of the last part, up to and with a slash. -/
def parentPart (p : Text) : Text := ((trimSlashes p).reverse.dropWhile (· ≠ slash)).reverse

end Path

end Reckoner
