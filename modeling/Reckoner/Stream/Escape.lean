import Reckoner.Stream.Mode

/-!
# Escaped tokens

A token of a text stream holds only printable bytes, and no tab or line break. `escape` writes
any text as such a token, `unescape` reads exactly the tokens made of plain bytes and escapes.
-/

namespace Reckoner

namespace Token

/-- How one byte is written. -/
def escapeByte (b : UInt8) : Text :=
  if b = 92 then [92, 92]
  else if b = 10 then [92, 110]
  else if b = 13 then [92, 114]
  else if b = 9 then [92, 116]
  else if printable b then [b]
  else [92, 120, Text.hexDigit (b.toNat / 16), Text.hexDigit (b.toNat % 16)]

/-- The text as a token. -/
def escape (t : Text) : Text := t.flatMap escapeByte

/-- Why a token is refused. -/
inductive Fault where
  /-- It ends with a backslash. -/
  | trailing
  /-- It ends inside of a numeric escape. -/
  | short
  /-- A numeric escape has no two hexadecimal digits. -/
  | badDigits (found : Text)
  /-- A backslash is followed by an unknown letter. -/
  | unknown (found : Text)
  deriving DecidableEq, Repr

/-- What is said about an escape sequence that cannot be read. -/
def Fault.message : Fault → Text
  | trailing => "trailing backslash"
  | short => "short \\x escape"
  | badDigits found => "bad \\x escape " ++ Text.quote found
  | unknown found => "unknown escape " ++ Text.quote found

/-- The text of a token. -/
def unescape : Text → Except Fault Text
  | [] => .ok []
  | 92 :: [] => .error .trailing
  | 92 :: 92 :: rest => (unescape rest).map (92 :: ·)
  | 92 :: 110 :: rest => (unescape rest).map (10 :: ·)
  | 92 :: 114 :: rest => (unescape rest).map (13 :: ·)
  | 92 :: 116 :: rest => (unescape rest).map (9 :: ·)
  | 92 :: 120 :: a :: b :: rest =>
    match Text.hexValue? a, Text.hexValue? b with
    | some x, some y => (unescape rest).map ((16 * x + y).toUInt8 :: ·)
    | _, _ => .error (.badDigits [92, 120, a, b])
  | 92 :: 120 :: _ => .error .short
  | 92 :: b :: _ => .error (.unknown [92, b])
  | b :: rest => (unescape rest).map (b :: ·)

end Token

end Reckoner
