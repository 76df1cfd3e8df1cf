import Reckoner.Text.Printable
import Reckoner.Text.Utf8

/-!
# Quoted texts

A quoted text stands between double quotes. Printable characters stand for themselves, a quote
and a backslash follow a backslash, and everything else is an escape: the short ones for the
usual control characters, `\x` with two digits for other control characters and stray bytes,
`\u` and `\U` with four and eight digits for the remaining characters.
-/

namespace Reckoner

namespace Text

/-- The letter of the short escape of a control character. -/
def shortEscape? (code : Nat) : Option Char :=
  match code with
  | 7 => some 'a'
  | 8 => some 'b'
  | 9 => some 't'
  | 10 => some 'n'
  | 11 => some 'v'
  | 12 => some 'f'
  | 13 => some 'r'
  | _ => none

/-- How one unit is written between the quotes. -/
def quoteRune : Rune → Text
  | .stray b => "\\x" ++ ofHex 2 b.toNat
  | .char code =>
    if code = 34 || code = 92 then [92, code.toUInt8]
    else if isPrintable code then encode code
    else match shortEscape? code with
      | some c => [92, byte c]
      | none =>
        if code < 0x20 || code = 0x7f then "\\x" ++ ofHex 2 code
        else if code < 0x10000 then "\\u" ++ ofHex 4 code
        else "\\U" ++ ofHex 8 code

/-- The text between double quotes, with escapes. -/
def quote (t : Text) : Text := "\"" ++ (runes t).flatMap quoteRune ++ "\""

end Text

end Reckoner
