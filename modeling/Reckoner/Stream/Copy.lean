import Reckoner.Stream.Reader

/-!
# Copying streams

Writing all values of one stream into another, maybe of a different mode. Copying stops at the
first value that cannot be read or written; what has been written before stays.
-/

namespace Reckoner

/-- How far copying got. -/
structure Copy where
  /-- How many values were copied. -/
  count : Nat
  /-- Why copying ended before the end of the stream. -/
  failure : Option Error
  /-- The target with what was copied, not finished yet. -/
  writer : Writer

namespace Copy

/-- Copies up to `fuel` values, after `count` others. -/
def run : (fuel : Nat) → Reader → Heap → Writer → (count : Nat) → Copy
  | 0, _, _, w, count => ⟨count, none, w⟩
  | fuel + 1, r, h, w, count =>
    match r.nextValue h with
    | (.error e, _, _) => ⟨count, some e, w⟩
    | (.ok none, _, _) => ⟨count, none, w⟩
    | (.ok (some v), r, h) =>
      match w.putValue h (some v) with
      | (w, .error e) => ⟨count, some e, w⟩
      | (w, .ok _) => run fuel r h w (count + 1)

/-- Copies all values that are left in a stream. Each of them takes at least one byte. -/
def all (r : Reader) (w : Writer) : Copy := run (r.decoder.size + 1) r {} w 0

/-- The finished stream. -/
def finish (c : Copy) : Text := c.writer.finish

end Copy

end Reckoner
