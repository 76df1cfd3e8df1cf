import Reckoner.Error

/-!
# Deflated data

`store` wraps bytes as deflated data without compressing them, in blocks of limited length.
`inflate` reads deflated data of any kind. It never fails outright: it gives the bytes it could
recover, and how the data ended, cleanly or with an error at an offset of the input. Bits are
taken from the input one byte at a time and only when a code needs them, because that decides
the offsets.
-/

namespace Reckoner

namespace Deflate

/-! ### Writing -/

/-- The low two bytes of a number, the low one first. -/
def lowBytes (n : Nat) : Text := [(n % 256).toUInt8, (n / 256 % 256).toUInt8]

/-- A block of bytes as they are. -/
def storedBlock (final : Bool) (t : Text) : Text :=
  (if final then 1 else 0) :: lowBytes t.length ++ lowBytes (65535 - t.length) ++ t

/-- Blocks for a text of at most `blocks` times the greatest block length. -/
def storeBlocks : (blocks : Nat) → Text → Text
  | 0, t => storedBlock true t
  | blocks + 1, t =>
    if t.length ≤ 65535 then storedBlock true t
    else storedBlock false (t.take 65535) ++ storeBlocks blocks (t.drop 65535)

/-- Deflated data that holds the text. -/
def store (t : Text) : Text := storeBlocks (t.length / 65535 + 1) t

/-! ### Reading -/

/-- The input: bytes not yet read, how many have been, and bits read but not used, the next one
lowest. -/
structure Input where
  /-- The bytes not yet read. -/
  rest : Text
  /-- How many bytes have been read. -/
  offset : Nat := 0
  /-- The bits read but not used, the next one lowest. -/
  bits : Nat := 0
  /-- How many such bits there are. -/
  count : Nat := 0

/-- Reads bytes until there are `n` bits; `fuel` bounds the number of bytes. -/
def fill (n : Nat) : (fuel : Nat) → Input → Except Error Input
  | 0, inp => .ok inp
  | fuel + 1, inp =>
    if n ≤ inp.count then .ok inp
    else match inp.rest with
      | [] => .error .unexpectedEnd
      | b :: rest =>
        fill n fuel
          ⟨rest, inp.offset + 1, inp.bits + b.toNat * Nat.pow 2 inp.count, inp.count + 8⟩

/-- Takes `n` bits as a number. -/
def takeBits (n : Nat) (inp : Input) : Except Error (Nat × Input) := do
  let inp ← fill n 4 inp
  return (inp.bits % Nat.pow 2 n,
    { inp with bits := inp.bits / Nat.pow 2 n, count := inp.count - n })

/-- A prefix code: how many codes of each length there are, and the symbols in the order of
their codes. -/
structure Code where
  /-- The number of bits read before the first look at the code. -/
  least : Nat
  /-- How many words there are of each length, from zero on. -/
  counts : List Nat
  /-- The symbols, ordered by the lengths of their words and then by their numbers. -/
  symbols : Array Nat

/-- The number of codes of each length from 1 to 15. -/
def countLengths (lengths : List Nat) : List Nat :=
  (List.range 15).map fun k => lengths.countP (· == k + 1)

/-- The symbols in the order of their codes. -/
def orderSymbols (lengths : List Nat) : List Nat :=
  (List.range 15).flatMap fun k =>
    lengths.zipIdx.filterMap fun (l, s) => if l = k + 1 then some s else none

/-- The prefix code with the given lengths; none if the lengths leave codes unused or use some
twice. A code of a single symbol of one bit and a code without symbols are allowed. -/
def Code.ofLengths? (lengths : List Nat) : Option Code :=
  let counts := countLengths lengths
  let used := lengths.filter (0 < ·)
  let least := used.foldl min 15
  let most := used.foldl max 0
  if most = 0 then some ⟨0, counts, #[]⟩
  else
    let total := (List.range most).foldl (fun n k => 2 * n + (counts[k]?.getD 0)) 0
    if total = Nat.pow 2 most || (total = 1 && most = 1) then
      some ⟨least, counts, (orderSymbols lengths).toArray⟩
    else none

/-- The symbol whose code the bits start with, and its length. The bits beyond those already
read are taken as zero. -/
def Code.match? (symbols : Array Nat) :
    (counts : List Nat) → (length bits code first index : Nat) → Option (Nat × Nat)
  | [], _, _, _, _, _ => none
  | n :: counts, length, bits, code, first, index =>
    let code := 2 * code + bits % 2
    let first := 2 * first
    if code < first + n then (symbols[index + (code - first)]?).map fun s => (s, length + 1)
    else match? symbols counts (length + 1) (bits / 2) code (first + n) (index + n)

/-- Reads one symbol, taking more bits as long as the code that matches is longer than what has
been read. -/
def readSymbol (code : Code) : (fuel want : Nat) → Input → Except Error (Nat × Input)
  | 0, _, inp => .error (.corrupt inp.offset)
  | fuel + 1, want, inp => do
    let inp ← fill want 4 inp
    match Code.match? code.symbols code.counts 0 inp.bits 0 0 0 with
    | none => .error (.corrupt inp.offset)
    | some (symbol, length) =>
      if length ≤ inp.count then
        return (symbol,
          { inp with bits := inp.bits / Nat.pow 2 length, count := inp.count - length })
      else readSymbol code fuel length inp

/-- Reads one symbol of a code, whose words have at most 15 bits. -/
def symbol (code : Code) (inp : Input) : Except Error (Nat × Input) :=
  readSymbol code 16 code.least inp

/-- The order in which the lengths of the code for lengths are given. -/
def lengthOrder : List Nat := [16, 17, 18, 0, 8, 7, 9, 6, 10, 5, 11, 4, 12, 3, 13, 2, 14, 1, 15]

/-- Reads `n` lengths of three bits. -/
def readShort : (n : Nat) → Input → Except Error (List Nat × Input)
  | 0, inp => .ok ([], inp)
  | n + 1, inp => do
    let (l, inp) ← takeBits 3 inp
    let (ls, inp) ← readShort n inp
    return (l :: ls, inp)

/-- Reads code lengths until there are `n`, the latest first; repetitions count as many. -/
def readLengths (code : Code) (n : Nat) :
    (fuel : Nat) → (soFar : List Nat) → Input → Except Error (List Nat × Input)
  | 0, _, inp => .error (.corrupt inp.offset)
  | fuel + 1, soFar, inp =>
    if n ≤ soFar.length then .ok (soFar, inp)
    else do
      let (x, inp) ← symbol code inp
      if x < 16 then readLengths code n fuel (x :: soFar) inp
      else
        let (least, bits, value) : Nat × Nat × Option Nat :=
          if x = 16 then (3, 2, soFar.head?)
          else if x = 17 then (3, 3, some 0) else (11, 7, some 0)
        match value with
        | none => .error (.corrupt inp.offset)
        | some v =>
          let (extra, inp) ← takeBits bits inp
          let times := least + extra
          if n < soFar.length + times then .error (.corrupt inp.offset)
          else readLengths code n fuel (List.replicate times v ++ soFar) inp

/-- Reads the codes of a block that brings its own. Every block ends with the symbol 256, so at
least the length of its word is read at once. -/
def readCodes (inp : Input) : Except Error ((Code × Code) × Input) := do
  let inp ← fill 14 4 inp
  let literals := inp.bits % 32 + 257
  let distances := inp.bits / 32 % 32 + 1
  if 286 < literals || 30 < distances then throw (.corrupt inp.offset)
  let lengths := inp.bits / 1024 % 16 + 4
  let inp := { inp with bits := inp.bits / Nat.pow 2 14, count := inp.count - 14 }
  let (short, inp) ← readShort lengths inp
  let given := lengthOrder.zip short
  let table := (List.range 19).map fun s => (given.lookup s).getD 0
  let some code := Code.ofLengths? table | throw (.corrupt inp.offset)
  let (found, inp) ← readLengths code (literals + distances) (literals + distances + 1) [] inp
  let all := found.reverse
  let literalLengths := all.take literals
  let some lit := Code.ofLengths? literalLengths | throw (.corrupt inp.offset)
  let some dist := Code.ofLengths? (all.drop literals) | throw (.corrupt inp.offset)
  let lit := { lit with least := max lit.least (literalLengths[256]?.getD 0) }
  return ((lit, dist), inp)

/-- The code for literals of a block without codes of its own. -/
def fixedLiterals : Code :=
  let lengths := List.replicate 144 8 ++ List.replicate 112 9 ++ List.replicate 24 7
    ++ List.replicate 8 8
  (Code.ofLengths? lengths).getD ⟨0, [], #[]⟩

/-- The length that a symbol from 257 to 285 starts, and the number of further bits. -/
def lengthOf? (v : Nat) : Option (Nat × Nat) :=
  if v < 265 then some (v - 254, 0)
  else if v < 269 then some (v * 2 - 519, 1)
  else if v < 273 then some (v * 4 - 1057, 2)
  else if v < 277 then some (v * 8 - 2149, 3)
  else if v < 281 then some (v * 16 - 4365, 4)
  else if v < 285 then some (v * 32 - 8861, 5)
  else if v < 286 then some (258, 0)
  else none

/-- Reads a distance, given its code or none for five bits, highest first. -/
def readDistance (code : Option Code) (inp : Input) : Except Error (Nat × Input) := do
  let (d, inp) ← match code with
    | some code => symbol code inp
    | none => do
      let (d, inp) ← takeBits 5 inp
      let reversed := (List.range 5).foldl (fun r k => 2 * r + d / Nat.pow 2 k % 2) 0
      pure (reversed, inp)
  if d < 4 then return (d + 1, inp)
  else if d < 30 then
    let bits := (d - 2) / 2
    let (extra, inp) ← takeBits bits inp
    return (Nat.pow 2 (bits + 1) + 1 + (d % 2) * Nat.pow 2 bits + extra, inp)
  else throw (.corrupt inp.offset)

/-- Repeats the bytes from `distance` back, one by one, so that the copy may overlap. -/
def copyBack (distance : Nat) : (n : Nat) → Array UInt8 → Array UInt8
  | 0, out => out
  | n + 1, out => copyBack distance n (out.push (out[out.size - distance]?.getD 0))

/-- Where in a stream of blocks the reader is. -/
inductive Phase where
  /-- Before a block. -/
  | block
  /-- Inside a block with codes for literals and distances. -/
  | symbols (final : Bool) (lit : Code) (dist : Option Code)
  /-- After the last block. -/
  | done

/-- One step: the start of a block, or one symbol. -/
def step (phase : Phase) (inp : Input) (out : Array UInt8) :
    Array UInt8 × Except Error (Phase × Input) :=
  match phase with
  | .done => (out, .ok (.done, inp))
  | .block =>
    match takeBits 3 inp with
    | .error e => (out, .error e)
    | .ok (head, inp) =>
      let final := head % 2 = 1
      let next : Phase := if final then .done else .block
      if head / 2 = 0 then
        match inp.rest with
        | a :: b :: c :: d :: rest =>
          let offset := inp.offset + 4
          let n := a.toNat + 256 * b.toNat
          if c.toNat + 256 * d.toNat ≠ 65535 - n then (out, .error (.corrupt offset))
          else if rest.length < n then (out ++ rest.toArray, .error .unexpectedEnd)
          else (out ++ (rest.take n).toArray, .ok (next, ⟨rest.drop n, offset, 0, 0⟩))
        | _ => (out, .error .unexpectedEnd)
      else if head / 2 = 1 then (out, .ok (.symbols final fixedLiterals none, inp))
      else if head / 2 = 2 then
        match readCodes inp with
        | .error e => (out, .error e)
        | .ok ((lit, dist), inp) => (out, .ok (.symbols final lit (some dist), inp))
      else (out, .error (.corrupt inp.offset))
  | .symbols final lit dist =>
    match symbol lit inp with
    | .error e => (out, .error e)
    | .ok (v, inp) =>
      if v < 256 then (out.push v.toUInt8, .ok (phase, inp))
      else if v = 256 then (out, .ok (if final then .done else .block, inp))
      else
        let reference : Except Error (Nat × Nat × Input) := do
          let some (base, bits) := lengthOf? v | throw (.corrupt inp.offset)
          let (extra, inp) ← takeBits bits inp
          let (distance, inp) ← readDistance dist inp
          if min out.size 32768 < distance then throw (.corrupt inp.offset)
          return (base + extra, distance, inp)
        match reference with
        | .error e => (out, .error e)
        | .ok (n, distance, inp) => (copyBack distance n out, .ok (phase, inp))

/-- Takes steps until the data ends. Each step uses up at least one bit. -/
def run : (fuel : Nat) → Phase → Input → Array UInt8 → Array UInt8 × Option Error
  | 0, _, _, out => (out, none)
  | fuel + 1, phase, inp, out =>
    match phase with
    | .done => (out, none)
    | phase =>
      match step phase inp out with
      | (out, .error e) => (out, some e)
      | (out, .ok (phase, inp)) => run fuel phase inp out

/-- The bytes of deflated data, and the error that ends them, if any. -/
def inflate (t : Text) : Text × Option Error :=
  let (out, e) := run (8 * t.length + 1) .block ⟨t, 0, 0, 0⟩ #[]
  (out.toList, e)

end Deflate

end Reckoner
