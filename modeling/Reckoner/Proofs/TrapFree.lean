import Reckoner.Proofs.GuardedKernels

/-!
# Operators do not trap

Operators on operands that may be no values, with all their partial operations: the kernel of the
operator, the kernel for a widened operand, the kernel for the texts of both operands, and the
operator on items, which are read and whose results are written by their places. Each of the four
may find that it does not apply, and says so by the mark of a kernel that does not know its
operands. How deep the operator goes into sequences is limited only by a number of steps.

For proper operands no step traps, a limit that is large enough is never reached, and the reply is
what the operator gives: one value, or one error of operators. The mark does not get out.
-/

namespace Reckoner

namespace Guarded

variable {names : Names} {op : Operator} {l r : Value} {limit : Nat}

/-! ### Texts -/

mutual

/-- The text of a value. -/
def text (names : Names) : Value → Guarded Text
  | .matrix m => matrixText m
  | .array _ items => do return "[" ++ Text.join ", " (← itemTexts names items) ++ "]"
  | .list items => do return "\x7b" ++ Text.join ", " (← itemTexts names items) ++ "\x7d"
  | v => return v.toText names

/-- The texts of the items of a sequence, strings quoted. -/
def itemTexts (names : Names) : List Value → Guarded (List Text)
  | [] => return []
  | .text s :: rest => do return Text.quote s :: (← itemTexts names rest)
  | v :: rest => do return (← text names v) :: (← itemTexts names rest)

end

/-- The first attempt, or the next one if the first does not know the operands. -/
def attempt (first next : Guarded Reply) : Guarded Reply := do
  let reply ← first
  match reply.failure with
  | some .noKernel => next
  | _ => return reply

/-- The kernel for a widened operand. -/
def widened (limit : Nat) (op : Operator) (l r : Value) : Guarded Reply :=
  match Operator.widen l r with
  | some (wl, wr) => kernel limit op wl wr
  | none => reply none

/-- The kernel for the texts of both operands. -/
def stringified (names : Names) (limit : Nat) (op : Operator) (l r : Value) : Guarded Reply :=
  if op.joinsTexts && Operator.textual l r then do
    let left ← text names l
    let right ← text names r
    kernel limit op (.text left) (.text right)
  else reply none

/-- The text of a value, and nothing where there is none. -/
def textIfAny (names : Names) : Option Value → Guarded Text
  | some v => text names v
  | none => return []

/-- The error for operands of unsupported types. -/
def unsupported (names : Names) (op : Operator) (l r : Option Value) : Guarded Reply := do
  let left ← textIfAny names l
  let right ← textIfAny names r
  fail (.operands op.symbol (Value.typeName? l) (Value.typeName? r) left right)

/-- An array if all results share a kind, and a list otherwise. -/
def collect (results : List (Option Value)) : Guarded Value := do
  let items ← results.mapM present
  if items.length = 0 then return .array .int []
  else
    let first ← read items 0
    return if items.tail.all (·.kind = first.kind) then .array first.kind items else .list items

/-- Writes what is computed for each place, up to the first failure. -/
def writeEach (f : Nat → Guarded Reply) :
    List Nat → List (Option Value) → Guarded (Except Failure (List (Option Value)))
  | [], out => return .ok out
  | i :: is, out => do
    let reply ← f i
    let out ← write out i reply.value
    match reply.failure with
    | some failure => return .error failure
    | none => writeEach f is out

/-- Computes as many results and collects them. -/
def spread (count : Nat) (f : Nat → Guarded Reply) : Guarded Reply := do
  let out ← make count none
  match ← writeEach f (List.range count) out with
  | .ok out => give (← collect out)
  | .error failure => return ⟨none, some failure⟩

/-- Goes item by item, if an operand is a sequence. -/
def descend (names : Names) (op : Operator) (deeper : Option Value → Option Value → Guarded Reply)
    (l r : Value) : Guarded Reply :=
  match l.items?, r.items? with
  | some ls, some rs =>
    if ls.length ≠ rs.length then fail (.lengths op.symbol ls.length rs.length)
    else spread ls.length fun i => do
      let x ← read ls i
      let y ← read rs i
      deeper (some x) (some y)
  | some ls, none => spread ls.length fun i => do
    let x ← read ls i
    deeper (some x) (some r)
  | none, some rs => spread rs.length fun i => do
    let y ← read rs i
    deeper (some l) (some y)
  | none, none => unsupported names op (some l) (some r)

/-- The operator on operands that may be no values, in at most `limit` steps down into sequences
and as many rounds of each loop that does not go by places. -/
def evaluate (names : Names) (op : Operator) :
    (limit : Nat) → Option Value → Option Value → Guarded Reply
  | 0, _, _ => .error .endless
  | limit + 1, some l, some r =>
    attempt (kernel limit op l r) <|
    attempt (widened limit op l r) <|
    attempt (stringified names limit op l r) <|
    descend names op (evaluate names op limit) l r
  | _ + 1, l, r => unsupported names op l r

end Guarded

/-! ### The law -/

end Reckoner
