import Reckoner.Log
import Reckoner.Operator.Basic
import Reckoner.Operator.Collection
import Reckoner.Operator.Comparison
import Reckoner.Value.Sequence

/-!
# Applying operators

An operator finds its computation for a pair of operands in four steps, the first that applies:

1. the kernel for exactly these types;
2. if one operand is an integer and the other is not, the kernel with the integer widened to a
   real;
3. for the operator that joins texts, if one operand is a string and none is a sequence, the
   kernel for the texts of both;
4. if an operand is a sequence, the operator item by item.

Anything else is an error that names both types. The result comes with the log entries of the
steps taken, in order.
-/

namespace Reckoner

/-- A result with what was logged on the way. -/
abbrev Logged (α : Type) := List LogEntry × Except Error α

namespace Operator

/-- What the operator computes for exactly these types. -/
def kernel : Operator → Value → Value → Answer
  | or => Kernel.logical (· || ·)
  | and => Kernel.logical (· && ·)
  | equals => Kernel.equals
  | notEquals => Kernel.notEquals
  | less => Kernel.ordered (·.isLT)
  | greater => Kernel.ordered (·.isGT)
  | lessEqual => Kernel.ordered (·.isLE)
  | greaterEqual => Kernel.ordered (·.isGE)
  | generate => Kernel.generate
  | interval => Kernel.interval
  | plus => Kernel.plus
  | minus => Kernel.minus
  | times => Kernel.times
  | divide => Kernel.divide
  | modulo => Kernel.modulo
  | power => Kernel.power

/-- The operands with an integer widened to a real, if exactly one is an integer. -/
def widen : Value → Value → Option (Value × Value)
  | .int _, .int _ => none
  | .int n, r => some (.real (Binary64.ofInt n.toInt), r)
  | l, .int n => some (l, .real (Binary64.ofInt n.toInt))
  | _, _ => none

/-- Whether joining the texts of the operands applies. -/
def textual (l r : Value) : Bool :=
  l.items?.isNone && r.items?.isNone && (l.kind = .text || r.kind = .text)

/-- The error for operands of unsupported types. -/
def unsupported (names : Names) (op : Operator) (l r : Option Value) : Error :=
  let shown : Option Value → Text
    | some v => v.toText names
    | none => []
  .operands op.symbol (Value.typeName? l) (Value.typeName? r) (shown l) (shown r)

/-- The steps that look at the operands as they are: everything but going item by item. -/
def direct (names : Names) (op : Operator) (l r : Value) : Option (Logged Value) :=
  match op.kernel l r with
  | some answer => some ([], answer)
  | none =>
    let widened := do
      let (wl, wr) ← widen l r
      let answer ← op.kernel wl wr
      some ([LogEntry.widened op.symbol l.typeName r.typeName], answer)
    match widened with
    | some logged => some logged
    | none =>
      if op.joinsTexts && textual l r then
        (op.kernel (.text (l.toText names)) (.text (r.toText names))).map fun answer =>
          ([.stringified op.symbol l.typeName r.typeName], answer)
      else none

/-- Puts a result in front of the results that follow, unless it failed. -/
def cons (first : Logged Value) (rest : Unit → Logged (List Value)) : Logged (List Value) :=
  match first with
  | (log, .error e) => (log, .error e)
  | (log, .ok v) => let (log', vs) := rest (); (log ++ log', vs.map (v :: ·))

/-- Collects results into a sequence. -/
def gather (results : Logged (List Value)) : Logged Value :=
  (results.1, results.2.map Value.collect)

mutual

/-- Applies the operator to a left operand that is no sequence. -/
def applyScalar (names : Names) (op : Operator) (l : Value) : Value → Logged Value
  | .array elem rs =>
    match op.direct names l (.array elem rs) with
    | some logged => logged
    | none => gather (applyScalarEach names op l rs)
  | .list rs =>
    match op.direct names l (.list rs) with
    | some logged => logged
    | none => gather (applyScalarEach names op l rs)
  | r =>
    match op.direct names l r with
    | some logged => logged
    | none => ([], .error (op.unsupported names (some l) (some r)))

/-- Applies the operator to a left operand that is no sequence and each right one. -/
def applyScalarEach (names : Names) (op : Operator) (l : Value) :
    List Value → Logged (List Value)
  | [] => ([], .ok [])
  | r :: rs => cons (applyScalar names op l r) fun _ => applyScalarEach names op l rs

end

mutual

/-- Applies the operator to two operands. -/
def apply (names : Names) (op : Operator) : Value → Value → Logged Value
  | .array elem ls, r =>
    match op.direct names (.array elem ls) r with
    | some logged => logged
    | none =>
      match r.items? with
      | some rs =>
        if ls.length = rs.length then gather (applyPairs names op ls rs)
        else ([], .error (.lengths op.symbol ls.length rs.length))
      | none => gather (applyEach names op ls r)
  | .list ls, r =>
    match op.direct names (.list ls) r with
    | some logged => logged
    | none =>
      match r.items? with
      | some rs =>
        if ls.length = rs.length then gather (applyPairs names op ls rs)
        else ([], .error (.lengths op.symbol ls.length rs.length))
      | none => gather (applyEach names op ls r)
  | l, r => applyScalar names op l r

/-- Applies the operator to each left operand and one right one. -/
def applyEach (names : Names) (op : Operator) : List Value → Value → Logged (List Value)
  | [], _ => ([], .ok [])
  | l :: ls, r => cons (apply names op l r) fun _ => applyEach names op ls r

/-- Applies the operator to pairs of operands. -/
def applyPairs (names : Names) (op : Operator) :
    List Value → List Value → Logged (List Value)
  | l :: ls, r :: rs => cons (apply names op l r) fun _ => applyPairs names op ls rs
  | _, _ => ([], .ok [])

end

/-- Applies the operator to operands that may be no values. -/
def evaluate (names : Names) (op : Operator) : Option Value → Option Value → Logged Value
  | some l, some r => op.apply names l r
  | l, r => ([], .error (op.unsupported names l r))

end Operator

end Reckoner
