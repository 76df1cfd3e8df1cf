import Mathlib.Tactic
import Reckoner.Output

/-!
# Indentation does not depend on how text is cut up

A printer writes a text line by line. What comes out is settled byte by byte all the same: a byte
only needs to know the depth and whether it starts a line. So `Printer.write` is a fold over the
bytes, and two texts written one after the other are the text made of both.

What the calls of a printer should come to is said without one. Every byte is marked with the depth
in force when it is written (`Printer.marked`), and the bytes that start a line get a margin in
front (`Printer.laidOut`). One call does that (`Printer.prints_call`), and a run of calls does by
induction, since what is laid out depends on the bytes before only in whether a line starts.
-/

namespace Reckoner

namespace Printer

/-! ### Byte by byte -/

theorem ne_nil_of_mem_pieces {t piece : Text} (hp : piece ∈ pieces t) : piece ≠ [] := by
  induction t generalizing piece with
  | nil => cases hp
  | cons b rest ih =>
    unfold pieces at hp
    split at hp
    · obtain rfl | hp := List.mem_cons.mp hp
      · exact List.cons_ne_nil _ _
      · exact ih hp
    · split at hp
      · obtain rfl := List.mem_singleton.mp hp
        exact List.cons_ne_nil _ _
      · next more hrest =>
        obtain rfl | hp := List.mem_cons.mp hp
        · exact List.cons_ne_nil _ _
        · exact ih (hrest ▸ .tail _ hp)

/-- The first byte of a piece that goes on may be written on its own. -/
theorem writePiece_cons (p : Printer) {b : UInt8} {piece : Text} (hb : b ≠ 10)
    (hpiece : piece ≠ []) : p.writePiece (b :: piece) = (p.writePiece [b]).writePiece piece := by
  simp [writePiece, hb, List.getLast?_cons_of_ne_nil hpiece]

theorem write_cons (p : Printer) (b : UInt8) (rest : Text) :
    p.write (b :: rest) = (p.writePiece [b]).write rest := by
  unfold write
  rw [pieces]
  by_cases hb : b = 10
  · rw [if_pos hb, List.foldl_cons]
  · rw [if_neg hb]
    cases hrest : pieces rest with
    | nil => rfl
    | cons piece more =>
      have hpiece : piece ≠ [] := ne_nil_of_mem_pieces (hrest ▸ List.mem_cons_self)
      simp only [List.foldl_cons, writePiece_cons p hb hpiece]

/-- Writing a text is writing its bytes. -/
theorem write_eq_foldl (p : Printer) (t : Text) :
    p.write t = t.foldl (fun p b => p.writePiece [b]) p := by
  induction t generalizing p with
  | nil => rfl
  | cons b rest ih => rw [write_cons, ih, List.foldl_cons]

/-- Writing two texts is writing the text made of both. -/
theorem write_write (p : Printer) (s t : Text) : (p.write s).write t = p.write (s ++ t) := by
  simp only [write_eq_foldl, List.foldl_append]

/-! ### What should come out -/

/-- A call of a printer. -/
inductive Call where
  /-- Writes a text. -/
  | write (t : Text)
  /-- Writes a text and ends the line. -/
  | line (t : Text)
  /-- Changes the depth. -/
  | indent (levels : Int64)
  /-- Takes the depth back to none. -/
  | clear

namespace Call

/-- Makes a call on a printer. -/
def run (p : Printer) : Call → Printer
  | write t => p.write t
  | line t => p.writeLine t
  | indent levels => p.indent levels.toInt
  | clear => p.clear

/-- What a call writes. -/
def text : Call → Text
  | write t => t
  | line t => t ++ [10]
  | indent _ | clear => []

/-- The depth after a call. It is cut off at none, and one that does not fit is none as well. -/
def depth (before : Int) : Call → Int
  | write _ | line _ => before
  | indent levels => if before + levels.toInt < 2 ^ 63 then max 0 (before + levels.toInt) else 0
  | clear => 0

end Call

/-- The bytes that calls write, each with the depth in force. -/
def marked (depth : Int) : List Call → List (Int × UInt8)
  | [] => []
  | call :: calls => call.text.map (depth, ·) ++ marked (call.depth depth) calls

/-- Two blanks for each level. -/
def margin (depth : Int) : Text := List.replicate (2 * depth.toNat) 32

/-- The bytes with a margin in front of each that starts a line: the first one if `start` is true,
and every one behind a line feed. -/
def laidOut (start : Bool) : List (Int × UInt8) → Text
  | [] => []
  | (depth, b) :: rest => (if start then margin depth else []) ++ b :: laidOut (b = 10) rest

/-- Whether a line starts behind the bytes. -/
def startsLine (start : Bool) (bytes : List (Int × UInt8)) : Bool :=
  bytes.foldl (fun _ mark => mark.2 = 10) start

theorem laidOut_append (start : Bool) (xs ys : List (Int × UInt8)) :
    laidOut start (xs ++ ys) = laidOut start xs ++ laidOut (startsLine start xs) ys := by
  induction xs generalizing start with
  | nil => rfl
  | cons mark xs ih => simp [laidOut, startsLine, ih]

/-- The marks do not change what is written. -/
theorem map_marked (depth : Int) (calls : List Call) :
    (marked depth calls).map (·.2) = calls.flatMap Call.text := by
  induction calls generalizing depth with
  | nil => rfl
  | cons call calls ih => simp [marked, ih, Function.comp_def]

/-! ### What a printer does -/

/-- From `p` to `q` the bytes have been printed, and the depth is `depth` now. -/
structure Prints (p : Printer) (bytes : List (Int × UInt8)) (depth : Int) (q : Printer) :
    Prop where
  /-- The depth is never below zero. -/
  nonneg : 0 ≤ q.depth
  depth : q.depth.toInt = depth
  /-- The bytes have been added, with the margins of their lines. -/
  written : q.written = p.written ++ laidOut p.lineStart bytes
  /-- The next byte starts a line if the last one ended one. -/
  lineStart : q.lineStart = startsLine p.lineStart bytes

variable {p q r : Printer}

theorem Prints.refl (hp : 0 ≤ p.depth) : Prints p [] p.depth.toInt p :=
  ⟨hp, rfl, (List.append_nil _).symm, rfl⟩

theorem Prints.trans {xs ys : List (Int × UInt8)} {depth depth' : Int} (hpq : Prints p xs depth q)
    (hqr : Prints q ys depth' r) : Prints p (xs ++ ys) depth' r where
  nonneg := hqr.nonneg
  depth := hqr.depth
  written := by
    rw [hqr.written, hpq.written, hpq.lineStart, laidOut_append, List.append_assoc]
  lineStart := by
    rw [hqr.lineStart, hpq.lineStart, startsLine, startsLine, startsLine, List.foldl_append]

/-- A byte gets a margin if it starts a line. -/
theorem prints_byte (hp : 0 ≤ p.depth) (b : UInt8) :
    Prints p [(p.depth.toInt, b)] p.depth.toInt (p.writePiece [b]) where
  nonneg := hp
  depth := rfl
  written := by simp [writePiece, laidOut, margin, indentation]
  lineStart := by simp [writePiece, startsLine]

theorem prints_write (hp : 0 ≤ p.depth) (t : Text) :
    Prints p (t.map (p.depth.toInt, ·)) p.depth.toInt (p.write t) := by
  induction t generalizing p with
  | nil => exact .refl hp
  | cons b rest ih =>
    rw [write_cons]
    exact (prints_byte hp b).trans (ih (prints_byte hp b).nonneg)

/-- The depth after a change of it, said over the integers. The sum does not fit if and only if the
wrapped one is below zero. -/
theorem indent_depth (hp : 0 ≤ p.depth) (levels : Int64) :
    0 ≤ (p.indent levels.toInt).depth ∧
    (p.indent levels.toInt).depth.toInt = Call.depth p.depth.toInt (.indent levels) := by
  have hdepth : 0 ≤ p.depth.toInt := Int64.le_iff_toInt_le.mp hp
  have hdepth' := p.depth.toInt_lt
  have hlevels := levels.le_toInt
  have hlevels' := levels.toInt_lt
  have hzero : (0 : Int64).toInt = 0 := rfl
  have hsum := Int64.toInt_add p.depth levels
  rw [Int.bmod_def] at hsum
  simp only [indent, Call.depth, levels.ofInt_toInt, Int64.lt_iff_toInt_lt, Int64.le_iff_toInt_le]
  split <;> split <;> omega

/-- One call prints its text at the depth in force. -/
theorem prints_call (hp : 0 ≤ p.depth) (call : Call) :
    Prints p (call.text.map (p.depth.toInt, ·)) (call.depth p.depth.toInt) (call.run p) := by
  cases call with
  | write t => exact prints_write hp t
  | line t => exact prints_write hp (t ++ [10])
  | indent levels =>
    obtain ⟨hnonneg, hdepth⟩ := indent_depth hp levels
    exact ⟨hnonneg, hdepth, (List.append_nil _).symm, rfl⟩
  | clear => exact ⟨Int64.le_refl 0, rfl, (List.append_nil _).symm, rfl⟩

theorem prints_calls (hp : 0 ≤ p.depth) (calls : List Call) :
    Prints p (marked p.depth.toInt calls) (calls.foldl Call.depth p.depth.toInt)
      (calls.foldl Call.run p) := by
  induction calls generalizing p with
  | nil => exact .refl hp
  | cons call calls ih =>
    have hcall := prints_call hp call
    have hrest := ih hcall.nonneg
    rw [hcall.depth] at hrest
    exact hcall.trans hrest

/-- **Indented output does not depend on how it is cut up.** Two texts in a row are one text. After
any calls the depth is not negative, and what has come out is the text of the calls with two blanks
for each level in front of every line, where the depth is that in force when the first byte of the
line was written. -/
theorem indented_output :
    (∀ (p : Printer) (s t : Text), (p.write s).write t = p.write (s ++ t)) ∧
    ∀ (p : Printer), 0 ≤ p.depth → ∀ calls : List Call,
      0 ≤ (calls.foldl Call.run p).depth ∧
      (calls.foldl Call.run p).depth.toInt = calls.foldl Call.depth p.depth.toInt ∧
      (calls.foldl Call.run p).written =
        p.written ++ laidOut p.lineStart (marked p.depth.toInt calls) ∧
      (marked p.depth.toInt calls).map (·.2) = calls.flatMap Call.text := by
  refine ⟨write_write, fun p hp calls => ?_⟩
  obtain ⟨hnonneg, hdepth, hwritten, -⟩ := prints_calls hp calls
  exact ⟨hnonneg, hdepth, hwritten, map_marked _ calls⟩

/-- A line that is begun keeps its margin when the depth changes, and an empty line has one. -/
def outline : List Call :=
  [.indent 1, .write "a", .indent 1, .line "b", .write "", .line "", .clear, .write "c"]

theorem outline_printed :
    0 ≤ ({} : Printer).depth ∧ (outline.foldl Call.run {}).written = "  ab\n    \nc" := by
  have hdepth : 0 ≤ ({} : Printer).depth := Int64.le_refl 0
  refine ⟨hdepth, ?_⟩
  rw [(indented_output.2 {} hdepth outline).2.2.1]
  decide +kernel

end Printer

end Reckoner
