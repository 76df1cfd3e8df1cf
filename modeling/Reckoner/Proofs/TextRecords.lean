import Reckoner.Proofs.Records
import Reckoner.Proofs.TokenGrammar
import Reckoner.Proofs.Transcripts
import Reckoner.Stream.Writer

/-!
# Text streams record by record

In a text stream every record is one line. The tokens of the line are escaped, so that the line has
one token or two and nothing in them ends it, whatever bytes are in tags, strings and names. This
holds for all that is handed to the stream, whether or not it can be written to its end: a write
that stops leaves the lines of the records in front of the error.
-/

namespace Reckoner

/-- What is handed to a stream at one time, with the heap as it is then. -/
inductive Stream.Entry where
  /-- A value, or nothing. -/
  | value (h : Heap) (v : Option Value)
  /-- What a field could hold, as it is. -/
  | datum (h : Heap) (d : Option Datum)

namespace Stream.Entry

/-- Writes the entry. -/
def put : Stream.Entry → Writer → Writer × Except Error Unit
  | value h v, w => w.putValue h v
  | datum h d, w => w.putDatum h d

/-- The records of an entry, up to where it fails. -/
def records : Stream.Entry → Transcript
  | value h v => h.valueRecords v
  | datum h d => h.datumRecords d

/-- Whether all records of the entry are written, and otherwise why not. -/
def answer (e : Stream.Entry) : Except Error Unit :=
  match e.records.error with
  | none => .ok ()
  | some error => .error error

/-- The entry is written as its records. -/
theorem put_eq (e : Stream.Entry) (w : Writer) :
    e.put w = w.put (e.records.laidOut w.mode.layout) := by
  cases e with
  | value h v => rw [put, Writer.putValue, Heap.writeValue_laidOut]; rfl
  | datum h d => rw [put, Writer.putDatum, Heap.writeDatum_laidOut]; rfl

end Stream.Entry

/-! ### Lines -/

/-- In lines there is nothing that could not be written. -/
theorem Transcript.laidOut_lines (a : Transcript) :
    a.laidOut .lines = ⟨a.pieces.flatMap (Piece.bytes .lines), a.error⟩ := by
  have hpieces : Piece.writeAll .lines a.pieces = ⟨a.pieces.flatMap (Piece.bytes .lines), none⟩ := by
    refine Piece.writeAll_eq (Emission.each_error.mpr fun e _ => ?_)
    cases e <;> rfl
  rw [laidOut, hpieces]
  simp [Emission.andThen]

/-- The text has one line for each of the records and nothing else. The line is one escaped token, or
two with a tab in between, and has its end behind it. -/
structure Stream.LinesOf (es : List Piece) (t : Text) : Prop where
  /-- The lines are those of the records. -/
  lines : Text.splitAtByte 10 t = es.map Piece.line ++ [[]]
  /-- A line has the tokens of its record, of which there are one or two. -/
  tokens : ∀ e ∈ es, Text.splitAtByte 9 e.line = e.tokens.map Token.escape ∧
    (e.tokens.length = 1 ∨ e.tokens.length = 2)
  /-- Nothing in the text is invisible but tabs and line ends. -/
  bytes : ∀ b ∈ t, b = 9 ∨ b = 10 ∨ (0x20 ≤ b ∧ b ≠ 0x7f)

theorem Stream.linesOf_pieces (es : List Piece) :
    LinesOf es (es.flatMap (Piece.bytes .lines)) where
  lines := Lines.splitAtByte_pieces es
  tokens := fun e _ => ⟨e.split_line, by cases e <;> simp [Piece.tokens]⟩
  bytes := fun _ => Piece.mem_lines

namespace Writer

/-- **All entries are written**, each as the lines of its records. The induction is on the entries:
a write that stops does not keep the next one from being written. -/
theorem putAll_entries (w : Writer) (hw : w.mode = .text) (entries : List Stream.Entry) :
    w.putAll (entries.map Stream.Entry.put) =
      ({ w with body := w.body ++
          (entries.flatMap fun e => e.records.pieces).flatMap (Piece.bytes .lines) },
        entries.map Stream.Entry.answer) := by
  induction entries generalizing w with
  | nil => simp [putAll]
  | cons e entries ih =>
    have hput : e.put w =
        ({ w with body := w.body ++ e.records.pieces.flatMap (Piece.bytes .lines) }, e.answer) := by
      have hlayout : w.mode.layout = .lines := by rw [hw]; rfl
      rw [Stream.Entry.put_eq, hlayout, Transcript.laidOut_lines]
      rfl
    simp [putAll, hput, ih, hw]

end Writer

/-! ### Escaping -/

/-- **Escaping is exact.** An escaped text has visible bytes only and is read back as it was. The
texts that can be read are the sequences of items, each of them as the bytes that its items stand
for, and reading by places never leaves them. So a text stream has one line of one token or two for
each of its records, whatever is written to it, and no bytes in it but visible ones, tabs and line
feeds. -/
theorem escaping_exact :
    (∀ s : Text, Token.unescape (Token.escape s) = .ok s ∧
      ∀ b ∈ Token.escape s, 0x20 ≤ b ∧ b ≠ 0x7f) ∧
    (∀ t : Text, Guarded.unescape t = .ok (Token.unescape t) ∧
      ∀ s, Token.unescape t = .ok s ↔ Token.Spells t s) ∧
    ∀ (name : Text) (level : Int) (entries : List Stream.Entry), ∃ w w' : Writer,
      Writer.create .text name level = .ok w ∧
      w.putAll (entries.map Stream.Entry.put) = (w', entries.map Stream.Entry.answer) ∧
      Stream.LinesOf (entries.flatMap fun e => e.records.pieces) w'.finish := by
  refine ⟨fun s => ⟨Token.unescape_escape s, fun b => Token.escape_visible⟩, fun t =>
    ⟨Guarded.unescape_eq t, fun s => Token.unescape_eq_ok_iff⟩, fun name level entries => ?_⟩
  refine ⟨{ mode := .text, name }, _, rfl, Writer.putAll_entries _ rfl entries, ?_⟩
  exact Stream.linesOf_pieces _

end Reckoner
