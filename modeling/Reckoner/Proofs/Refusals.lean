import Mathlib.Tactic
import Reckoner.Proofs.Composite
import Reckoner.Proofs.Reading
import Reckoner.Proofs.ReadableTimes

/-!
# Readers that are stopped

A text may hold a point in time that its reader refuses. The payload that cannot be read stops
every reader that it is nested in: the field, the block with that field, and the context that the
block is of. What is in front of it does not help, since fields are read in order.
-/

namespace Reckoner

/-! ### Readers that fail -/

namespace Reading

variable {α β : Type} {layout : Layout} {p q : List Piece}

/-- In front of the records `es`, whatever follows them, the reader fails. -/
def Refuses (layout : Layout) (es : List Piece) (r : Reading α) : Prop :=
  ∀ (rest : List Piece) (d : Decoder) (h : Heap), d.At layout (es ++ rest) →
    ∃ e cur, r.exec ⟨d, h⟩ = (.error e, cur)

/-- A reader that fails need not see the records behind. -/
theorem Refuses.append {r : Reading α} (hr : Refuses layout p r) (q : List Piece) :
    Refuses layout (p ++ q) r := by
  intro rest d h hd
  rw [List.append_assoc] at hd
  exact hr _ d h hd

/-- What follows a reader that fails is not read. -/
theorem Refuses.bind {x : Reading α} (hx : Refuses layout p x) (f : α → Reading β) :
    Refuses layout p (x >>= f) := by
  intro rest d h hd
  obtain ⟨e, cur, hexec⟩ := hx rest d h hd
  exact ⟨e, cur, exec_bind_error hexec⟩

theorem refuses_onHeap {f : Heap → α × Heap} {g : α → Reading β}
    (hg : ∀ a, Refuses layout p (g a)) : Refuses layout p (onHeap f >>= g) := by
  intro rest d h hd
  rw [exec_bind_ok (exec_onHeap f ⟨d, h⟩)]
  exact hg _ rest d _ hd

end Reading

open Reading (Refuses)

/-! ### Fields and blocks -/

section Blocks

variable {γ : Type} {pieces : γ → List Piece} {P : γ → Nat → Heap → Option Datum → Prop}
  {read : RecordReader} {layout : Layout} {fields : List (γ × Text × Text)}

theorem readField_refuses {es : List Piece} (hes : Refuses layout es read) (labels : Text × Text)
    (k : Nat) : Refuses layout (Piece.field (es, labels)) (readField read k) :=
  (hes.append _).bind _

/-- A field that cannot be read ends the fields, however many were read before. -/
theorem readFields_stopped (hread : ReadsScalars read layout)
    (hfields : ∀ f ∈ fields, ContentBack read layout (pieces f.1) (P f.1) ∧ Brief f.2 ∨
      Refuses layout (pieces f.1) read)
    (hstop : ∃ f ∈ fields, Refuses layout (pieces f.1) read) (k : Nat) (rest : List Piece)
    (d : Decoder) (h : Heap)
    (hd : d.At layout (fields.flatMap (fun f => Piece.field (pieces f.1, f.2)) ++ rest)) :
    ∃ gs e cur, (readFields read fields.length k).run ⟨d, h⟩ = ((gs, some e), cur) := by
  induction fields generalizing k d h with
  | nil =>
    obtain ⟨f, hf, -⟩ := hstop
    cases hf
  | cons f fields ih =>
    rw [List.flatMap_cons, List.append_assoc] at hd
    rw [List.length_cons, readFields_succ]
    by_cases hf : Refuses layout (pieces f.1) read
    · obtain ⟨e, cur, hexec⟩ := readField_refuses hf f.2 k _ d h hd
      rw [hexec]
      exact ⟨_, e, cur, rfl⟩
    · obtain ⟨hback, hbrief⟩ := (hfields f List.mem_cons_self).resolve_right hf
      obtain ⟨g, d₁, h₁, hexec, hd₁, -, g', rfl, -⟩ := takes_field hread hback hbrief k _ d h hd
      obtain ⟨f', hf', hstop'⟩ := hstop
      rcases List.mem_cons.mp hf' with rfl | hmem
      · exact absurd hstop' hf
      · obtain ⟨gs, e, cur, hrun⟩ := ih (fun b hb => hfields b (List.mem_cons_of_mem f hb))
          ⟨f', hmem, hstop'⟩ (k + 1) d₁ h₁ hd₁
        rw [hexec]
        simp only [hrun]
        exact ⟨_, e, cur, rfl⟩

/-- A block with a field that cannot be read is refused. -/
theorem readBlock_refuses (hread : ReadsScalars read layout) (hlen : fields.length < 2 ^ 63)
    (hfields : ∀ f ∈ fields, ContentBack read layout (pieces f.1) (P f.1) ∧ Brief f.2 ∨
      Refuses layout (pieces f.1) read)
    (hstop : ∃ f ∈ fields, Refuses layout (pieces f.1) read) :
    Refuses layout (Piece.block (fields.map fun f => (pieces f.1, f.2))) (readBlock read) := by
  intro rest d h hd
  rw [Piece.block, List.length_map, List.flatMap_map] at hd
  obtain ⟨c, d₁, h₁, hexec, hd₁, -, rfl⟩ :=
    hread (.int (Int64.ofNat fields.length)) trivial _ d h hd
  obtain ⟨gs, e, cur, hrun⟩ := readFields_stopped hread hfields hstop 0 rest d₁ h₁ hd₁
  refine ⟨e, cur, ?_⟩
  rw [readBlock_exec, readBlockPart_run, hexec]
  simp only [Scalar.normal, Scalar.datum, readCounted, if_neg (count_nonneg hlen),
    toNat_count hlen, hrun]

end Blocks

/-! ### Contexts -/

/-- A point in time whose text is refused. -/
def Snapshot.Misdated (s : Snapshot) : Prop :=
  ∃ t e, s = .leaf (.dateTime t) ∧ DateTime.read t.text = .error e

/-- The record of a point in time whose text is refused cannot be read. -/
theorem readRecord_misdated {s : Snapshot} (hs : s.Misdated) (catalog : Catalog) (version : Int)
    (fuel : Nat) : Refuses .lines s.pieces (readRecord catalog version (fuel + 1)) := by
  obtain ⟨t, e, rfl, hread⟩ := hs
  rintro rest d h ⟨n, rfl⟩
  have htag : Decoder.tag (.lines ⟨((Snapshot.leaf (.dateTime t)).pieces ++ rest).map Piece.line,
      [], n⟩) = (.ok (some (Scalar.dateTime t).tag),
        .lines ⟨rest.map Piece.line, [Token.escape t.text], n + 1⟩) := by
    rw [Decoder.tag]
    simp only [Snapshot.pieces, Leaf.pieces, List.cons_append, List.nil_append, List.map_cons]
    rw [Decoder.tag_lines (Piece.line_scalar_ne_nil (.dateTime t)) rfl]
    rfl
  have hpayload : (Decoder.payload .dateTime
      (.lines ⟨rest.map Piece.line, [Token.escape t.text], n + 1⟩)).1 =
        .error ((⟨rest.map Piece.line, [], n + 1⟩ : Lines).fault "reading datetime"
          (some (.other (e.message t.text)))) := by
    rw [Decoder.payload, Lines.payload]
    simp only [Lines.token_escape, Step.bind, hread]
    rfl
  rw [readRecord, Reading.exec_bind_ok (by rw [Reading.exec_step, htag])]
  simp only [Scalar.ofTag_tag, Scalar.type]
  exact ⟨_, _, Reading.exec_bind_error (by rw [Reading.exec_step, hpayload])⟩

/-- **A context with a point in time that is refused cannot be read** from its text. -/
theorem readRecord_context_refuses {vars : List (Text × Snapshot)} {fuel : Nat}
    (hlen : vars.length < 2 ^ 63) (hfuel : (Snapshot.context vars).pieces.length ≤ fuel)
    (hvars : ∀ b ∈ vars, b.1.length ≤ 2 ^ 28 ∧ b.2.Kept .lines ∨ b.2.Misdated)
    (hstop : ∃ b ∈ vars, b.2.Misdated) :
    Refuses .lines (Snapshot.context vars).pieces (readRecord Catalog.values 1 fuel) := by
  rw [Snapshot.pieces, Piece.block, List.length_cons, List.length_cons] at hfuel
  obtain ⟨k, rfl⟩ : ∃ k, fuel = k + 2 := ⟨fuel - 2, by omega⟩
  have hread : ReadsScalars (readRecord Catalog.values 1 (k + 1)) .lines :=
    readsScalars (Nat.succ_pos k)
  have hblock : Piece.block (Snapshot.piecesVars vars)
      = Piece.block ((vars.map fun b => (b.2, b.1, [])).map fun f => (f.1.pieces, f.2)) := by
    rw [Snapshot.piecesVars_eq, List.map_map]
    rfl
  have hrefuses : Refuses .lines (Piece.block (Snapshot.piecesVars vars))
      (readBlock (readRecord Catalog.values 1 (k + 1))) := by
    rw [hblock]
    refine readBlock_refuses (P := fun s => Holding (s.normal .lines)) hread
      (by rwa [List.length_map]) ?_ ?_
    · intro f hf
      obtain ⟨b, hb, rfl⟩ := List.mem_map.mp hf
      rcases hvars b hb with ⟨hbrief, hkept⟩ | hmisdated
      · have hle := length_pieces_vars_le hb
        exact .inl ⟨contentBack_snapshot (readsBack hkept (hle.trans (by omega))), hbrief,
          Nat.zero_le _⟩
      · exact .inr (readRecord_misdated hmisdated _ _ k)
    · obtain ⟨b, hb, hmisdated⟩ := hstop
      exact ⟨(b.2, b.1, []), List.mem_map_of_mem hb, readRecord_misdated hmisdated _ _ k⟩
  intro rest d h hd
  rw [Snapshot.pieces] at hd
  obtain ⟨d₁, htag, hend, hd₁⟩ := Decoder.at_opening (by decide) hd
  have hparts : Refuses .lines (Piece.block (Snapshot.piecesVars vars))
      (readParts (readRecord Catalog.values 1 (k + 1)) "context" .context) := by
    rw [readParts]
    exact Reading.refuses_onHeap fun c => (hrefuses.bind _).bind _
  obtain ⟨e, cur, hexec⟩ := hparts rest d₁ h hd₁
  refine ⟨e, cur, ?_⟩
  rw [readRecord, Reading.exec_bind_ok (by rw [Reading.exec_step, htag])]
  have hbuiltin : ScalarType.ofTag? "context" = none := rfl
  have hmaker : Catalog.values "context" 1 = .ok .context := rfl
  simp only [hbuiltin]
  rw [Reading.exec_bind_ok (by rw [Reading.exec_result, hmaker]),
    Reading.exec_bind_ok (by rw [Reading.exec_step, hend])]
  exact Reading.exec_bind_error hexec

end Reckoner
