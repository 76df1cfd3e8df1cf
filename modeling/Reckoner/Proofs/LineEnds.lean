import Reckoner.Proofs.LineGrammar
import Reckoner.Proofs.RoundTrip

/-!
# Line ends

A text stream means the same whatever its lines end with. No carriage return is written, since a
token has it as an escape, and no line that is written is blank; so where carriage returns are put
in front of line feeds, where empty lines are put between lines, and where the last line end is
missing, the lines that a reader does not skip are just those that were written.

The reader itself is not looked into again. Two streams with the same lines apart from blank ones
stay such streams with every step, and so the reader of records gives the same on both.
-/

namespace Reckoner

namespace Text

/-! ### Other line ends -/

/-- A line feed, with a carriage return in front of it or not. -/
def IsLineEnd (e : Text) : Prop := e = [10] ∨ e = [13, 10]

/-- The lines of the first text, which all end with line feeds, are those of the second one, where
they end in either way and empty lines are between them. -/
inductive Relined : Text → Text → Prop
  | nil : Relined [] []
  /-- An empty line is put in. -/
  | blank {e t u : Text} : IsLineEnd e → Relined t u → Relined t (e ++ u)
  /-- A line ends in another way. -/
  | line {l e t u : Text} : 10 ∉ l → IsLineEnd e → Relined t u →
    Relined (l ++ 10 :: t) (l ++ e ++ u)

/-- The text with other line ends and with empty lines, the last line end of which may be
missing. -/
def Reformatted (t u : Text) : Prop :=
  ∃ v, Relined t v ∧ (u = v ∨ ∃ e, IsLineEnd e ∧ v = u ++ e)

variable {t u e : Text}

theorem IsLineEnd.mem (he : IsLineEnd e) {b : UInt8} (hb : b ∈ e) : b = 10 ∨ b = 13 := by
  rcases he with rfl | rfl
  · exact .inl (List.mem_singleton.mp hb)
  · simpa [or_comm] using hb

/-- Only the bytes of line ends are new. -/
theorem Relined.mem (h : Relined t u) {b : UInt8} (hb : b ∈ u) : b ∈ t ∨ b = 10 ∨ b = 13 := by
  induction h with
  | nil => exact .inl hb
  | blank he _ ih => exact (List.mem_append.mp hb).elim (fun hb => .inr (he.mem hb)) ih
  | line hl he _ ih =>
    rcases List.mem_append.mp hb with hb | hb
    · rcases List.mem_append.mp hb with hb | hb
      · exact .inl (List.mem_append_left _ hb)
      · exact .inr (he.mem hb)
    · exact (ih hb).imp_left fun hb => List.mem_append_right _ (List.mem_cons_of_mem _ hb)

theorem Relined.head (h : Relined t u) {b : UInt8} (hb : b ∈ u.head?) :
    b ∈ t.head? ∨ b = 10 ∨ b = 13 := by
  have hend : ∀ {e v : Text}, IsLineEnd e → b ∈ (e ++ v).head? → b = 10 ∨ b = 13 := by
    rintro e v (rfl | rfl) hb
    · exact .inl (Option.mem_some.mp hb).symm
    · exact .inr (Option.mem_some.mp hb).symm
  cases h with
  | nil => exact .inl hb
  | blank he _ => exact .inr (hend he hb)
  | @line l e t u hl he _ =>
    cases l with
    | nil => exact .inr (hend he hb)
    | cons c l => exact .inl hb

end Text

namespace Lines

open Text (IsLineEnd Relined Reformatted splitAtByte)

variable {t u l e : Text}

theorem trimReturn_of_notMem (h : 13 ∉ l) : trimReturn l = l :=
  if_neg fun hlast => h (List.mem_of_getLast? hlast)

theorem trimReturn_return (l : Text) : trimReturn (l ++ [13]) = l := by
  rw [trimReturn, if_pos (List.getLast?_concat ..), List.dropLast_concat]

/-- The end of a line belongs to no line that is not blank. -/
theorem filled_line (hl : 10 ∉ l) (hreturn : 13 ∉ l) (he : IsLineEnd e) (t : Text) :
    filled (splitAtByte 10 (l ++ e ++ t)) = filled (l :: splitAtByte 10 t) := by
  rcases he with rfl | rfl
  · rw [List.append_assoc, List.singleton_append, Text.splitAtByte_append hl]
  · have hl' : 10 ∉ l ++ [13] := by
      rw [List.mem_append, List.mem_singleton]
      exact not_or.mpr ⟨hl, by decide⟩
    rw [show l ++ [13, 10] ++ t = l ++ [13] ++ 10 :: t by simp, Text.splitAtByte_append hl',
      filled_cons, filled_cons, trimReturn_return, trimReturn_of_notMem hreturn]

theorem filled_blank (he : IsLineEnd e) (t : Text) :
    filled (splitAtByte 10 (e ++ t)) = filled (splitAtByte 10 t) :=
  filled_line List.not_mem_nil List.not_mem_nil he t

/-- A text without carriage returns has the same lines with other line ends. -/
theorem filled_relined (h : Relined t u) (ht : 13 ∉ t) :
    filled (splitAtByte 10 u) = filled (splitAtByte 10 t) := by
  induction h with
  | nil => rfl
  | blank he _ ih => rw [filled_blank he, ih ht]
  | @line l e t u hl he _ ih =>
    have hfirst : 13 ∉ l := fun hmem => ht (List.mem_append_left _ hmem)
    have hrest : 13 ∉ t := fun hmem => ht (List.mem_append_right _ (List.mem_cons_of_mem 10 hmem))
    rw [filled_line hl hfirst he, Text.splitAtByte_append hl, filled_cons, filled_cons, ih hrest]

/-- A missing line end makes no difference to lines without carriage returns. -/
theorem filled_unended (he : IsLineEnd e)
    (h : ∀ l ∈ filled (splitAtByte 10 (t ++ e)), 13 ∉ l) :
    filled (splitAtByte 10 t) = filled (splitAtByte 10 (t ++ e)) := by
  obtain ⟨front, last, hlast, hsplit⟩ := Text.splitAtByte_last 10 t
  have ht := hsplit []
  rw [List.append_nil, List.append_nil, Text.splitAtByte_of_notMem hlast] at ht
  rw [hsplit, filled_append] at h ⊢
  rw [ht, filled_append]
  congr 1
  rcases he with rfl | rfl
  · rw [Text.splitAtByte_append hlast, filled_cons, filled_cons]
    rfl
  · have hreturn : 13 ∉ last := by
      by_cases hblank : last = []
      · rw [hblank]
        exact List.not_mem_nil
      · have hlast' : 10 ∉ last ++ [13] := by
          rw [List.mem_append, List.mem_singleton]
          exact not_or.mpr ⟨hlast, by decide⟩
        refine h last (List.mem_append_right _ ?_)
        rw [show last ++ [13, 10] = last ++ [13] ++ 10 :: [] by simp,
          Text.splitAtByte_append hlast', filled_cons, trimReturn_return,
          if_neg fun hl => hblank (List.isEmpty_iff.mp hl)]
        exact List.mem_cons_self
    have hend := filled_line hlast hreturn (.inr rfl) []
    rw [List.append_nil] at hend
    rw [hend, filled_cons, filled_cons]
    rfl

theorem notMem_filled (ht : 13 ∉ t) : ∀ l ∈ filled (splitAtByte 10 t), 13 ∉ l := by
  intro l hl hmem
  obtain ⟨hl, -⟩ := List.mem_filter.mp hl
  obtain ⟨piece, hpiece, rfl⟩ := List.mem_map.mp hl
  refine ht (Text.mem_of_splitAtByte hpiece ?_)
  rw [trimReturn] at hmem
  split at hmem
  · exact List.mem_of_mem_dropLast hmem
  · exact hmem

/-- **Other line ends leave the lines that are not blank as they are.** -/
theorem filled_reformatted (h : Reformatted t u) (ht : 13 ∉ t) :
    filled (splitAtByte 10 u) = filled (splitAtByte 10 t) := by
  obtain ⟨v, hv, rfl | ⟨e, he, rfl⟩⟩ := h
  · exact filled_relined hv ht
  · rw [← filled_relined hv ht]
    refine filled_unended he fun l hl => ?_
    rw [filled_relined hv ht] at hl
    exact notMem_filled ht l hl

end Lines

namespace Reader

open Text (Reformatted)

/-- A text is still taken for one with other line ends. -/
theorem detect_reformatted {t u : Text} (h : Reformatted t u) (hall : ∀ b ∈ t, printable b = true)
    (hhead : ∀ b ∈ t.head?, b ≠ 73) : detect u = .text := by
  obtain ⟨v, hv, hu⟩ := h
  have hfront : u <+: v := by
    rcases hu with rfl | ⟨e, -, rfl⟩
    · exact List.prefix_rfl
    · exact List.prefix_append u e
  rw [detect_of_head, if_pos]
  · rw [List.all_eq_true]
    intro b hb
    rcases hv.mem (hfront.subset (List.mem_of_mem_take hb)) with hb | rfl | rfl
    · exact hall b hb
    · rfl
    · rfl
  · intro b hb
    have hb' : b ∈ v.head? := by
      obtain ⟨e, rfl⟩ := hfront
      cases u with
      | nil => cases hb
      | cons c u => exact hb
    rcases hv.head hb' with hb | rfl | rfl
    · exact hhead b hb
    · decide
    · decide

end Reader

/-! ### Written lines -/

namespace Piece

variable {e : Piece}

theorem line_block_ne_nil {fields : List (List Piece × Text × Text)} (he : e ∈ block fields)
    (hfields : ∀ f ∈ fields, e ∈ f.1 → e.line ≠ []) : e.line ≠ [] := by
  rcases List.mem_cons.mp he with rfl | he
  · exact line_scalar_ne_nil _
  · obtain ⟨f, hf, he⟩ := List.mem_flatMap.mp he
    rcases List.mem_append.mp he with he | he
    · exact hfields f hf he
    · rcases List.mem_cons.mp he with rfl | he
      · exact line_scalar_ne_nil _
      · rw [List.mem_singleton.mp he]
        exact line_scalar_ne_nil _

theorem line_scalarBlock_ne_nil {fields : List (Scalar × Text × Text)}
    (he : e ∈ scalarBlock fields) : e.line ≠ [] := by
  refine line_block_ne_nil he fun f hf he => ?_
  obtain ⟨g, -, rfl⟩ := List.mem_map.mp hf
  rw [List.mem_singleton.mp he]
  exact line_scalar_ne_nil _

theorem line_reals_ne_nil {xs : List Binary64} (he : e ∈ reals xs) : e.line ≠ [] := by
  obtain ⟨x, -, rfl⟩ := List.mem_map.mp he
  exact line_scalar_ne_nil _

/-- The records of a composite value are a tag, a block and what comes behind it. -/
theorem line_opening_ne_nil {tag : Text} {es : List Piece} (htag : tag ≠ [])
    (he : e ∈ .opening tag :: es) (hes : e ∈ es → e.line ≠ []) : e.line ≠ [] := by
  rcases List.mem_cons.mp he with rfl | he
  · exact escape_ne_nil htag
  · exact hes he

/-- The block of most composite values holds scalars. -/
theorem line_composite_ne_nil {tag : Text} {fields : List (Scalar × Text × Text)} {es : List Piece}
    (htag : tag ≠ []) (he : e ∈ .opening tag :: (scalarBlock fields ++ es))
    (hes : e ∈ es → e.line ≠ []) : e.line ≠ [] :=
  line_opening_ne_nil htag he fun he =>
    (List.mem_append.mp he).elim line_scalarBlock_ne_nil hes

end Piece

namespace Snapshot

theorem line_items_ne_nil {items : List Snapshot} {e : Piece}
    (hitems : ∀ s ∈ items, e ∈ s.pieces → e.line ≠ []) (he : e ∈ piecesAll items) :
    e.line ≠ [] := by
  rw [piecesAll_eq] at he
  obtain ⟨s, hs, he⟩ := List.mem_flatMap.mp he
  exact hitems s hs he

/-- No line of a value is blank. -/
theorem line_ne_nil {s : Snapshot} {e : Piece} (he : e ∈ s.pieces) : e.line ≠ [] := by
  induction s with
  | leaf a =>
    cases a with
    | point p => exact Piece.line_opening_ne_nil (by decide) he Piece.line_scalarBlock_ne_nil
    | vector xs => exact Piece.line_composite_ne_nil (by decide) he Piece.line_reals_ne_nil
    | pointVector ps => exact Piece.line_composite_ne_nil (by decide) he Piece.line_reals_ne_nil
    | matrix m => exact Piece.line_composite_ne_nil (by decide) he Piece.line_reals_ne_nil
    | _ =>
      rw [List.mem_singleton.mp he]
      exact Piece.line_scalar_ne_nil _
  | array elem items ih =>
    exact Piece.line_composite_ne_nil (by decide) he (line_items_ne_nil fun t ht he => ih t ht he)
  | list items ih =>
    exact Piece.line_composite_ne_nil (by decide) he (line_items_ne_nil fun t ht he => ih t ht he)
  | context vars ih =>
    refine Piece.line_opening_ne_nil (by decide) he fun he => ?_
    refine Piece.line_block_ne_nil he fun f hf he => ?_
    rw [piecesVars_eq] at hf
    obtain ⟨b, hb, rfl⟩ := List.mem_map.mp hf
    exact ih b hb he

end Snapshot

/-- No carriage return is written. -/
theorem Piece.notMem_lines (es : List Piece) : 13 ∉ es.flatMap (Piece.bytes .lines) := by
  intro h
  rcases mem_lines h with h | h | ⟨h, -⟩
  · exact absurd h (by decide)
  · exact absurd h (by decide)
  · exact absurd h (by decide)

theorem Lines.filled_pieces {es : List Piece} (hes : ∀ e ∈ es, e.line ≠ []) :
    filled (es.map Piece.line) = es.map Piece.line := by
  have htrim : (es.map Piece.line).map trimReturn = es.map Piece.line := by
    rw [List.map_map]
    exact List.map_congr_left fun e _ => trimReturn_line e
  rw [filled, htrim, List.filter_eq_self]
  intro l hl
  obtain ⟨e, he, rfl⟩ := List.mem_map.mp hl
  simpa using hes e he

/-! ### Steps on the same lines -/

namespace Lines

/-- The first lines are those of the second ones that are not blank. -/
def Refilled (ls ls' : List Text) : Prop := filled ls = ls ∧ filled ls' = ls

theorem filled_length_le (ls : List Text) : (filled ls).length ≤ ls.length :=
  (List.length_filter_le _ _).trans (List.length_map _).le

theorem filled_cons_fixed {l : Text} {ls : List Text} (h : filled (l :: ls) = l :: ls) :
    trimReturn l = l ∧ ¬ l.isEmpty = true ∧ filled ls = ls := by
  rw [filled_cons] at h
  split at h
  · have hle := filled_length_le ls
    rw [h] at hle
    exact absurd hle (Nat.not_succ_le_self _)
  · next hblank =>
    obtain ⟨htrim, hls⟩ := List.cons.inj h
    rw [htrim] at hblank
    exact ⟨htrim, hblank, hls⟩

/-- The next line is the same, and what is behind it are the same lines again. -/
theorem nextLine_refilled {ls ls' : List Text} (h : Refilled ls ls') (n n' : Nat) :
    (nextLine n ls = none ∧ nextLine n' ls' = none) ∨
      ∃ l line line' rest rest', nextLine n ls = some (l, line, rest) ∧
        nextLine n' ls' = some (l, line', rest') ∧ Refilled rest rest' := by
  obtain ⟨hls, hls'⟩ := h
  cases ls with
  | nil =>
    refine .inl ⟨rfl, ?_⟩
    cases hnext : nextLine n' ls' with
    | none => rfl
    | some found =>
      have := (nextLine_some hnext).symm.trans hls'
      cases this
  | cons l ls =>
    obtain ⟨htrim, hblank, hrest⟩ := filled_cons_fixed hls
    have hnext : nextLine n (l :: ls) = some (l, n + 1, ls) := by
      rw [nextLine, htrim, if_neg hblank]
    cases hnext' : nextLine n' ls' with
    | none =>
      have := (nextLine_none hnext').symm.trans hls'
      cases this
    | some found =>
      obtain ⟨l', line', rest'⟩ := found
      obtain ⟨rfl, hrest'⟩ := List.cons.inj ((nextLine_some hnext').symm.trans hls')
      exact .inr ⟨l', n + 1, line', ls, rest', hnext, rfl, hrest, hrest'⟩

variable {hi : Nat}

theorem tag_refilled : Local Refilled 0 hi tag where
  size_le s := (tag_cases s).1.size_le
  follows := by
    rintro _ _ a t ⟨rest, rest', tokens, n, n', rfl, rfl, hrest⟩ hhi ha hle
    unfold tag at ha ⊢
    by_cases htokens : tokens.isEmpty = true
    · rw [if_pos htokens] at ha ⊢
      rcases nextLine_refilled hrest n n' with ⟨hnext, hnext'⟩ |
        ⟨l, line, line', more, more', hnext, hnext', hmore⟩
      · rw [hnext] at ha
        rw [hnext']
        cases ha
        exact ⟨_, rfl, [], [], tokens, n, n', rfl, rfl, rfl, rfl⟩
      · rw [hnext] at ha
        rw [hnext']
        have hstep : Local Refilled 0 more.length fun s =>
            (token "tag" s).bind fun t s => (.ok (some t), s) :=
          (token_local "tag").bind fun t => Step.local_ok (some t)
        exact hstep.follows ⟨more, more', _, line, line', rfl, rfl, hmore⟩ le_rfl ha hle
    · rw [if_neg htokens] at ha
      cases ha

end Lines

namespace Decoder

/-- The streams are text, and have the same tokens of a line and behind it the same lines. -/
def Refilled (d d' : Decoder) : Prop :=
  ∃ s s', d = .lines s ∧ d' = .lines s' ∧ Lines.Alike Lines.Refilled s s'

theorem Refilled.size_le {d d' : Decoder} (h : Refilled d d') : d.size ≤ d'.size := by
  obtain ⟨_, _, rfl, rfl, rest, rest', tokens, n, n', rfl, rfl, -, hrest⟩ := h
  have hle := Lines.filled_length_le rest'
  rw [hrest] at hle
  exact hle

theorem local_refilled {α : Type} {f : Decoder → Step Decoder α} {g : Lines → Step Lines α}
    {hi : Nat} (hsize : ∀ d, (f d).2.size ≤ d.size) (hf : ∀ s, f (.lines s) = (g s).map lines)
    (hg : Lines.Local Lines.Refilled 0 hi g) : Step.Local Refilled size 0 hi f f where
  size_le := hsize
  follows := by
    rintro _ _ a t ⟨s, s', rfl, rfl, hs⟩ hhi ha -
    rw [hf] at ha ⊢
    rcases hstep : g s with ⟨r, u⟩
    rw [hstep] at ha
    cases ha
    obtain ⟨u', hu', halike⟩ := hg.follows hs hhi hstep (Nat.zero_le _)
    exact ⟨.lines u', by rw [hu']; rfl, u, u', rfl, rfl, halike⟩

/-- Every step of the decoder goes the same way on both streams. -/
theorem transfers_refilled : Transfers Refilled 0 where
  size_le _ := Nat.zero_le _
  tag _ := local_refilled (fun _ => (tag_tame le_rfl).size_le) (fun _ => rfl) Lines.tag_refilled
  payload type _ := local_refilled (fun _ => (payload_tame type le_rfl).size_le) (fun _ => rfl)
    (Lines.payload_local type)
  endRecord _ := local_refilled (fun _ => (endRecord_tame le_rfl).size_le) (fun _ => rfl)
    Lines.endRecord_local

end Decoder

/-! ### Readers of the same lines -/

namespace Reader

/-- The second reader has the same lines to read as the first one, apart from blank ones. -/
structure Refilled (r r' : Reader) : Prop where
  catalog : r'.catalog = r.catalog
  version : r'.version = r.version
  decoder : Decoder.Refilled r.decoder r'.decoder

variable {r r' : Reader} {h : Heap}

/-- The next value is the same for both. -/
theorem nextValue_refilled (hr : r.Refilled r') {o : Option Value} {r₁ : Reader} {h₁ : Heap}
    (hnext : r.nextValue h = (.ok o, r₁, h₁)) :
    ∃ r₁', r'.nextValue h = (.ok o, r₁', h₁) ∧ r₁.Refilled r₁' := by
  have hfuel : r.decoder.size < 0 + (r'.decoder.size + 1) := by
    have := hr.decoder.size_le
    omega
  have hlocal : Reading.Local Decoder.Refilled 0 r.decoder.size (readValue r.record)
      (readValue r'.record) := by
    rw [record, record, hr.catalog, hr.version]
    exact readValue_local (readRecord_local Decoder.transfers_refilled hfuel)
  rcases hexec : (readValue r.record).exec ⟨r.decoder, h⟩ with ⟨x, cur⟩
  rw [nextValue_exec, hexec] at hnext
  cases hnext
  have halike : Reading.Alike Decoder.Refilled ⟨r.decoder, h⟩ ⟨r'.decoder, h⟩ := ⟨hr.decoder, rfl⟩
  obtain ⟨cur', hexec', hcur⟩ := hlocal.follows halike le_rfl hexec (Nat.zero_le _)
  refine ⟨{ r' with decoder := cur'.decoder }, ?_, hr.catalog, hr.version, hcur.1⟩
  rw [nextValue_exec, hexec', hcur.2]

/-- All that is read is the same. The induction is on the number of reads. -/
theorem nextAll_refilled (hr : r.Refilled r') {limit : Nat}
    {answers : List (Except Error (Option Value))} {h' : Heap}
    (hall : nextAll nextValue false limit r h = (answers, h'))
    (hok : ∀ a ∈ answers, ∃ o, a = .ok o) :
    nextAll nextValue false limit r' h = (answers, h') := by
  induction limit generalizing r r' h answers with
  | zero => exact hall
  | succ limit ih =>
    rw [nextAll] at hall ⊢
    rcases hnext : r.nextValue h with ⟨e | (_ | v), r₁, h₁⟩
    · rw [hnext] at hall
      cases hall
      obtain ⟨o, ho⟩ := hok _ List.mem_cons_self
      cases ho
    · obtain ⟨r₁', hnext', -⟩ := nextValue_refilled hr hnext
      rw [hnext] at hall
      rw [hnext', ← hall]
      rfl
    · obtain ⟨r₁', hnext', hr₁⟩ := nextValue_refilled hr hnext
      rw [hnext] at hall
      dsimp only at hall
      rcases hrest : nextAll nextValue false limit r₁ h₁ with ⟨rest, h₂⟩
      rw [hrest] at hall
      cases hall
      rw [hnext']
      simp only [ih hr₁ hrest fun a ha => hok a (List.mem_cons_of_mem _ ha)]

theorem Yields.refilled {limit : Nat} {ss : List Snapshot} (hy : r.Yields h limit ss)
    (hr : r.Refilled r') : r'.Yields h limit ss := by
  obtain ⟨vs, h', hall, hg, hvs⟩ := hy
  refine ⟨vs, h', nextAll_refilled hr hall fun a ha => ?_, hg, hvs⟩
  rcases List.mem_append.mp ha with ha | ha
  · obtain ⟨v, -, rfl⟩ := List.mem_map.mp ha
    exact ⟨_, rfl⟩
  · exact ⟨_, List.mem_singleton.mp ha⟩

/-- Lines of records, none of them blank, are opened with other line ends as they would be opened
themselves. -/
theorem start_reformatted {es : List Piece} (hes : ∀ e ∈ es.head?, e.tag ∈ Snapshot.headTags)
    (hline : ∀ e ∈ es, e.line ≠ []) {t : Text}
    (ht : Text.Reformatted (es.flatMap (Piece.bytes .lines)) t) :
    ∃ r, start Catalog.values t = .ok r ∧ r.mode = .text ∧ Refilled
      ⟨.text, Stream.version, [], Catalog.values, .lines ⟨es.map Piece.line, [], 0⟩⟩ r := by
  have hdetect := detect_reformatted ht (fun _ => Piece.printable_lines) (head_lines hes)
  have hfilled := Lines.filled_pieces hline
  have hlines : Lines.filled (Lines.split t) = es.map Piece.line := by
    rw [Lines.filled_split, Lines.filled_reformatted ht (Piece.notMem_lines es),
      ← Lines.filled_split, Lines.split_pieces, hfilled]
  refine ⟨⟨.text, Stream.version, [], Catalog.values, .lines (Lines.ofText t)⟩, ?_, rfl, rfl, rfl,
    _, _, rfl, rfl, _, _, [], 0, 0, rfl, rfl, hfilled, hlines⟩
  rw [start, hdetect]

end Reader

/-! ### Streams -/

/-- **Text streams do not depend on how their lines end.** Values that can be stored are written as
a text; whatever its line ends are changed to, whatever empty lines are put between its lines, and
whether or not the last line end is there, it is opened as a text and reading gives the values in
order and then the end. -/
theorem stream_reformatted {h : Heap} {vs : List Value} (name : Text) {level : Int}
    (hvs : ∀ v ∈ vs, h.Storable .lines v) :
    ∃ (ss : List Snapshot) (w w' : Writer),
      List.Forall₂ (h.Shows fun _ => True) vs ss ∧ Writer.create .text name level = .ok w ∧
      w.putAll (vs.map fun v w => w.putValue h (some v)) = (w', vs.map fun _ => .ok ()) ∧
      ∀ t, Text.Reformatted w'.finish t →
        ∃ r, Reader.start Catalog.values t = .ok r ∧ r.mode = .text ∧
          ∀ (h' : Heap) (limit : Nat), vs.length < limit →
            r.Yields h' limit (ss.map (Snapshot.normal .lines)) := by
  obtain ⟨ss, hss, hstorable, hput⟩ := Writer.putAll_values { mode := .text, name } hvs
  refine ⟨ss, { mode := .text, name }, _, hss, rfl, hput, fun t ht => ?_⟩
  have ht' : Text.Reformatted ((ss.flatMap Snapshot.pieces).flatMap (Piece.bytes .lines)) t := by
    rw [← Reader.bytes_flatMap]
    exact ht
  have hline : ∀ e ∈ ss.flatMap Snapshot.pieces, e.line ≠ [] := by
    intro e he
    obtain ⟨s, -, he⟩ := List.mem_flatMap.mp he
    exact Snapshot.line_ne_nil he
  obtain ⟨r, hstart, hmode, hr⟩ := Reader.start_reformatted (Reader.head_pieces ss) hline ht'
  refine ⟨r, hstart, hmode, fun h' limit hlimit => ?_⟩
  have hcount : ss.length < limit := by rwa [← hss.length_eq]
  exact (Reader.nextAll_back hstorable ⟨rfl, rfl, 0, rfl⟩ hcount).refilled hr

/-- The theorem applies to a text that ends with a carriage return and to a truth value, with an
empty line in front of each, and no line end behind the last one. -/
theorem stream_reformatted_twoLines : ∃ (ss : List Snapshot) (w' : Writer),
    List.Forall₂ (Heap.Shows {} fun _ => True) [.text "a\r", .bool true] ss ∧
    Writer.putAll { mode := .text, name := "v" } [fun w => w.putValue {} (some (.text "a\r")),
      fun w => w.putValue {} (some (.bool true))] = (w', [.ok (), .ok ()]) ∧
    w'.finish = "string\ta\\r\nbool\ttrue\n" ∧
    ∃ r, Reader.start Catalog.values "\r\nstring\ta\\r\r\n\nbool\ttrue" = .ok r ∧ r.mode = .text ∧
      r.Yields {} 3 (ss.map (Snapshot.normal .lines)) := by
  have hvs : ∀ v ∈ [Value.text "a\r", .bool true], Heap.Storable {} .lines v := by
    intro v hv
    rcases List.mem_cons.mp hv with rfl | hv
    · have hfits : (Text.ofString "a\r").length ≤ 2 ^ 28 := by decide
      exact .of_parts hfits fun u hu => by cases hu
    · rw [List.mem_singleton.mp hv]
      exact .of_parts trivial fun u hu => by cases hu
  obtain ⟨ss, w, w', hss, hcreate, hput, hreads⟩ := @stream_reformatted {} _ "v" 0 hvs
  cases hcreate
  have hfinish : (Writer.putAll { mode := .text, name := "v" }
      [fun w => w.putValue {} (some (.text "a\r")),
        fun w => w.putValue {} (some (.bool true))]).1.finish
      = "string\ta\\r\nbool\ttrue\n" := by
    decide +kernel
  have hw : w'.finish = "string\ta\\r\nbool\ttrue\n" :=
    (congrArg (·.1.finish) hput).symm.trans hfinish
  have hrelined : Text.Relined
      (Text.ofString "string\ta\\r" ++ 10 :: (Text.ofString "bool\ttrue" ++ 10 :: []))
      ([13, 10] ++ (Text.ofString "string\ta\\r" ++ [13, 10]
        ++ ([10] ++ (Text.ofString "bool\ttrue" ++ [10] ++ [])))) :=
    .blank (.inr rfl) (.line (by decide +kernel) (.inr rfl)
      (.blank (.inl rfl) (.line (by decide +kernel) (.inl rfl) .nil)))
  have ht : Text.Reformatted w'.finish "\r\nstring\ta\\r\r\n\nbool\ttrue" := by
    rw [hw]
    exact ⟨_, hrelined, .inr ⟨[10], .inl rfl, by decide +kernel⟩⟩
  obtain ⟨r, hstart, hmode, hyields⟩ := hreads _ ht
  exact ⟨ss, w', hss, hput, hw, r, hstart, hmode, hyields {} 3 (by decide)⟩

end Reckoner
