import Reckoner.Proofs.Locality
import Reckoner.Proofs.Splitting
import Reckoner.Proofs.Stored

/-!
# The grammar of lines

Where no tags are known but the built-in ones, a stream of text is read line by line. Blank lines
are skipped. A line is a record if it has just two tokens, the first of which stands for a tag and
the second for a payload of its type; every other line is refused.

What decides how reading goes on are the tokens that are left of a line. A reader that stands
between two lines takes the next one whole, or leaves tokens of it; and a reader with tokens left
never gets on. So a line has a part in one answer at most.
-/

namespace Reckoner

/-! ### What lines say -/

/-- The color that a token stands for: the hexadecimal digits of its four bytes behind a mark. -/
def Color.parse? : Text → Option Color
  | 35 :: digits =>
    if digits.length = 8 then
      (Numeral.hex? 0 digits).toOption.map fun n =>
        ⟨(n / 16777216).toUInt8, (n / 65536).toUInt8, (n / 256).toUInt8, n.toUInt8⟩
    else none
  | _ => none

/-- The payload of a type that a token stands for. -/
def ScalarType.parse? : ScalarType → Text → Option Scalar
  | int, t => (Numeral.int64? t).toOption.map .int
  | real, t => (Numeral.double? t).toOption.map .real
  | text, t => some (.text t)
  | bool, t => (Numeral.bool? t).toOption.map .bool
  | dateTime, t => (DateTime.read t).toOption.map .dateTime
  | timeSpan, t => (Numeral.int64? t).toOption.map .timeSpan
  | color, t => (Color.parse? t).map .color

namespace Lines

/-- The lines that are not blank, each without one carriage return at its end. -/
def filled (ls : List Text) : List Text := (ls.map trimReturn).filter fun l => !l.isEmpty

end Lines

namespace Line

/-- The type of payload that a token announces: it stands for a built-in tag. -/
def type? (token : Text) : Option ScalarType :=
  (Token.unescape token).toOption.bind ScalarType.ofTag?

/-- The payload of a line that is a record. -/
def scalar? (l : Text) : Option Scalar :=
  match Text.splitAtByte 9 l with
  | [a, b] => (type? a).bind fun type => (Token.unescape b).toOption.bind type.parse?
  | _ => none

/-- The line has a token behind a tag that announces nothing, or a third one. -/
def Overlong (l : Text) : Prop :=
  ∃ a b rest, Text.splitAtByte 9 l = a :: b :: rest ∧ (type? a = none ∨ rest ≠ [])

/-- The error says that the line is malformed, or names its tag as unknown. -/
def Refuses (l : Text) (e : Error) : Prop :=
  e.IsMalformed ∨ ∃ a rest tag, Text.splitAtByte 9 l = a :: rest ∧ Token.unescape a = .ok tag ∧
    ScalarType.ofTag? tag = none ∧ e = .unknownTag tag

/-- The answers of a reader that stands in front of some lines. -/
inductive Answers : List Text → List (Except Error (Option Datum)) → Prop
  /-- Nothing more is asked for. -/
  | done (ls : List Text) : Answers ls []
  /-- There is no line left, and never will be. -/
  | ended {answers : List (Except Error (Option Datum))} :
    Answers [] answers → Answers [] (.ok none :: answers)
  /-- The line is a scalar record. -/
  | accepted {l : Text} {ls : List Text} {x : Scalar}
      {answers : List (Except Error (Option Datum))} :
    scalar? l = some x → Answers ls answers → Answers (l :: ls) (.ok (some x.datum) :: answers)
  /-- The line is none, and the next one is tried. -/
  | refused {l : Text} {ls : List Text} {e : Error}
      {answers : List (Except Error (Option Datum))} :
    scalar? l = none → Refuses l e → ¬ Overlong l → Answers ls answers →
      Answers (l :: ls) (.error e :: answers)
  /-- No line comes after one that is too long. -/
  | stuck {l : Text} {ls : List Text} {e : Error} {es : List Error} :
    scalar? l = none → Refuses l e → Overlong l → (∀ e ∈ es, e.IsMalformed) →
      Answers (l :: ls) (.error e :: es.map .error)

end Line

namespace Lines

/-! ### Blank lines -/

theorem filled_cons (l : Text) (ls : List Text) :
    filled (l :: ls) = if (trimReturn l).isEmpty then filled ls else trimReturn l :: filled ls := by
  cases hl : (trimReturn l).isEmpty <;> simp [filled, hl]

theorem filled_append (ls ls' : List Text) : filled (ls ++ ls') = filled ls ++ filled ls' := by
  simp only [filled, List.map_append, List.filter_append]

theorem nextLine_none {n : Nat} {ls : List Text} (h : nextLine n ls = none) : filled ls = [] := by
  induction ls generalizing n with
  | nil => rfl
  | cons l ls ih =>
    rw [nextLine] at h
    rw [filled_cons]
    split at h
    · next hl => rw [if_pos hl, ih h]
    · cases h

/-- The next line is the first one that is not blank. -/
theorem nextLine_some {n line : Nat} {ls rest : List Text} {l : Text}
    (h : nextLine n ls = some (l, line, rest)) : filled ls = l :: filled rest := by
  induction ls generalizing n with
  | nil => cases h
  | cons first ls ih =>
    rw [nextLine] at h
    rw [filled_cons]
    split at h
    · next hl => rw [if_pos hl, ih h]
    · next hl =>
      cases h
      rw [if_neg hl]

/-- The empty piece behind the last line feed is a blank line like any other one. -/
theorem filled_split (t : Text) : filled (split t) = filled (Text.splitAtByte 10 t) := by
  unfold split
  dsimp only
  split
  · next hlast =>
    conv_rhs => rw [← List.dropLast_append_getLast? [] hlast, filled_append]
    exact (List.append_nil _).symm
  · rfl

/-! ### Payloads -/

/-- The step takes a token, if there is one, and gives what `parse` makes of its text. -/
def Parses {α : Type} (parse : Text → Option α) (f : Lines → Step Lines α) : Prop :=
  ∃ what, ∀ s, (f s).2 = (s.token what).2 ∧
    (f s).1.toOption = (s.token what).1.toOption.bind parse

variable {α β : Type} {parse : Text → Option α} {f : Lines → Step Lines α}

/-- What is done with the text of a token takes nothing more. -/
theorem parses_bind (what : Text) {g : Text → Lines → Step Lines α}
    (hg : ∀ t s, (g t s).2 = s ∧ (g t s).1.toOption = parse t) :
    Parses parse fun s => (s.token what).bind g := by
  refine ⟨what, fun s => ?_⟩
  dsimp only
  rcases s.token what with ⟨e | t, s'⟩
  · exact ⟨rfl, rfl⟩
  · exact hg t s'

theorem Parses.map (hf : Parses parse f) (g : α → β) :
    Parses (fun t => (parse t).map g) fun s => (f s).bind fun a s => (.ok (g a), s) := by
  obtain ⟨what, hf⟩ := hf
  refine ⟨what, fun s => ?_⟩
  obtain ⟨hs, ha⟩ := hf s
  have hmap := congrArg (Option.map g) ha
  rw [Option.map_bind] at hmap
  dsimp only
  rcases hstep : f s with ⟨e | a, s'⟩ <;> rw [hstep] at hs hmap
  · exact ⟨hs, hmap⟩
  · exact ⟨hs, hmap⟩

theorem parses_numeral (what reader : Text) (read : Text → Except NumeralFault α) :
    Parses (fun t => (read t).toOption) (numeral what reader read) :=
  parses_bind what fun t s => by
    cases read t <;> exact ⟨rfl, rfl⟩

theorem parses_color : Parses Color.parse? color :=
  parses_bind "color" fun t s => by
    dsimp only
    split
    · next digits =>
      rw [Color.parse?]
      by_cases hlen : digits.length = 8
      · rw [if_neg (not_not.mpr hlen), if_pos hlen]
        cases Numeral.hex? 0 digits <;> exact ⟨rfl, rfl⟩
      · rw [if_pos hlen, if_neg hlen]
        exact ⟨rfl, rfl⟩
    · next hmark =>
      rw [Color.parse?]
      · exact ⟨rfl, rfl⟩
      · exact hmark

/-- A payload is one token. -/
theorem payload_parses (type : ScalarType) : Parses type.parse? (payload type) := by
  cases type with
  | int => exact (parses_numeral _ _ _).map Scalar.int
  | real => exact (parses_numeral _ _ _).map Scalar.real
  | text => exact parses_bind _ fun t s => ⟨rfl, rfl⟩
  | bool => exact (parses_numeral _ _ _).map Scalar.bool
  | dateTime =>
    refine parses_bind _ fun t s => ?_
    rw [ScalarType.parse?]
    cases DateTime.read t <;> exact ⟨rfl, rfl⟩
  | timeSpan => exact (parses_numeral _ _ _).map Scalar.timeSpan
  | color => exact parses_color.map Scalar.color

theorem Parses.missing (hf : Parses parse f) {s : Lines} (hs : s.tokens = []) :
    ∃ e, f s = (.error e, s) := by
  obtain ⟨what, hf⟩ := hf
  have hfs := hf s
  unfold token at hfs
  rw [hs] at hfs
  rcases hstep : f s with ⟨e | a, s'⟩
  · rw [hstep] at hfs
    exact ⟨e, congrArg _ hfs.1⟩
  · rw [hstep] at hfs
    cases hfs.2

theorem Parses.took (hf : Parses parse f) {s : Lines} {b : Text} {tokens : List Text}
    (hs : s.tokens = b :: tokens) :
    (f s).2 = { s with tokens } ∧ (f s).1.toOption = (Token.unescape b).toOption.bind parse := by
  obtain ⟨what, hf⟩ := hf
  have hfs := hf s
  unfold token at hfs
  rw [hs] at hfs
  dsimp only at hfs
  cases hb : Token.unescape b with
  | error e =>
    rw [hb] at hfs
    exact hfs
  | ok u =>
    rw [hb] at hfs
    exact hfs

/-! ### One record -/

/-- Reads what comes behind a tag that announces a type. -/
def typed (type : ScalarType) (s : Lines) : Step Lines (Option Scalar) :=
  (s.payload type).bind fun x s => s.endRecord.bind fun _ s => (.ok (some x), s)

/-- Reads a record where no tags are known but the built-in ones. -/
def scalar (s : Lines) : Step Lines (Option Scalar) :=
  s.tag.bind fun found s =>
    match found with
    | none => (.ok none, s)
    | some tag =>
      match ScalarType.ofTag? tag with
      | some type => s.typed type
      | none => (.error (.unknownTag tag), s)

variable {s : Lines}

/-- With tokens left there is no next record. -/
theorem scalar_stuck (hs : s.tokens ≠ []) :
    s.scalar = (.error (s.fault "unterminated record" none), s) := by
  have htokens : ¬ s.tokens.isEmpty = true := fun h => hs (List.isEmpty_iff.mp h)
  rw [scalar, tag, if_neg htokens]
  rfl

/-- Behind the last line that is not blank the stream ends. -/
theorem scalar_end (hs : s.tokens = []) (hrest : filled s.rest = []) :
    s.scalar = (.ok none, { s with rest := [] }) := by
  cases hnext : nextLine s.line s.rest with
  | none =>
    rw [scalar, tag, if_pos (List.isEmpty_iff.mpr hs), hnext]
    rfl
  | some found =>
    obtain ⟨l, line, rest⟩ := found
    have := (nextLine_some hnext).symm.trans hrest
    cases this

/-- The first token of the next line is its tag. -/
theorem scalar_line {l a : Text} {tokens rest : List Text} {line : Nat} (hs : s.tokens = [])
    (hnext : nextLine s.line s.rest = some (l, line, rest))
    (hl : Text.splitAtByte 9 l = a :: tokens) : s.scalar = match Token.unescape a with
      | .error e =>
        (.error (.malformed ("reading " ++ "tag") line (some (.other e.message))),
          ⟨rest, tokens, line⟩)
      | .ok tag => match ScalarType.ofTag? tag with
        | some type => typed type ⟨rest, tokens, line⟩
        | none => (.error (.unknownTag tag), ⟨rest, tokens, line⟩) := by
  rw [scalar, tag, if_pos (List.isEmpty_iff.mpr hs), hnext]
  unfold token
  dsimp only
  rw [hl]
  dsimp only
  cases Token.unescape a <;> rfl

end Lines

/-- What the reader of a line gives, and the tokens of the line that it leaves. -/
inductive Line.Outcome (l : Text) : Except Error (Option Scalar) → List Text → Prop
  /-- The line is a scalar record, and is used up. -/
  | taken {x : Scalar} : scalar? l = some x → Outcome l (.ok (some x)) []
  /-- It is none; tokens of it are left if it has too many. -/
  | refused {e : Error} {tokens : List Text} :
    scalar? l = none → Refuses l e → (tokens ≠ [] ↔ Overlong l) → Outcome l (.error e) tokens

namespace Line

variable {l a : Text} {tokens : List Text}

theorem overlong_iff (hl : Text.splitAtByte 9 l = a :: tokens) :
    Overlong l ↔ ∃ b rest, tokens = b :: rest ∧ (type? a = none ∨ rest ≠ []) := by
  unfold Overlong
  rw [hl]
  constructor
  · rintro ⟨a, b, rest, heq, h⟩
    cases heq
    exact ⟨b, rest, rfl, h⟩
  · rintro ⟨b, rest, rfl, h⟩
    exact ⟨a, b, rest, rfl, h⟩

theorem scalar_none (hl : Text.splitAtByte 9 l = a :: tokens) (ha : type? a = none) :
    scalar? l = none := by
  unfold scalar?
  rw [hl]
  split
  · next heq =>
    cases heq
    rw [ha]
    rfl
  · rfl

/-- A tag that announces nothing ends the reading of its line. -/
theorem outcome_untyped {e : Error} (hl : Text.splitAtByte 9 l = a :: tokens)
    (ha : type? a = none) (he : Refuses l e) : Outcome l (.error e) tokens := by
  refine .refused (scalar_none hl ha) he ?_
  rw [overlong_iff hl, List.ne_nil_iff_exists_cons]
  exact exists_congr fun b => exists_congr fun rest => ⟨fun h => ⟨h, .inl ha⟩, And.left⟩

/-- Behind a tag that announces a type there is one token for its payload. -/
theorem outcome_typed {type : ScalarType} {s : Lines}
    (hl : Text.splitAtByte 9 l = a :: s.tokens) (ha : type? a = some type) :
    ∃ left, (s.typed type).2 = { s with tokens := left } ∧ Outcome l (s.typed type).1 left := by
  have hparses := Lines.payload_parses type
  have hfailure := (Lines.payload_tame type (le_refl s.size)).failure
  cases htokens : s.tokens with
  | nil =>
    obtain ⟨e, hstep⟩ := hparses.missing htokens
    rw [hstep] at hfailure
    rw [htokens] at hl
    rw [Lines.typed, hstep]
    refine ⟨[], by rw [← htokens]; rfl, .refused ?_ (.inl (hfailure e rfl)) ?_⟩
    · rw [scalar?, hl]
    · rw [overlong_iff hl]
      exact ⟨fun h => absurd rfl h, nofun⟩
  | cons b rest =>
    obtain ⟨hleft, hpayload⟩ := hparses.took htokens
    rw [htokens] at hl
    have hscalar : rest = [] → scalar? l = (s.payload type).1.toOption := by
      rintro rfl
      rw [hpayload, scalar?, hl]
      dsimp only
      rw [ha]
      rfl
    have hlong : scalar? l = none ∨ rest = [] := by
      by_cases hrest : rest = []
      · exact .inr hrest
      · obtain ⟨c, more, rfl⟩ := List.exists_cons_of_ne_nil hrest
        refine .inl ?_
        rw [scalar?, hl]
    have hover : rest ≠ [] ↔ Overlong l := by
      rw [overlong_iff hl]
      refine ⟨fun h => ⟨b, rest, rfl, .inr h⟩, ?_⟩
      rintro ⟨_, _, heq, hnone | h⟩
      · rw [ha] at hnone
        cases hnone
      · cases heq
        exact h
    rcases hstep : s.payload type with ⟨e | x, t⟩ <;> rw [hstep] at hleft hfailure hscalar
    · obtain rfl : t = { s with tokens := rest } := hleft
      rw [Lines.typed, hstep]
      refine ⟨rest, rfl, .refused (hlong.elim id hscalar) (.inl (hfailure e rfl)) hover⟩
    · obtain rfl : t = { s with tokens := rest } := hleft
      rw [Lines.typed, hstep]
      cases rest with
      | nil => exact ⟨[], rfl, .taken (hscalar rfl)⟩
      | cons c more =>
        refine ⟨c :: more, rfl, .refused ?_ (.inl (Lines.isMalformed_fault _ _ _)) hover⟩
        exact hlong.resolve_right (List.cons_ne_nil c more)

/-- **The next line that is not blank** is a record, or it is refused. Tokens of it are left if it
is too long. -/
theorem scalar_outcome {s : Lines} {ls : List Text} (hs : s.tokens = [])
    (hrest : Lines.filled s.rest = l :: ls) :
    ∃ s', s.scalar.2 = s' ∧ Lines.filled s'.rest = ls ∧ Outcome l s.scalar.1 s'.tokens := by
  cases hnext : Lines.nextLine s.line s.rest with
  | none =>
    have := (Lines.nextLine_none hnext).symm.trans hrest
    cases this
  | some found =>
    obtain ⟨first, line, rest⟩ := found
    obtain ⟨rfl, hls⟩ := List.cons.inj (hrest.symm.trans (Lines.nextLine_some hnext))
    obtain ⟨a, tokens, hl⟩ := List.exists_cons_of_ne_nil (Text.splitAtByte_ne_nil 9 l)
    have hscalar := Lines.scalar_line hs hnext hl
    cases ha : Token.unescape a with
    | error e =>
      have htype : type? a = none := by rw [type?, ha]; rfl
      rw [ha] at hscalar
      rw [hscalar]
      exact ⟨_, rfl, hls.symm, outcome_untyped hl htype (.inl ⟨_, _, _, rfl⟩)⟩
    | ok tag =>
      have htype : type? a = ScalarType.ofTag? tag := by rw [type?, ha]; rfl
      rw [ha] at hscalar
      dsimp only at hscalar
      cases hof : ScalarType.ofTag? tag with
      | none =>
        rw [hof] at hscalar htype
        rw [hscalar]
        refine ⟨_, rfl, hls.symm, outcome_untyped hl htype (.inr ?_)⟩
        exact ⟨a, tokens, tag, hl, ha, hof, rfl⟩
      | some type =>
        rw [hof] at hscalar htype
        rw [hscalar]
        obtain ⟨left, hleft, hout⟩ := @outcome_typed l a type ⟨rest, tokens, line⟩ hl htype
        exact ⟨_, hleft, hls.symm, hout⟩

end Line

/-! ### Streams -/

namespace Reader

open Line (Answers Refuses Overlong Outcome)

variable {r : Reader} {ls : List Text} {h : Heap}

/-- Behind the tag of a line comes what its type tells. -/
theorem exec_readTagged (version : Int) (fuel : Nat) (tag : Text) (s : Lines) (h : Heap) :
    (readTagged Catalog.base version fuel tag).exec ⟨.lines s, h⟩ = match ScalarType.ofTag? tag with
      | some type =>
        ((s.typed type).1.map (Option.map Scalar.datum), ⟨.lines (s.typed type).2, h⟩)
      | none => (.error (.unknownTag tag), ⟨.lines s, h⟩) := by
  unfold readTagged
  cases ScalarType.ofTag? tag with
  | none => rfl
  | some type =>
    dsimp only
    rw [Reading.exec_bind, Reading.exec_step, Lines.typed]
    simp only [Decoder.payload, Step.map]
    rcases s.payload type with ⟨e | x, s₁⟩
    · rfl
    · dsimp only [Step.bind]
      rw [Reading.exec_bind, Reading.exec_step]
      simp only [Decoder.endRecord, Step.map]
      rcases s₁.endRecord with ⟨e | _, s₂⟩
      · rfl
      · rfl

theorem next_lines {s : Lines} (hcatalog : r.catalog = Catalog.base) (hs : r.decoder = .lines s)
    (h : Heap) : r.next h = (s.scalar.1.map (Option.map Scalar.datum),
      { r with decoder := .lines s.scalar.2 }, h) := by
  have hexec : r.record.exec ⟨r.decoder, h⟩
      = (s.scalar.1.map (Option.map Scalar.datum), ⟨.lines s.scalar.2, h⟩) := by
    rw [record, hcatalog, hs, readRecord_succ, Reading.exec_bind, Reading.exec_step, Lines.scalar]
    simp only [Decoder.tag, Step.map]
    rcases s.tag with ⟨e | (_ | tag), s₁⟩
    · rfl
    · rfl
    · dsimp only
      rw [exec_readTagged]
      simp only [Step.bind]
      cases ScalarType.ofTag? tag <;> rfl
  rw [next_exec, hexec]

/-- The reader stands in front of some lines, apart from blank ones, and tokens of the line before
them are left. -/
structure Facing (r : Reader) (tokens ls : List Text) : Prop where
  /-- It knows scalars alone. -/
  catalog : r.catalog = Catalog.base
  /-- These tokens and lines are left. -/
  decoder : ∃ s, r.decoder = .lines s ∧ s.tokens = tokens ∧ Lines.filled s.rest = ls

theorem nextAll_resume {α : Type} (next : Reader → Heap → Except Error (Option α) × Reader × Heap)
    (limit : Nat) (r : Reader) (h : Heap) : nextAll next true (limit + 1) r h =
      ((next r h).1 :: (nextAll next true limit (next r h).2.1 (next r h).2.2).1,
        (nextAll next true limit (next r h).2.1 (next r h).2.2).2) := by
  rw [nextAll]
  rcases next r h with ⟨e | (_ | a), r', h'⟩ <;> rfl

/-- **A reader with tokens left stays where it is.** -/
theorem nextAll_stuck {tokens : List Text} (hr : r.Facing tokens ls) (htokens : tokens ≠ [])
    (h : Heap) (limit : Nat) : ∃ es : List Error,
      nextAll next true limit r h = (es.map .error, h) ∧ es.length = limit ∧
        ∀ e ∈ es, e.IsMalformed := by
  obtain ⟨hcatalog, s, hs, rfl, -⟩ := hr
  have hnext : r.next h = (.error (s.fault "unterminated record" none), r, h) := by
    rw [next_lines hcatalog hs, Lines.scalar_stuck htokens, ← hs]
    rfl
  induction limit with
  | zero => exact ⟨[], rfl, rfl, nofun⟩
  | succ limit ih =>
    obtain ⟨es, hall, hlen, hes⟩ := ih
    refine ⟨s.fault "unterminated record" none :: es, ?_, congrArg Nat.succ hlen, ?_⟩
    · rw [nextAll_resume, hnext, hall]
      rfl
    · exact List.forall_mem_cons.mpr ⟨Lines.isMalformed_fault _ _ _, hes⟩

/-- The answers of a reader between two lines. The induction is on the number of reads: each one
takes a line, or finds none, or leaves tokens of it. -/
theorem nextAll_answers (hr : r.Facing [] ls) (h : Heap) (limit : Nat) :
    ∃ answers, nextAll next true limit r h = (answers, h) ∧ answers.length = limit ∧
      Answers ls answers := by
  induction limit generalizing r ls with
  | zero => exact ⟨[], rfl, rfl, .done ls⟩
  | succ limit ih =>
    obtain ⟨hcatalog, s, hs, htokens, hrest⟩ := hr
    have hnext := next_lines hcatalog hs h
    rw [nextAll_resume, hnext]
    cases ls with
    | nil =>
      rw [Lines.scalar_end htokens hrest]
      obtain ⟨answers, hall, hlen, hanswers⟩ :=
        @ih { r with decoder := .lines { s with rest := [] } } [] ⟨hcatalog, _, rfl, htokens, rfl⟩
      exact ⟨.ok none :: answers, by rw [hall]; rfl, congrArg Nat.succ hlen, .ended hanswers⟩
    | cons l ls =>
      obtain ⟨s', hs', hls, hout⟩ := Line.scalar_outcome htokens hrest
      rw [hs']
      revert hout
      generalize s.scalar.1 = a
      generalize hleft : s'.tokens = left
      intro hout
      cases hout with
      | @taken x hx =>
        obtain ⟨answers, hall, hlen, hanswers⟩ :=
          @ih { r with decoder := .lines s' } ls ⟨hcatalog, _, rfl, hleft, hls⟩
        refine ⟨.ok (some x.datum) :: answers, by rw [hall]; rfl, congrArg Nat.succ hlen, ?_⟩
        exact .accepted hx hanswers
      | @refused e _ hx he hover =>
        by_cases hlong : Overlong l
        · obtain ⟨es, hall, hlen, hes⟩ := @nextAll_stuck { r with decoder := .lines s' } ls left
            ⟨hcatalog, _, rfl, hleft, hls⟩ (hover.mpr hlong) h limit
          refine ⟨.error e :: es.map .error, by rw [hall]; rfl, ?_, .stuck hx he hlong hes⟩
          rw [List.length_cons, List.length_map, hlen]
        · obtain rfl : left = [] := not_not.mp (mt hover.mp hlong)
          obtain ⟨answers, hall, hlen, hanswers⟩ :=
            @ih { r with decoder := .lines s' } ls ⟨hcatalog, _, rfl, hleft, hls⟩
          refine ⟨.error e :: answers, by rw [hall]; rfl, congrArg Nat.succ hlen, ?_⟩
          exact .refused hx he hlong hanswers

end Reader

/-- **Text is read by its lines.** However many reads there are and whatever they answered before,
each one answers for the next line that is not blank: it gives its payload if the line is a record
and is refused otherwise. Behind a line that is too long every read is refused. -/
theorem lines_answered {t : Text} (ht : Reader.detect t = .text) :
    ∃ r, Reader.start Catalog.base t = .ok r ∧ r.mode = .text ∧ ∀ h limit, ∃ answers,
      Reader.nextAll Reader.next true limit r h = (answers, h) ∧ answers.length = limit ∧
        Line.Answers (Lines.filled (Text.splitAtByte 10 t)) answers := by
  refine ⟨⟨.text, Stream.version, [], Catalog.base, .lines (Lines.ofText t)⟩, ?_, rfl,
    fun h n => ?_⟩
  · rw [Reader.start, ht]
  · exact Reader.nextAll_answers ⟨rfl, _, rfl, rfl, Lines.filled_split t⟩ h n

/-- A record, a blank line, a payload that is no truth value, and a line with a third token, which
nothing is read behind. -/
theorem lines_answered_mixed :
    Reader.detect "int\t5\n\r\nbool\tyes\r\nreal\t1\t2\nint\t7" = .text ∧
    ∃ r, Reader.start Catalog.base "int\t5\n\r\nbool\tyes\r\nreal\t1\t2\nint\t7" = .ok r ∧
      r.mode = .text ∧ ∀ h limit, ∃ answers,
        Reader.nextAll Reader.next true limit r h = (answers, h) ∧ answers.length = limit ∧
          Line.Answers ["int\t5", "bool\tyes", "real\t1\t2", "int\t7"] answers := by
  have ht : Reader.detect "int\t5\n\r\nbool\tyes\r\nreal\t1\t2\nint\t7" = .text := by
    decide +kernel
  have hlines :
      Lines.filled (Text.splitAtByte 10 "int\t5\n\r\nbool\tyes\r\nreal\t1\t2\nint\t7")
        = ([Text.ofString "int\t5", "bool\tyes", "real\t1\t2", "int\t7"] : List Text) := by
    decide +kernel
  have hanswers := lines_answered ht
  rw [hlines] at hanswers
  exact ⟨ht, hanswers⟩

end Reckoner
