import Reckoner.Proofs.Makers

/-!
# Reading does not look ahead

What a reader takes off a stream and what it makes of it does not depend on what follows. Two
streams are alike if they have the same bytes, or lines, in front of their tails. If a reader ends
with a result on the first of them and leaves at least its tail, which is not empty, then on the
second one it ends with the same result and leaves just as much in front of that tail. So a record
is read in the middle of any stream as it is read in the middle of one, and also at the end of a
stream, or where the stream is cut off somewhere behind it.

Readers put together only take steps of decoders, so what is shown for these holds for the reader
of records under every relation between streams that the steps preserve.
-/

namespace Reckoner

/-! ### Steps -/

namespace Step

variable {σ α β : Type} {alike : σ → σ → Prop} {size : σ → Nat} {lo hi : Nat}

/-- The steps `f` gain nothing. Where one of them, from a state of a size up to `hi`, gives a result
and leaves at least `lo`, the step `g` from a state that is alike gives the same result and leaves
one that is alike. -/
structure Local (alike : σ → σ → Prop) (size : σ → Nat) (lo hi : Nat) (f g : σ → Step σ α) :
    Prop where
  /-- A step gains nothing. -/
  size_le : ∀ s, size (f s).2 ≤ size s
  /-- A step that leaves enough is followed by the same step from the other state. -/
  follows : ∀ {s s' a t}, alike s s' → size s ≤ hi → f s = (.ok a, t) → lo ≤ size t →
    ∃ t', g s' = (.ok a, t') ∧ alike t t'

theorem local_ok (a : α) : Local alike size lo hi (fun s => (.ok a, s)) fun s => (.ok a, s) where
  size_le _ := le_rfl
  follows hs _ ha _ := by
    cases ha
    exact ⟨_, rfl, hs⟩

theorem local_error (e e' : σ → Error) :
    Local alike size lo hi (fun s => ((.error (e s), s) : Step σ α))
      fun s => (.error (e' s), s) where
  size_le _ := le_rfl
  follows _ _ ha _ := by cases ha

/-- One step after another: the second one leaves no more than the first one. -/
theorem Local.bind {f g : σ → Step σ α} {next next' : α → σ → Step σ β}
    (hf : Local alike size lo hi f g) (hnext : ∀ a, Local alike size lo hi (next a) (next' a)) :
    Local alike size lo hi (fun s => (f s).bind next) fun s => (g s).bind next' where
  size_le s := by
    have hle := hf.size_le s
    rcases hs : f s with ⟨e | a, t⟩
    · rw [hs] at hle
      exact hle
    · rw [hs] at hle
      exact ((hnext a).size_le t).trans hle
  follows {s s' b t} hs hhi hb hlo := by
    have hle := hf.size_le s
    rcases hfirst : f s with ⟨e | a, u⟩
    · rw [hfirst] at hb
      cases hb
    · rw [hfirst] at hb hle
      have hrest : next a u = (.ok b, t) := hb
      have hlo' : lo ≤ size u := by
        have := (hnext a).size_le u
        rw [hrest] at this
        exact hlo.trans this
      obtain ⟨u', hu', halike⟩ := hf.follows hs hhi hfirst hlo'
      obtain ⟨t', ht', halike'⟩ := (hnext a).follows halike (hle.trans hhi) hrest hlo
      exact ⟨t', by rw [hu']; exact ht', halike'⟩

end Step

open Step (Local local_ok local_error)

/-! ### Packed streams -/

theorem Varint.decodeFrom_local {left index soFar m : Nat} {front u rest : Text} (u' : Text)
    (h : decodeFrom left index soFar (front ++ u) = .value m rest) (hle : u.length ≤ rest.length) :
    ∃ front', rest = front' ++ u ∧
      decodeFrom left index soFar (front ++ u') = .value m (front' ++ u') := by
  induction left generalizing index soFar front with
  | zero => cases h
  | succ left ih =>
    cases front with
    | nil =>
      have hwithin := decodeFrom_within (left + 1) index soFar u
      rw [List.nil_append] at h
      rw [h] at hwithin
      exact absurd hwithin (Nat.not_lt.mpr hle)
    | cons b front =>
      rw [List.cons_append, decodeFrom] at h ⊢
      by_cases hb : b < 128
      · rw [if_pos hb] at h ⊢
        by_cases hlast : (index = 9 && 1 < b) = true
        · rw [if_pos hlast] at h
          cases h
        · rw [if_neg hlast] at h ⊢
          cases h
          exact ⟨front, rfl, rfl⟩
      · rw [if_neg hb] at h ⊢
        exact ih h

namespace Packed

/-- The streams have the same bytes in front of their tails. -/
def Alike (u u' : Text) (p p' : Packed) : Prop :=
  ∃ front, p = ⟨front ++ u, none⟩ ∧ p' = ⟨front ++ u', none⟩

variable {u u' : Text} {hi : Nat}

/-- Steps of packed streams that do not look ahead. -/
abbrev Local {α : Type} (u u' : Text) (hi : Nat) (f : Packed → Step Packed α) : Prop :=
  Step.Local (Alike u u') size u.length hi f f

theorem take_local (what : Text) (n : Nat) : Local u u' hi (take what n) where
  size_le p := (take_tame what n le_rfl).size_le
  follows := by
    rintro _ _ a t ⟨front, rfl, rfl⟩ - ha hle
    unfold take at ha ⊢
    dsimp only at ha ⊢
    split at ha
    · cases ha
    · next hlen =>
      cases ha
      simp only [size, List.length_drop, List.length_append, List.length_take, not_lt] at hle hlen
      have hn : n ≤ front.length := by omega
      have htake : ∀ v : Text, (front ++ v).take n = front.take n := fun v =>
        List.take_append_of_le_length hn
      have hdrop : ∀ v : Text, (front ++ v).drop n = front.drop n ++ v := fun v =>
        List.drop_append_of_le_length hn
      rw [htake, htake, hdrop, hdrop, if_neg (by rw [List.length_take]; omega)]
      exact ⟨_, rfl, front.drop n, rfl, rfl⟩

theorem varint_local (what : Text) : Local u u' hi (varint what) where
  size_le p := (varint_tame what le_rfl).size_le
  follows := by
    rintro _ _ a t ⟨front, rfl, rfl⟩ - ha hle
    unfold varint at ha ⊢
    cases hdecode : Varint.decode (front ++ u) with
    | ended =>
      rw [hdecode] at ha
      cases ha
    | overflow rest =>
      rw [hdecode] at ha
      cases ha
    | value m rest =>
      rw [hdecode] at ha
      cases ha
      obtain ⟨front', hrest, hdecode'⟩ := Varint.decodeFrom_local u' hdecode hle
      have hdecode' : Varint.decode (front ++ u') = .value _ (front' ++ u') := hdecode'
      rw [hdecode']
      exact ⟨_, rfl, front', by rw [hrest], rfl⟩

theorem sized_local (what : Text) : Local u u' hi (sized what) := by
  refine (varint_local what).bind fun n => ?_
  by_cases hn : maxToken < n
  · simp only [if_pos hn]
    exact local_error _ _
  · simp only [if_neg hn]
    exact take_local what n

/-- Where there are bytes, there is a tag or an error. -/
theorem tag_cons (b : UInt8) (rest : Text) :
    tag ⟨b :: rest, none⟩ = (sized "tag" ⟨b :: rest, none⟩).bind fun t p => (.ok (some t), p) := rfl

/-- A tag is taken from what is in front of a tail, if the tail is not empty. -/
theorem tag_local (hu : u ≠ []) : Local u u' hi tag where
  size_le p := (tag_tame le_rfl).size_le
  follows := by
    rintro _ _ a t ⟨front, rfl, rfl⟩ hhi ha hle
    cases front with
    | nil =>
      obtain ⟨b, v, rfl⟩ := List.exists_cons_of_ne_nil hu
      have hlt : ∀ x, a = some x → t.size < (b :: v).length := fun x hx => by
        have hok : (tag ⟨b :: v, none⟩).1 = .ok (some x) := by rw [← hx]; exact congrArg Prod.fst ha
        have hsize := tag_lt hok
        rwa [show tag ⟨b :: v, none⟩ = (.ok a, t) from ha] at hsize
      rw [List.nil_append, tag_cons] at ha
      rcases hsized : sized "tag" ⟨b :: v, none⟩ with ⟨e | x, q⟩
      · rw [hsized] at ha
        cases ha
      · rw [hsized] at ha
        cases ha
        exact absurd (hlt x rfl) (Nat.not_lt.mpr hle)
    | cons b front =>
      exact ((sized_local "tag").bind fun t => local_ok (some t)).follows ⟨b :: front, rfl, rfl⟩
        hhi ha hle

theorem payload_local (type : ScalarType) : Local u u' hi (payload type) := by
  cases type with
  | int => exact (varint_local _).bind fun n => local_ok _
  | real => exact (take_local _ 8).bind fun t => local_ok _
  | text => exact (sized_local _).bind fun t => local_ok _
  | bool =>
    change Local u u' hi fun p => payload .bool p
    unfold payload
    refine (take_local "bool" 1).bind fun t => ?_
    split
    · exact local_ok _
    · exact local_ok _
    · exact local_error _ _
  | dateTime =>
    change Local u u' hi fun p => payload .dateTime p
    unfold payload
    refine (sized_local "datetime").bind fun t => ?_
    split
    · exact local_ok _
    · exact local_error _ _
  | timeSpan => exact (varint_local _).bind fun n => local_ok _
  | color =>
    change Local u u' hi fun p => payload .color p
    unfold payload
    refine (take_local "color" 4).bind fun t => ?_
    split
    · exact local_ok _
    · exact local_error _ _

end Packed

/-! ### Text streams -/

namespace Lines

/-- The streams have the same tokens of a line, and behind it lines that are related. -/
def Alike (related : List Text → List Text → Prop) (s s' : Lines) : Prop :=
  ∃ rest rest' tokens n n', s = ⟨rest, tokens, n⟩ ∧ s' = ⟨rest', tokens, n'⟩ ∧ related rest rest'

/-- There are the same lines in front of the tails. -/
def Fronted (u u' rest rest' : List Text) : Prop :=
  ∃ front, rest = front ++ u ∧ rest' = front ++ u'

variable {related : List Text → List Text → Prop} {u u' : List Text} {lo hi : Nat}

/-- Steps of text streams that do not look ahead. -/
abbrev Local {α : Type} (related : List Text → List Text → Prop) (lo hi : Nat)
    (f : Lines → Step Lines α) : Prop :=
  Step.Local (Alike related) size lo hi f f

theorem token_local (what : Text) : Local related lo hi (token what) where
  size_le s := (token_tame what le_rfl).size_le
  follows := by
    rintro _ _ a t ⟨rest, rest', tokens, n, n', rfl, rfl, hrest⟩ - ha -
    unfold token at ha ⊢
    cases tokens with
    | nil => cases ha
    | cons w tokens =>
      dsimp only at ha ⊢
      cases hw : Token.unescape w with
      | error e =>
        rw [hw] at ha
        cases ha
      | ok v =>
        rw [hw] at ha
        cases ha
        exact ⟨_, rfl, rest, rest', tokens, n, n', rfl, rfl, hrest⟩

theorem nextLine_local {front : List Text} {n line : Nat} {l : Text} {rest : List Text}
    (h : nextLine n (front ++ u) = some (l, line, rest)) (hle : u.length ≤ rest.length)
    (u' : List Text) (n' : Nat) : ∃ front' line', rest = front' ++ u ∧
      nextLine n' (front ++ u') = some (l, line', front' ++ u') := by
  induction front generalizing n n' with
  | nil => exact absurd (nextLine_lt h) (Nat.not_lt.mpr hle)
  | cons first front ih =>
    rw [List.cons_append, nextLine] at h ⊢
    by_cases hblank : (trimReturn first).isEmpty = true
    · rw [if_pos hblank] at h ⊢
      exact ih h (n' + 1)
    · rw [if_neg hblank] at h ⊢
      cases h
      exact ⟨front, n' + 1, rfl, rfl⟩

/-- A tag is taken from a line in front of the tail, if the tail is not empty. -/
theorem tag_local (hu : u ≠ []) : Local (Fronted u u') u.length hi tag where
  size_le s := (tag_cases s).1.size_le
  follows := by
    rintro _ _ a t ⟨_, _, tokens, n, n', rfl, rfl, front, rfl, rfl⟩ hhi ha hle
    unfold tag at ha ⊢
    by_cases htokens : tokens.isEmpty = true
    · rw [if_pos htokens] at ha ⊢
      dsimp only at ha ⊢
      cases hnext : nextLine n (front ++ u) with
      | none =>
        rw [hnext] at ha
        cases ha
        exact absurd (List.length_eq_zero_iff.mp (Nat.le_zero.mp hle)) hu
      | some found =>
        obtain ⟨l, line, rest⟩ := found
        rw [hnext] at ha
        dsimp only at ha
        have hstep : Local (Fronted u u') u.length rest.length fun s =>
            (token "tag" s).bind fun t s => (.ok (some t), s) :=
          (token_local "tag").bind fun t => local_ok (some t)
        have hrest : u.length ≤ rest.length := by
          have hsize := hstep.size_le ⟨rest, Text.splitAtByte 9 l, line⟩
          rw [ha] at hsize
          exact hle.trans hsize
        obtain ⟨front', line', rfl, hnext'⟩ := nextLine_local hnext hrest u' n'
        rw [hnext']
        exact hstep.follows ⟨_, _, _, line, line', rfl, rfl, front', rfl, rfl⟩ le_rfl ha hle
    · rw [if_neg htokens] at ha
      cases ha

theorem numeral_local {α : Type} (what reader : Text) (read : Text → Except NumeralFault α) :
    Local related lo hi (numeral what reader read) := by
  refine (token_local what).bind fun t => ?_
  cases read t with
  | ok a => exact local_ok a
  | error e => exact local_error _ _

theorem color_local : Local related lo hi color := by
  refine (token_local "color").bind fun t => ?_
  split
  · split
    · exact local_error _ _
    · split
      · exact local_ok _
      · exact local_error _ _
  · exact local_error _ _

theorem payload_local (type : ScalarType) : Local related lo hi (payload type) := by
  cases type with
  | int => exact (numeral_local _ _ _).bind fun n => local_ok _
  | real => exact (numeral_local _ _ _).bind fun x => local_ok _
  | text => exact (token_local _).bind fun t => local_ok _
  | bool => exact (numeral_local _ _ _).bind fun b => local_ok _
  | dateTime =>
    change Local related lo hi fun s => payload .dateTime s
    unfold payload
    refine (token_local "datetime").bind fun t => ?_
    cases DateTime.read t with
    | ok d => exact local_ok _
    | error e => exact local_error _ _
  | timeSpan => exact (numeral_local _ _ _).bind fun n => local_ok _
  | color => exact color_local.bind fun c => local_ok _

theorem endRecord_local : Local related lo hi endRecord where
  size_le s := (endRecord_tame le_rfl).size_le
  follows := by
    rintro _ _ a t ⟨rest, rest', tokens, n, n', rfl, rfl, hrest⟩ - ha -
    unfold endRecord at ha ⊢
    cases tokens with
    | nil =>
      cases ha
      exact ⟨_, rfl, rest, rest', [], n, n', rfl, rfl, hrest⟩
    | cons w tokens => cases ha

end Lines

/-! ### Decoders -/

/-- The decoders have the same bytes, or lines, in front of the tails `t` and `t'`. -/
inductive Decoder.Alike : (t t' d d' : Decoder) → Prop
  /-- Packed streams with the same bytes in front. -/
  | packed {u u' : Text} {p p' : Packed} : Packed.Alike u u' p p' →
    Alike (.packed ⟨u, none⟩) (.packed ⟨u', none⟩) (.packed p) (.packed p')
  /-- Text streams with the same lines in front. -/
  | lines {u u' : List Text} {k k' : Nat} {s s' : Lines} : Lines.Alike (Lines.Fronted u u') s s' →
    Alike (.lines ⟨u, [], k⟩) (.lines ⟨u', [], k'⟩) (.lines s) (.lines s')

namespace Decoder

variable {t t' d d' : Decoder} {hi : Nat}

theorem Alike.size_le (h : Alike t t' d d') : t.size ≤ d.size := by
  cases h with
  | packed h =>
    obtain ⟨front, rfl, -⟩ := h
    simp [size]
  | lines h =>
    obtain ⟨_, _, tokens, n, n', rfl, -, front, rfl, -⟩ := h
    simp [size]

/-- What is like a packed tail on one side is the tail on the other one. -/
theorem Alike.packed_tail {u u' : Text}
    (h : Alike (.packed ⟨u, none⟩) (.packed ⟨u', none⟩) (.packed ⟨u, none⟩) d) :
    d = .packed ⟨u', none⟩ := by
  cases h with
  | packed h =>
    obtain ⟨front, hfront, rfl⟩ := h
    rw [List.self_eq_append_left.mp (Packed.mk.inj hfront).1, List.nil_append]

/-- Steps of decoders that do not look ahead. -/
abbrev Local {α : Type} (t t' : Decoder) (hi : Nat) (f : Decoder → Step Decoder α) : Prop :=
  Step.Local (Alike t t') size t.size hi f f

/-- A step that does not look ahead in either layout does not look ahead. -/
theorem local_of {α : Type} {f : Decoder → Step Decoder α} {fp : Packed → Step Packed α}
    {fl : Lines → Step Lines α} (hp : ∀ p, f (.packed p) = (fp p).map packed)
    (hl : ∀ s, f (.lines s) = (fl s).map lines) (ht : 0 < t.size)
    (hpacked : ∀ u u', u ≠ [] → Packed.Local u u' hi fp)
    (hlines : ∀ u u', u ≠ [] → Lines.Local (Lines.Fronted u u') u.length hi fl) :
    Local t t' hi f where
  size_le d := by
    cases d with
    | packed p =>
      rw [hp]
      exact (hpacked [0] [] (List.cons_ne_nil _ _)).size_le p
    | lines s =>
      rw [hl]
      exact (hlines [[]] [] (List.cons_ne_nil _ _)).size_le s
  follows {d d' a e} hd hhi ha hle := by
    cases hd with
    | @packed u u' p p' hpp =>
      rw [hp] at ha ⊢
      cases hstep : fp p with
      | mk r q =>
        rw [hstep] at ha
        cases ha
        obtain ⟨q', hq', hqq⟩ :=
          (hpacked u u' (List.length_pos_iff.mp ht)).follows hpp hhi hstep hle
        exact ⟨.packed q', by rw [hq']; rfl, .packed hqq⟩
    | @lines u u' k k' s s' hss =>
      rw [hl] at ha ⊢
      cases hstep : fl s with
      | mk r q =>
        rw [hstep] at ha
        cases ha
        obtain ⟨q', hq', hqq⟩ :=
          (hlines u u' (List.length_pos_iff.mp ht)).follows hss hhi hstep hle
        exact ⟨.lines q', by rw [hq']; rfl, .lines hqq⟩

theorem tag_local (ht : 0 < t.size) : Local t t' hi tag :=
  local_of (fun _ => rfl) (fun _ => rfl) ht (fun _ _ => Packed.tag_local)
    fun _ _ => Lines.tag_local

theorem payload_local (type : ScalarType) (ht : 0 < t.size) : Local t t' hi (payload type) :=
  local_of (fun _ => rfl) (fun _ => rfl) ht (fun _ _ _ => Packed.payload_local type)
    fun _ _ _ => Lines.payload_local type

theorem endRecord_local (ht : 0 < t.size) : Local t t' hi endRecord :=
  local_of (fun _ => rfl) (fun _ => rfl) ht (fun _ _ _ => local_ok ()) fun _ _ _ =>
    Lines.endRecord_local

/-- Decoders that are alike stay so with every step that leaves at least `lo`. -/
structure Transfers (alike : Decoder → Decoder → Prop) (lo : Nat) : Prop where
  /-- Decoders that are alike have at least `lo` left. -/
  size_le : ∀ {d d'}, alike d d' → lo ≤ d.size
  /-- Reading a tag keeps them alike. -/
  tag : ∀ hi, Step.Local alike size lo hi tag tag
  /-- So does reading a payload. -/
  payload : ∀ type hi, Step.Local alike size lo hi (payload type) (payload type)
  /-- So does reaching the end of a record. -/
  endRecord : ∀ hi, Step.Local alike size lo hi endRecord endRecord

/-- No step looks ahead to a tail that is not empty. -/
theorem transfers_tail (t' : Decoder) (ht : 0 < t.size) : Transfers (Alike t t') t.size where
  size_le := Alike.size_le
  tag _ := tag_local ht
  payload type _ := payload_local type ht
  endRecord _ := endRecord_local ht

end Decoder

/-! ### Readers put together -/

namespace Reading

/-- The streams are alike, and the heaps are the same. -/
def Alike (alike : Decoder → Decoder → Prop) (cur cur' : Cursor) : Prop :=
  alike cur.decoder cur'.decoder ∧ cur.heap = cur'.heap

variable {α β : Type} {alike : Decoder → Decoder → Prop} {lo hi : Nat}

/-- Where the reader `x` gives a result, `y` does as it does. -/
abbrev Local (alike : Decoder → Decoder → Prop) (lo hi : Nat) (x y : Reading α) : Prop :=
  Step.Local (Alike alike) (·.decoder.size) lo hi x.exec y.exec

theorem exec_bind_step (x : Reading α) (f : α → Reading β) :
    exec (x >>= f) = fun cur => Step.bind (exec x cur) fun a => exec (f a) := by
  funext cur
  rw [exec_bind]
  rcases exec x cur with ⟨e | a, cur'⟩
  · rfl
  · rfl

theorem Local.bind {x y : Reading α} {f g : α → Reading β} (hx : Local alike lo hi x y)
    (hf : ∀ a, Local alike lo hi (f a) (g a)) : Local alike lo hi (x >>= f) (y >>= g) := by
  unfold Local
  rw [exec_bind_step, exec_bind_step]
  exact Step.Local.bind hx hf

theorem local_pure (a : α) : Local alike lo hi (pure a) (pure a) := local_ok a

theorem local_throw (e e' : Error) : Local alike lo hi (throw e : Reading α) (throw e') :=
  local_error (fun _ => e) fun _ => e'

theorem local_result (r : Except Error α) : Local alike lo hi (result r) (result r) := by
  cases r with
  | ok a => exact local_pure a
  | error e => exact local_throw e e

theorem local_step {f : Decoder → Step Decoder α} (hf : Step.Local alike Decoder.size lo hi f f) :
    Local alike lo hi (step f) (step f) where
  size_le cur := hf.size_le cur.decoder
  follows {cur cur' a out} hcur hhi ha hle := by
    rw [exec_step] at ha ⊢
    cases hstep : f cur.decoder with
    | mk r d =>
      rw [hstep] at ha
      cases ha
      obtain ⟨d', hd', halike⟩ := hf.follows hcur.1 hhi hstep hle
      exact ⟨⟨d', cur'.heap⟩, by rw [hd'], halike, hcur.2⟩

/-- A reader that looks at the heap, which is the same on both sides. -/
theorem local_heap {f g : Heap → Reading α} (hf : ∀ h, Local alike lo hi (f h) (g h)) :
    Local alike lo hi (heap >>= f) (heap >>= g) where
  size_le cur := by
    rw [exec_bind_ok (exec_heap _)]
    exact (hf _).size_le cur
  follows {cur cur' a out} hcur hhi ha hle := by
    rw [exec_bind_ok (exec_heap _)] at ha ⊢
    rw [← hcur.2]
    exact (hf _).follows hcur hhi ha hle

theorem local_onHeap (f : Heap → α × Heap) : Local alike lo hi (onHeap f) (onHeap f) where
  size_le _ := le_rfl
  follows {cur cur' a out} hcur _ ha _ := by
    rw [exec_onHeap] at ha ⊢
    cases ha
    rw [← hcur.2]
    exact ⟨_, rfl, hcur.1, rfl⟩

end Reading

open Reading (local_pure local_throw local_result local_step local_heap local_onHeap)

/-! ### Blocks -/

variable {alike : Decoder → Decoder → Prop} {lo hi : Nat} {read read' : RecordReader}

theorem readLabel_local (hread : Reading.Local alike lo hi read read') (what : Text) :
    Reading.Local alike lo hi (readLabel read what) (readLabel read' what) := by
  refine hread.bind fun d => ?_
  split
  · exact local_pure _
  · exact local_pure _
  · exact local_heap fun h => local_throw _ _

theorem readField_local (hread : Reading.Local alike lo hi read read') (k : Nat) :
    Reading.Local alike lo hi (readField read k) (readField read' k) := by
  refine hread.bind fun d => ?_
  split
  · exact local_pure _
  · refine (readLabel_local hread _).bind fun name => ?_
    exact (readLabel_local hread _).bind fun comment => local_pure _

/-- Fields with the error that ended them, as a step that fails if there was one. -/
def fieldsStep (out : (List Field × Option Error) × Cursor) : Step Cursor (List Field) :=
  match out with
  | ((fields, none), cur) => (.ok fields, cur)
  | ((_, some e), cur) => (.error e, cur)

theorem fieldsStep_succ (read : RecordReader) (n k : Nat) (cur : Cursor) :
    fieldsStep ((readFields read (n + 1) k).run cur) =
      Step.bind ((readField read k).exec cur) fun g cur =>
        match g with
        | none => (.ok [], cur)
        | some f => Step.bind (fieldsStep ((readFields read n (k + 1)).run cur)) fun gs cur =>
          (.ok (f :: gs), cur) := by
  rw [readFields_succ]
  rcases (readField read k).exec cur with ⟨e | (_ | f), cur'⟩
  · rfl
  · rfl
  · dsimp only [Step.bind]
    rcases (readFields read n (k + 1)).run cur' with ⟨⟨gs, _ | e⟩, cur''⟩
    · rfl
    · rfl

theorem readFields_local (hread : Reading.Local alike lo hi read read') (n k : Nat) :
    Local (Reading.Alike alike) (·.decoder.size) lo hi
      (fun cur => fieldsStep ((readFields read n k).run cur))
      fun cur => fieldsStep ((readFields read' n k).run cur) := by
  induction n generalizing k with
  | zero => exact local_ok []
  | succ n ih =>
    simp only [fieldsStep_succ]
    refine Local.bind (readField_local hread k) fun g => ?_
    cases g with
    | none => exact local_ok []
    | some f => exact Local.bind (ih (k + 1)) fun gs => local_ok (f :: gs)

theorem readBlock_step (read : RecordReader) : (readBlock read).exec = fun cur =>
    Step.bind (read.exec cur) fun d cur =>
      match d with
      | none => (.ok [], cur)
      | some d => fieldsStep (readCounted read d cur) := by
  funext cur
  rw [readBlock_exec, readBlockPart_run]
  rcases read.exec cur with ⟨e | (_ | d), cur'⟩
  · rfl
  · rfl
  · rfl

theorem readCounted_local (hread : Reading.Local alike lo hi read read') (d : Datum) :
    Local (Reading.Alike alike) (·.decoder.size) lo hi
      (fun cur => fieldsStep (readCounted read d cur))
      fun cur => fieldsStep (readCounted read' d cur) := by
  unfold readCounted
  split
  · next n =>
    by_cases hn : n < 0
    · simp only [if_pos hn]
      exact local_error _ _
    · simp only [if_neg hn]
      exact readFields_local hread _ 0
  · exact local_error _ _

theorem readBlock_local (hread : Reading.Local alike lo hi read read') :
    Reading.Local alike lo hi (readBlock read) (readBlock read') := by
  unfold Reading.Local
  rw [readBlock_step, readBlock_step]
  refine Local.bind hread fun d => ?_
  cases d with
  | none => exact local_ok []
  | some d => exact readCounted_local hread d

/-! ### Values -/

theorem readReal_local (hread : Reading.Local alike lo hi read read') (what : Text) :
    Reading.Local alike lo hi (readReal read what) (readReal read' what) := by
  refine hread.bind fun d => ?_
  split
  · exact local_pure _
  · exact local_heap fun h => local_throw _ _

theorem readReals_local (hread : Reading.Local alike lo hi read read') (what : Text) (n : Nat) :
    Reading.Local alike lo hi (readReals read what n) (readReals read' what n) := by
  induction n with
  | zero => exact local_pure _
  | succ n ih =>
    exact (readReal_local hread what).bind fun x => ih.bind fun xs => local_pure _

theorem readPoints_local (hread : Reading.Local alike lo hi read read') (n : Nat) :
    Reading.Local alike lo hi (readPoints read n) (readPoints read' n) := by
  induction n with
  | zero => exact local_pure _
  | succ n ih =>
    refine (readReal_local hread _).bind fun x => (readReal_local hread _).bind fun y => ?_
    exact ih.bind fun ps => local_pure _

/-- A reader that fails in some cases and else goes on. -/
theorem local_unless {α : Type} {refused : Prop} [Decidable refused] (e : Error)
    {x y : Reading α} (hx : Reading.Local alike lo hi x y) :
    Reading.Local alike lo hi (if refused then (throw e : Reading PUnit) >>= fun _ => x else x)
      (if refused then (throw e : Reading PUnit) >>= fun _ => y else y) := by
  split
  · exact (local_throw e e).bind fun _ => hx
  · exact hx

theorem readLength_local (hread : Reading.Local alike lo hi read read') (what : Text) :
    Reading.Local alike lo hi (readLength read what) (readLength read' what) := by
  refine (readBlock_local hread).bind fun gs => local_heap fun h => ?_
  exact (local_result _).bind fun n => local_unless _ (local_pure _)

theorem requireDatumValue_local (d : Option Datum) :
    Reading.Local alike lo hi (requireDatumValue d) (requireDatumValue d) := by
  unfold requireDatumValue
  split
  · exact local_pure _
  · exact local_heap fun h => local_throw _ _

theorem readValue_local (hread : Reading.Local alike lo hi read read') :
    Reading.Local alike lo hi (readValue read) (readValue read') := by
  refine hread.bind fun d => ?_
  split
  · exact local_pure _
  · exact (requireDatumValue_local _).bind fun v => local_pure _

theorem readItems_local (hread : Reading.Local alike lo hi read read') (total left : Nat) :
    Reading.Local alike lo hi (readItems read total left) (readItems read' total left) := by
  induction left with
  | zero => exact local_pure _
  | succ left ih =>
    refine hread.bind fun d => ?_
    split
    · exact local_throw _ _
    · exact (requireDatumValue_local d).bind fun v => ih.bind fun vs => local_pure _

theorem setFields_local (c : ContextId) (gs : List Field) :
    Reading.Local alike lo hi (setFields c gs) (setFields c gs) := by
  induction gs with
  | nil => exact local_pure _
  | cons g gs ih =>
    exact (requireDatumValue_local g.value).bind fun v => (local_onHeap _).bind fun _ => ih

theorem readContext_local (hread : Reading.Local alike lo hi read read') (c : ContextId) :
    Reading.Local alike lo hi (readContext read c) (readContext read' c) :=
  (readBlock_local hread).bind fun gs => (local_onHeap _).bind fun _ => setFields_local c gs

/-- **No maker looks ahead.** -/
theorem readParts_local (hread : Reading.Local alike lo hi read read') (tag : Text)
    (maker : Maker) :
    Reading.Local alike lo hi (readParts read tag maker) (readParts read' tag maker) := by
  cases maker with
  | point =>
    rw [readParts, readParts]
    refine (readBlock_local hread).bind fun gs => local_heap fun h => ?_
    exact (local_result _).bind fun x => (local_result _).bind fun y => local_pure _
  | vector =>
    rw [readParts, readParts]
    exact (readLength_local hread _).bind fun n =>
      (readReals_local hread _ n).bind fun xs => local_pure _
  | pointVector =>
    rw [readParts, readParts]
    exact (readLength_local hread _).bind fun n =>
      (readPoints_local hread n).bind fun ps => local_pure _
  | matrix =>
    rw [readParts, readParts]
    refine (readBlock_local hread).bind fun gs => local_heap fun h => ?_
    refine (local_result _).bind fun rows => (local_result _).bind fun cols => local_unless _ ?_
    exact (readReals_local hread _ _).bind fun xs => local_pure _
  | array =>
    rw [readParts, readParts]
    refine (readBlock_local hread).bind fun gs => local_heap fun h => ?_
    refine (local_result _).bind fun name => ?_
    split
    · exact local_throw _ _
    · refine (local_result _).bind fun n => local_unless _ ?_
      refine (readItems_local hread _ _).bind fun vs => ?_
      split
      · exact local_pure _
      · exact local_throw _ _
  | list =>
    rw [readParts, readParts]
    exact (readLength_local hread _).bind fun n =>
      (readItems_local hread n n).bind fun vs => local_pure _
  | context =>
    rw [readParts, readParts]
    exact (local_onHeap _).bind fun c => (readContext_local hread c).bind fun _ => local_pure _
  | object hostType labels =>
    rw [readParts, readParts]
    exact (readBlock_local hread).bind fun gs => (local_onHeap _).bind fun o => local_pure _

/-! ### Records -/

variable {catalog : Catalog} {version : Int} {fuel fuel' : Nat}

theorem readTagged_local (hsteps : Decoder.Transfers alike lo) (hread : Reading.Local alike lo hi
    (readRecord catalog version fuel) (readRecord catalog version fuel')) (tag : Text) :
    Reading.Local alike lo hi (readTagged catalog version fuel tag)
      (readTagged catalog version fuel' tag) := by
  unfold readTagged
  split
  · next type _ =>
    refine (local_step (hsteps.payload type _)).bind fun s => ?_
    exact (local_step (hsteps.endRecord _)).bind fun _ => local_pure _
  · refine (local_result _).bind fun maker => ?_
    refine (local_step (hsteps.endRecord _)).bind fun _ => ?_
    exact (readParts_local hread tag maker).bind fun v => local_pure _

theorem readRecord_succ : readRecord catalog version (fuel + 1) =
    Reading.step Decoder.tag >>= fun found =>
      match found with
      | none => pure none
      | some tag => readTagged catalog version fuel tag := by
  rw [readRecord]
  rfl

/-- **The reader of records does not look ahead.** The second one needs fuel for what is in front
of the tail only. The induction is on the fuel: behind a tag there is less in front of the tail. -/
theorem readRecord_local (hsteps : Decoder.Transfers alike lo) (hhi : hi < lo + fuel') :
    Reading.Local alike lo hi (readRecord catalog version fuel)
      (readRecord catalog version fuel') := by
  induction fuel generalizing fuel' hi with
  | zero => exact ⟨fun _ => le_rfl, fun _ _ ha _ => by cases ha⟩
  | succ fuel ih =>
    have htag : Reading.Local alike lo hi _ _ := local_step (hsteps.tag hi)
    have hrest : ∀ {k fuel'}, k < lo + fuel' → ∀ tag, Reading.Local alike lo k
        (readTagged catalog version fuel tag) (readTagged catalog version fuel' tag) :=
      fun hk tag => readTagged_local hsteps (ih hk) tag
    refine ⟨fun cur => ?_, fun {cur cur' a out} hcur hle ha hlo => ?_⟩
    · have hsize := htag.size_le cur
      rw [readRecord_succ, Reading.exec_bind]
      rcases hstep : (Reading.step Decoder.tag).exec cur with ⟨e | (_ | tag), cur₁⟩
      · rwa [hstep] at hsize
      · rwa [hstep] at hsize
      · rw [hstep] at hsize
        exact ((@hrest 0 1 (by omega) tag).size_le cur₁).trans hsize
    · obtain ⟨fuel', rfl⟩ : ∃ k, fuel' = k + 1 := by
        have := hsteps.size_le hcur.1
        exact ⟨fuel' - 1, by omega⟩
      rw [readRecord_succ, Reading.exec_bind] at ha ⊢
      rcases hstep : (Reading.step Decoder.tag).exec cur with ⟨e | (_ | tag), cur₁⟩
      · rw [hstep] at ha
        cases ha
      · rw [hstep] at ha
        cases ha
        obtain ⟨cur₁', hstep', hcur₁⟩ := htag.follows hcur hle hstep hlo
        exact ⟨cur₁', by rw [hstep']; rfl, hcur₁⟩
      · rw [hstep] at ha
        have hlt : cur₁.decoder.size < cur.decoder.size := by
          rw [Reading.exec_step] at hstep
          have htag := Prod.mk.inj hstep
          have := Decoder.tag_lt htag.1
          rw [← htag.2]
          exact this
        have hfuel : cur₁.decoder.size < lo + fuel' := by omega
        have hlo₁ : lo ≤ cur₁.decoder.size := by
          have hsize := (hrest hfuel tag).size_le cur₁
          dsimp only at ha
          rw [ha] at hsize
          exact hlo.trans hsize
        obtain ⟨cur₁', hstep', hcur₁⟩ := htag.follows hcur hle hstep hlo₁
        rw [hstep']
        exact (hrest hfuel tag).follows hcur₁ le_rfl ha hlo

/-- **A record that is read in front of one tail is read in front of any other one.** The heap is
the same then, and the other tail is left. -/
theorem readRecord_follows {t t' d d' : Decoder} {h h' : Heap} {x : Option Datum} (ht : 0 < t.size)
    (hd : Decoder.Alike t t' d d') (hfuel : d.size < t.size + fuel')
    (hexec : (readRecord catalog version fuel).exec ⟨d, h⟩ = (.ok x, ⟨t, h'⟩)) :
    ∃ e, (readRecord catalog version fuel').exec ⟨d', h⟩ = (.ok x, ⟨e, h'⟩) ∧
      Decoder.Alike t t' t e := by
  have hcur : Reading.Alike (Decoder.Alike t t') ⟨d, h⟩ ⟨d', h⟩ := ⟨hd, rfl⟩
  obtain ⟨⟨e, _⟩, hexec', he, rfl⟩ :=
    (readRecord_local (Decoder.transfers_tail t' ht) hfuel).follows hcur le_rfl hexec le_rfl
  exact ⟨e, hexec', he⟩

end Reckoner
