import Mathlib.Tactic
import Reckoner.Proofs.WellFormed

/-!
# Reading ends

Whatever the bytes are, a stream is opened or is malformed, and reading it ends: each value takes
at least one byte, or one line, of what is left, and after the last one comes the end of the
stream or a refusal. Every value that comes before is well-formed with everything in it. Nothing
is assumed of the state of the reader, so that this holds whatever an inflater gives and however
it ends.
-/

namespace Reckoner

open Reading (Kept)

/-- The error is that of bytes that cannot be read: they are malformed, or have a tag that is
unknown or too new. -/
def Error.IsRefusal (e : Error) : Prop :=
  e.IsMalformed ∨ (∃ tag, e = .unknownTag tag) ∨
    ∃ tag since version, e = .newerTag tag since version

/-! ### Opening -/

theorem Step.bind_ok {σ α β : Type} {s : Step σ α} {f : α → σ → Step σ β} {b : β}
    (h : (s.bind f).1 = .ok b) : ∃ a, s.1 = .ok a ∧ (f a s.2).1 = .ok b := by
  obtain ⟨r, t⟩ := s
  cases r with
  | ok a => exact ⟨a, rfl, h⟩
  | error e => cases h

/-- A header is malformed, or there is at most as much behind it. -/
theorem header_cases (t : Text) :
    (∃ e, Reader.header t = .error e ∧ e.IsMalformed) ∨
      ∃ version name body, Reader.header t = .ok (version, name, body) ∧
        body.length ≤ t.length := by
  have htake : ∀ what count (p : Packed), (p.take what count).Tame Packed.size p.size :=
    fun what count p => Packed.take_tame what count le_rfl
  have hvarint : ∀ what (p : Packed), (p.varint what).Tame Packed.size p.size :=
    fun what p => Packed.varint_tame what le_rfl
  cases hheader : Reader.header t with
  | ok x =>
    refine .inr ⟨x.1, x.2.1, x.2.2, rfl, ?_⟩
    obtain ⟨_, _, hheader⟩ := Step.bind_ok hheader
    obtain ⟨_, _, hheader⟩ := Step.bind_ok hheader
    obtain ⟨count, _, hheader⟩ := Step.bind_ok hheader
    split at hheader
    · cases hheader
    · obtain ⟨_, _, hheader⟩ := Step.bind_ok hheader
      cases hheader
      exact (htake _ count _).size_le.trans ((hvarint _ _).size_le.trans
        ((htake _ 4 _).size_le.trans (htake "magic" 4 ⟨t, none⟩).size_le))
  | error e =>
    refine .inl ⟨e, rfl, ?_⟩
    have hsize : Packed.size ⟨t, none⟩ ≤ t.length := le_rfl
    unfold Reader.header at hheader
    refine @Step.Tame.failure _ _ Packed.size t.length _ ?_ e hheader
    refine (Packed.take_tame _ 4 hsize).bind fun _ p hp => ?_
    refine (Packed.take_tame _ 4 hp).bind fun v p hp => ?_
    refine (Packed.varint_tame _ hp).bind fun count p hp => ?_
    split
    · exact Step.tame_error (isMalformed_malformed _) hp
    · exact (Packed.take_tame _ count hp).bind fun name p hp => Step.tame_ok _ hp

/-- The bytes are opened as a stream, or are malformed. -/
theorem start_cases (t : Text) :
    (∃ e, Reader.start Catalog.values t = .error e ∧ e.IsMalformed) ∨
      ∃ r, Reader.start Catalog.values t = .ok r ∧ r.catalog = Catalog.values ∧
        (r.mode ≠ .compressed → r.decoder.size ≤ t.length) := by
  unfold Reader.start
  split
  · exact .inr ⟨_, rfl, rfl, fun _ => Lines.size_ofText_le t⟩
  · rcases header_cases t with ⟨e, he, hm⟩ | ⟨version, name, body, hok, hle⟩
    · rw [he]
      exact .inl ⟨e, rfl, hm⟩
    · rw [hok]
      exact .inr ⟨_, rfl, rfl, fun _ => hle⟩
  · rcases header_cases t with ⟨e, he, hm⟩ | ⟨version, name, body, hok, hle⟩
    · rw [he]
      exact .inl ⟨e, rfl, hm⟩
    · rw [hok]
      exact .inr ⟨_, rfl, rfl, fun h => absurd rfl h⟩
  · exact .inr ⟨_, rfl, rfl, fun _ => le_rfl⟩

/-! ### Values -/

/-- An unknown tag is refused, and so is one that is too new. -/
theorem values_refusal {tag : Text} {version : Int} {e : Error}
    (he : Catalog.values tag version = .error e) : e.IsRefusal := by
  unfold Catalog.values Registries.resolve at he
  split at he
  · cases he
    exact .inr (.inl ⟨_, rfl⟩)
  · split at he
    · cases he
      exact .inr (.inr ⟨_, _, _, rfl⟩)
    · cases he

/-- What is asked of a value that was read, apart from what it refers to. -/
def Value.Plausible (v : Value) : Prop := v.Proper ∧ v.Modest

theorem Value.admits_plausible : Value.Admits Value.Plausible where
  leaf := fun {a} ha => by
    cases a with
    | matrix m => exact ⟨⟨ha.1, ha.2.1, ha.2.2.2⟩, ha.2.2.1⟩
    | _ => exact ⟨trivial, trivial⟩
  array := fun hne hkind => ⟨hkind, hne⟩
  list := fun _ => ⟨trivial, trivial⟩
  context := fun _ => ⟨trivial, trivial⟩
  object := fun _ _ => ⟨trivial, trivial⟩

/-- What is kept by reading values into a heap. -/
def Invariant.reading (h : Heap) : Invariant :=
  .added h Value.admits_plausible Error.IsRefusal .inl

theorem Invariant.reading_start (h : Heap) : (Invariant.reading h).heap h :=
  ⟨.refl h, fun _ hc => Heap.regularAt_of_nil (by rw [Heap.context_of_size_le hc])⟩

namespace Reader

/-- Reading value after value: the values read, and the reader and heap behind the last one. -/
inductive Reads : Reader → Heap → List Value → Reader → Heap → Prop where
  | nil {r : Reader} {h : Heap} : Reads r h [] r h
  /-- A value is read, and then the others. -/
  | cons {r r₁ r₂ : Reader} {h h₁ h₂ : Heap} {v : Value} {vs : List Value} :
    r.nextValue h = (.ok (some v), r₁, h₁) → Reads r₁ h₁ vs r₂ h₂ → Reads r h (v :: vs) r₂ h₂

variable {r r' : Reader} {h h' old : Heap} {vs : List Value}

/-- What comes of reading one value. -/
structure Next (old : Heap) (r : Reader) (h : Heap)
    (out : Except Error (Option Value) × Reader × Heap) : Prop where
  /-- The reader knows the same tags as before. -/
  catalog : out.2.1.catalog = r.catalog
  /-- No context is gone. -/
  count_le : h.contexts.size ≤ out.2.2.contexts.size
  /-- The old contexts are as they were, and the new ones as readers make them. -/
  heap : (Invariant.reading old).heap out.2.2
  /-- An error refuses the stream. -/
  refusal : ∀ e, out.1 = .error e → e.IsRefusal
  /-- A value takes something off the stream. -/
  progress : ∀ v, out.1 = .ok (some v) → out.2.1.decoder.size < r.decoder.size
  /-- It is as readers make values. -/
  value : ∀ v, out.1 = .ok (some v) → (Invariant.reading old).value out.2.2.contexts.size v

/-- **Reading one value** gives a well-formed one and makes progress, or ends. -/
theorem nextValue_next (hr : r.catalog = Catalog.values) (hh : (Invariant.reading old).heap h) :
    Next old r h (r.nextValue h) := by
  obtain ⟨hk, hprogress⟩ := @record_kept (.reading old) r
    (fun tag e he => values_refusal (hr ▸ he)) h hh
  rw [Reader.nextValue_exec, readValue, Reading.exec_bind]
  cases hexec : r.record.exec ⟨r.decoder, h⟩ with
  | mk x cur =>
    rw [hexec] at hk hprogress
    rcases x with e | (_ | (v | color))
    · exact ⟨rfl, hk.count_le, hk.heap, fun _ he => (by cases he; exact hk.failure e rfl),
        fun _ hv => (by cases hv), fun _ hv => (by cases hv)⟩
    · exact ⟨rfl, hk.count_le, hk.heap, fun _ he => (by cases he), fun _ hv => (by cases hv),
        fun _ hv => (by cases hv)⟩
    · exact ⟨rfl, hk.count_le, hk.heap, fun _ he => (by cases he), fun _ _ => hprogress _ rfl,
        fun _ hv => (by cases hv; exact hk.result _ rfl v rfl)⟩
    · exact ⟨rfl, hk.count_le, hk.heap,
        fun _ he => (by cases he; exact .inl (isMalformed_malformed _)),
        fun _ hv => (by cases hv), fun _ hv => (by cases hv)⟩

/-- What holds after reading value after value. -/
structure Kept (old : Heap) (r : Reader) (h : Heap) (vs : List Value) (r' : Reader) (h' : Heap) :
    Prop where
  /-- The reader knows the usual tags. -/
  catalog : r'.catalog = Catalog.values
  /-- No context is gone. -/
  count_le : h.contexts.size ≤ h'.contexts.size
  /-- The old contexts are as they were, and the new ones as readers make them. -/
  heap : (Invariant.reading old).heap h'
  /-- Every value has taken something off the stream. -/
  size_le : vs.length + r'.decoder.size ≤ r.decoder.size
  /-- All values are as readers make them. -/
  values : ∀ v ∈ vs, (Invariant.reading old).value h'.contexts.size v

theorem Reads.kept (hreads : r.Reads h vs r' h') (hr : r.catalog = Catalog.values)
    (hh : (Invariant.reading old).heap h) : Kept old r h vs r' h' := by
  induction hreads with
  | nil => exact ⟨hr, le_rfl, hh, by simp, fun _ hv => by cases hv⟩
  | @cons r r₁ r₂ h h₁ h₂ v vs hnext _ ih =>
    have hn : Next old r h (.ok (some v), r₁, h₁) := hnext ▸ nextValue_next hr hh
    have hk := ih (hn.catalog.trans hr) hn.heap
    refine ⟨hk.catalog, hn.count_le.trans hk.count_le, hk.heap, ?_,
      List.forall_mem_cons.mpr
        ⟨(Invariant.reading old).grow (hn.value v rfl) hk.count_le, hk.values⟩⟩
    have hless : r₁.decoder.size < r.decoder.size := hn.progress v rfl
    have hrest := hk.size_le
    rw [List.length_cons]
    omega

/-- The loop that reads until the end or an error ends, however often it may go on. -/
theorem nextAll_ends (hr : r.catalog = Catalog.values) (hh : (Invariant.reading old).heap h)
    {limit : Nat} (hlimit : r.decoder.size < limit) :
    ∃ vs r' h' r'' h'' last, r.Reads h vs r' h' ∧ r'.nextValue h' = (last, r'', h'') ∧
      nextAll nextValue false limit r h = (vs.map (fun v => .ok (some v)) ++ [last], h'') ∧
      (last = .ok none ∨ ∃ e, last = .error e ∧ e.IsRefusal) := by
  induction limit generalizing r h with
  | zero => exact absurd hlimit (Nat.not_lt_zero _)
  | succ limit ih =>
    have hn := nextValue_next hr hh
    rcases hnext : r.nextValue h with ⟨e | (_ | v), r₁, h₁⟩
    · rw [hnext] at hn
      exact ⟨[], r, h, r₁, h₁, .error e, .nil, hnext, by rw [nextAll, hnext]; rfl,
        .inr ⟨e, rfl, hn.refusal e rfl⟩⟩
    · exact ⟨[], r, h, r₁, h₁, .ok none, .nil, hnext, by rw [nextAll, hnext]; rfl, .inl rfl⟩
    · rw [hnext] at hn
      have hless : r₁.decoder.size < r.decoder.size := hn.progress v rfl
      obtain ⟨vs, r', h', r'', h'', last, hreads, hlast, hall, hend⟩ :=
        ih (hn.catalog.trans hr) hn.heap (hless.trans_le (Nat.le_of_lt_succ hlimit))
      refine ⟨v :: vs, r', h', r'', h'', last, .cons hnext hreads, hlast, ?_, hend⟩
      rw [nextAll, hnext]
      simp only [hall, List.map_cons, List.cons_append]

end Reader

/-- A value is well-formed at every depth: each matrix and each array in it is what it should be,
and the names of each context differ. -/
def Value.Sound (h : Heap) (v : Value) : Prop :=
  ∀ w, h.Reaches v w → w.Proper ∧ w.Modest ∧ ∀ c, w = .context c → (h.context c).names.Nodup

theorem Invariant.sound_of_reading {old h : Heap} {v : Value} (hh : (Invariant.reading old).heap h)
    (hv : (Invariant.reading old).value h.contexts.size v) : v.Sound h := by
  intro w hw
  have hevery := hh.2.reaches hv hw
  exact ⟨hevery.self.1.1, hevery.self.1.2,
    fun c hc => (hh.2 c (hevery.self.2 c hc).1).nodup⟩

/-- **Reading is total.** Bytes are opened as a stream or are malformed. Whatever a reader stands
in front of, while values come, each takes at least one byte or line off, all are well-formed at
every depth, and an error that comes next is a refusal; and the loop that goes on until the end
or an error finds it. -/
theorem reading_total :
    (∀ t, (∃ e, Reader.start Catalog.values t = .error e ∧ e.IsMalformed) ∨
      ∃ r, Reader.start Catalog.values t = .ok r ∧ r.catalog = Catalog.values ∧
        (r.mode ≠ .compressed → r.decoder.size ≤ t.length)) ∧
    ∀ (r : Reader) (h : Heap), r.catalog = Catalog.values →
      (∀ vs r' h', r.Reads h vs r' h' →
        vs.length + r'.decoder.size ≤ r.decoder.size ∧ (∀ v ∈ vs, v.Sound h') ∧
        (∀ v, (r'.nextValue h').1 = .ok (some v) →
          (r'.nextValue h').2.1.decoder.size < r'.decoder.size) ∧
        ∀ e, (r'.nextValue h').1 = .error e → e.IsRefusal) ∧
      ∀ limit, r.decoder.size < limit → ∃ vs r' h' r'' h'' last, r.Reads h vs r' h' ∧
        r'.nextValue h' = (last, r'', h'') ∧
        Reader.nextAll Reader.nextValue false limit r h
          = (vs.map (fun v => .ok (some v)) ++ [last], h'') ∧
        (last = .ok none ∨ ∃ e, last = .error e ∧ e.IsRefusal) := by
  refine ⟨start_cases, fun r h hr => ⟨fun vs r' h' hreads => ?_, fun limit hlimit => ?_⟩⟩
  · have hk := hreads.kept hr (Invariant.reading_start h)
    have hnext := Reader.nextValue_next hk.catalog hk.heap
    exact ⟨hk.size_le, fun v hv => Invariant.sound_of_reading hk.heap (hk.values v hv),
      hnext.progress, hnext.refusal⟩
  · exact Reader.nextAll_ends hr (Invariant.reading_start h) hlimit

/-- A text of six lines that holds a list of one integer. -/
def Text.oneList : Text :=
  "list\nint\t1\nint\t1\nstring\tlength\nstring\t\nint\t7\n"

/-- The reader of a text that stands in front of the given lines. -/
def Reader.ofLines (s : Lines) : Reader := ⟨.text, 1, [], Catalog.values, .lines s⟩

/-- The list is read, takes all lines off and is well-formed, and then the text ends. -/
theorem oneList_total : ∃ r r' : Reader, Reader.start Catalog.values Text.oneList = .ok r ∧
    r.decoder.size ≤ Text.oneList.length ∧ r.Reads {} [.list [.int 7]] r' {} ∧
      1 + r'.decoder.size ≤ r.decoder.size ∧ Value.Sound {} (.list [.int 7]) ∧
      (r'.nextValue {}).1 = .ok none := by
  have hstart : Reader.start Catalog.values Text.oneList
      = .ok (.ofLines (Lines.ofText Text.oneList)) := by rfl
  have hnext : (Reader.ofLines (Lines.ofText Text.oneList)).nextValue {}
      = (.ok (some (.list [.int 7])), .ofLines ⟨[], [], 6⟩, {}) := by rfl
  have hsize : (Reader.ofLines (Lines.ofText Text.oneList)).decoder.size
      ≤ Text.oneList.length := by
    rcases reading_total.1 Text.oneList with ⟨e, he, -⟩ | ⟨r, hr, -, hsize⟩
    · rw [hstart] at he
      cases he
    · rw [hstart] at hr
      cases hr
      exact hsize (by decide)
  have hreads := Reader.Reads.cons hnext .nil
  obtain ⟨hle, hsound, -⟩ := (reading_total.2 _ {} rfl).1 _ _ _ hreads
  exact ⟨_, _, hstart, hsize, hreads, hle, hsound _ List.mem_cons_self, by rfl⟩

end Reckoner
