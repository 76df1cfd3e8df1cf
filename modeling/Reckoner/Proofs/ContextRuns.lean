import Reckoner.Proofs.Memory

/-!
# Runs over contexts in memory

Each operation, done in place, keeps the contexts apart and does to its context what it does to
the ordered map. So does a run, and the contexts of a heap do the same.
-/

namespace Reckoner

namespace Memory

variable {m m' : Memory} {s : Scopes} {sc : Scope} {c d : ContextId} {name k : Text} {v : Value}
  {spare : Nat → Nat}

/-! ### Variables -/

theorem Shows.fits (hs : m.Shows c sc) :
    (m.frames c).order.length ≤ (m.buffers (m.frames c).order.buffer).length := by
  have hlength : ((m.buffers (m.frames c).order.buffer).take (m.frames c).order.length).length =
      (m.frames c).order.length := (congrArg _ hs.names).trans hs.length.symm
  rw [List.length_take] at hlength
  exact min_eq_left_iff.mp hlength

/-- Setting a variable that is there writes its cell. -/
theorem set_old {i : Nat} (hi : m.cell? c name = some i) :
    m.set spare c name v = { m with cells := Function.update m.cells i v } := by
  rw [set, hi]

theorem set_old_changes {i : Nat} (hi : m.cell? c name = some i) :
    Changes c m (m.set spare c name v) := by
  rw [set_old hi]
  exact {
    nextFrame := rfl
    nextCell := le_rfl
    nextBuffer := le_rfl
    frames := fun _ _ => rfl
    buffers := fun _ _ _ => rfl
    cells := fun j _ hj => Function.update_of_ne (fun heq : j = i => hj name (heq ▸ hi)) _ _
    buffer := .inl rfl
    table := fun _ hb => .inl hb
    cell := fun _ _ hj => .inl hj }

theorem set_old_shows (hm : m.Apart) (hc : c < m.nextFrame) {i : Nat}
    (hi : m.cell? c name = some i) (hs : m.Shows c sc) :
    (m.set spare c name v).Shows c { sc with vars := sc.vars.set name v } := by
  have hmem : name ∈ sc.vars.names := by
    rw [← hs.names, hs.mem_names, hi]
    rfl
  rw [set_old hi]
  refine ⟨hs.parent, ?_, ?_, fun k => ?_⟩
  · rw [OrderedMap.names_set_of_mem hmem]
    exact hs.names
  · rw [OrderedMap.names_set_of_mem hmem]
    exact hs.length
  · rw [OrderedMap.get?_set, ← hs.get?]
    show (m.cell? c k).map (Function.update m.cells i v) = _
    by_cases hk : k = name
    · rw [if_pos hk, hk, hi]
      exact congrArg some (Function.update_self ..)
    · rw [if_neg hk]
      refine Option.map_congr fun j hj => Function.update_of_ne ?_ _ _
      rintro rfl
      exact hk (hm.cells c hc c hc k name j hj hi).2

/-- A new variable gets a new cell, and its name goes behind the others. -/
theorem set_new (hnone : m.cell? c name = none) :
    m.set spare c name v =
      ((m.newCell v).2.append spare (m.frames c).order name).2.put c
        { m.frames c with
          table := (name, m.nextCell) :: (m.frames c).table
          order := ((m.newCell v).2.append spare (m.frames c).order name).1 } := by
  rw [set, hnone]
  rfl

theorem set_new_changes (hm : m.Apart) (hc : c < m.nextFrame) (hnone : m.cell? c name = none) :
    Changes c m (m.set spare c name v) := by
  rw [set_new hnone]
  refine append_replaces.changes newCell_extends (fun b hb => ?_) fun k i hi => ?_
  · rcases List.mem_cons.mp hb with rfl | hb
    · exact .inr (Nat.lt_succ_self _)
    · exact .inl hb
  · have hold : ∀ n, n ≠ name → List.lookup n ((name, m.nextCell) :: (m.frames c).table) =
        m.cell? c n := fun n hn => by rw [lookup_cons_if, if_neg hn]; rfl
    by_cases hk : k = name
    · subst hk
      rw [lookup_cons_if, if_pos rfl, Option.some_inj] at hi
      refine .inr ⟨hi.le, fun n hn => ?_⟩
      by_contra hne
      rw [hold n hne] at hn
      exact absurd (hm.cell_lt_of hc hn) (Nat.not_lt.mpr hi.le)
    · exact .inl ((hold k hk).symm.trans hi)

theorem set_new_shows (hm : m.Apart) (hc : c < m.nextFrame) (hnone : m.cell? c name = none)
    (hs : m.Shows c sc) :
    (m.set spare c name v).Shows c { sc with vars := sc.vars.set name v } := by
  have hmem : name ∉ sc.vars.names := by
    rw [← hs.names, hs.mem_names, hnone]
    exact Bool.false_ne_true
  have hframe : (m.set spare c name v).frames c = { m.frames c with
      table := (name, m.nextCell) :: (m.frames c).table
      order := ((m.newCell v).2.append spare (m.frames c).order name).1 } := by
    rw [set_new hnone, frames_put]
  have hcells : (m.set spare c name v).cells = (m.newCell v).2.cells := by
    rw [set_new hnone]
    exact append_replaces.cells
  have hnames : (m.set spare c name v).names c = m.names c ++ [name] := by
    rw [names, hframe, set_new hnone]
    exact read_append hs.fits
  refine ⟨?_, ?_, ?_, fun k => ?_⟩
  · rw [hframe, ← hs.parent]
  · rw [OrderedMap.names_set_of_notMem hmem, hnames, hs.names]
  · rw [OrderedMap.names_set_of_notMem hmem, List.length_append, ← hs.length, length, hframe]
    exact length_append
  · rw [OrderedMap.get?_set, get?, cell?, hframe, hcells, lookup_cons_if]
    by_cases hk : k = name
    · rw [if_pos hk, if_pos hk]
      exact congrArg some (Function.update_self ..)
    · rw [if_neg hk, if_neg hk, ← hs.get?]
      exact Option.map_congr fun i hi => newCell_extends.cells i (hm.cell_lt_of hc hi)

/-- **Setting a variable** in memory sets it in the ordered map. -/
theorem set_holds (hm : m.Holds s) (hc : c < m.nextFrame) (name : Text) (v : Value) :
    (m.set spare c name v).Holds (s.modify c fun sc => { sc with vars := sc.vars.set name v }) := by
  cases hcell : m.cell? c name with
  | some i => exact (set_old_changes hcell).holds hm hc fun _ => set_old_shows hm.apart hc hcell
  | none =>
    exact (set_new_changes hm.apart hc hcell).holds hm hc fun _ => set_new_shows hm.apart hc hcell

/-! ### Removing -/

theorem clearVar_some {i : Nat} (hi : m.cell? c name = some i) :
    m.clearVar c name = (true,
      (m.remove (m.frames c).order ((m.names c).idxOf name)).2.put c
        { m.frames c with
          table := (m.frames c).table.filter fun b => b.1 ≠ name
          order := (m.remove (m.frames c).order ((m.names c).idxOf name)).1 }) := by
  rw [clearVar, hi]

theorem clearVar_changes {i : Nat} (hi : m.cell? c name = some i) :
    Changes c m (m.clearVar c name).2 := by
  rw [clearVar_some hi]
  refine (remove_replaces _).changes (Extends.refl m) (fun b hb => .inl (List.mem_filter.mp hb).1)
    fun k j hj => .inl ?_
  rw [lookup_filter] at hj
  by_cases hk : k = name
  · rw [if_pos hk] at hj
    cases hj
  · rw [if_neg hk] at hj
    exact hj

theorem clearVar_shows {i : Nat} (hi : m.cell? c name = some i) (hs : m.Shows c sc) :
    (m.clearVar c name).2.Shows c { sc with vars := sc.vars.erase name } := by
  have hmem : name ∈ m.names c := by
    rw [hs.mem_names, hi]
    rfl
  have hindex : (m.names c).idxOf name < (m.frames c).order.length := by
    have hlength : (m.names c).length = (m.frames c).order.length :=
      (congrArg _ hs.names).trans hs.length.symm
    rw [← hlength]
    exact List.idxOf_lt_length_iff.mpr hmem
  have hnames : (m.clearVar c name).2.names c = (m.names c).erase name := by
    rw [clearVar_some hi, names, frames_put, List.erase_eq_eraseIdx_of_idxOf rfl]
    exact read_remove hs.fits hindex
  rw [clearVar_some hi] at hnames ⊢
  refine ⟨?_, ?_, ?_, fun k => ?_⟩
  · rw [frames_put, ← hs.parent]
  · rw [hnames, OrderedMap.names_erase, hs.names]
  · rw [OrderedMap.names_erase, List.length_erase_of_mem (hs.names ▸ hmem), ← hs.length, length,
      frames_put]
    rfl
  · rw [OrderedMap.get?_erase, get?, cell?, frames_put, lookup_filter]
    by_cases hk : k = name
    · rw [if_pos hk, if_pos hk]
      rfl
    · rw [if_neg hk, if_neg hk, ← hs.get?]
      rfl

/-- **Removing a variable** in memory removes it from the ordered map, and tells whether it was
there. -/
theorem clearVar_holds (hm : m.Holds s) (hc : c < m.nextFrame) (name : Text) :
    (m.clearVar c name).1 = (s[c]?.any fun sc => name ∈ sc.vars.names) ∧
      (m.clearVar c name).2.Holds
        (s.modify c fun sc => { sc with vars := sc.vars.erase name }) := by
  have hlt : c < s.size := hm.size ▸ hc
  have hs : m.Shows c s[c] := hm.shows c _ (Array.getElem?_eq_getElem hlt)
  have hmem : name ∈ s[c].vars.names ↔ (m.cell? c name).isSome := by rw [← hs.names, hs.mem_names]
  rw [Array.getElem?_eq_getElem hlt, Option.any_some]
  cases hcell : m.cell? c name with
  | some i =>
    refine ⟨?_, (clearVar_changes hcell).holds hm hc fun _ => clearVar_shows hcell⟩
    rw [clearVar_some hcell, decide_eq_true (hmem.mpr (by rw [hcell]; rfl))]
  | none =>
    have hnot : ¬ (m.cell? c name).isSome := by
      rw [hcell]
      exact Bool.false_ne_true
    have hsame : m.clearVar c name = (false, m) := by rw [clearVar, hcell]
    rw [hsame]
    refine ⟨(decide_eq_false fun h => hnot (hmem.mp h)).symm,
      (Changes.refl c m).holds hm hc fun sc hs => ?_⟩
    have hname : name ∉ sc.vars.names := by rwa [← hs.names, hs.mem_names]
    rw [OrderedMap.erase_of_notMem hname]
    exact hs

/-- **Removing all variables** only forgets how many names there are. -/
theorem clear_holds (hm : m.Holds s) (hc : c < m.nextFrame) :
    (m.clear c).Holds (s.modify c fun sc => { sc with vars := {} }) := by
  have hreplaces : m.Replaces (m.frames c).order m ⟨(m.frames c).order.buffer, 0⟩ :=
    ⟨⟨rfl, rfl, rfl, rfl⟩, le_rfl, fun _ _ _ => rfl, .inl rfl⟩
  have hchanges : Changes c m (m.clear c) :=
    hreplaces.changes (Extends.refl m) (fun _ hb => by cases hb) fun _ _ hi => by cases hi
  refine hchanges.holds hm hc fun sc hs => ⟨?_, ?_, ?_, fun k => ?_⟩
  · rw [clear, frames_put, ← hs.parent]
  · rw [clear, names, frames_put]
    rfl
  · rw [clear, length, frames_put]
    rfl
  · rw [clear, get?, cell?, frames_put]
    rfl

/-- **Setting the enclosing scope** changes nothing else. -/
theorem parent_holds (hm : m.Holds s) (hc : c < m.nextFrame) (p : Option ContextId) :
    (m.put c { m.frames c with parent := p }).Holds
      (s.modify c fun sc => { sc with parent := p }) := by
  have hreplaces : m.Replaces (m.frames c).order m (m.frames c).order :=
    ⟨⟨rfl, rfl, rfl, rfl⟩, le_rfl, fun _ _ _ => rfl, .inl rfl⟩
  have hchanges : Changes c m (m.put c { m.frames c with parent := p }) :=
    hreplaces.changes (Extends.refl m) (fun _ hb => .inl hb) fun _ _ hi => .inl hi
  refine hchanges.holds hm hc fun sc hs => ⟨?_, ?_, ?_, fun k => ?_⟩
  · rw [frames_put]
  · rw [names, frames_put]
    exact hs.names
  · rw [length, frames_put]
    exact hs.length
  · rw [get?, cell?, frames_put]
    exact hs.get? k

/-! ### New contexts -/

/-- The cells of a copy are new, no two of them are the same, and they hold what the cells copied
hold. -/
structure Copies (m : Memory) (table : List (Text × Nat)) (m' : Memory)
    (table' : List (Text × Nat)) : Prop extends Extends m m' where
  /-- No buffer is taken. -/
  nextBuffer_eq : m'.nextBuffer = m.nextBuffer
  /-- The cells of the copy are among those taken. -/
  fresh : ∀ b ∈ table', m.nextCell ≤ b.2 ∧ b.2 < m'.nextCell
  /-- They hold the values of the cells that were copied. -/
  values : ∀ name, (table'.lookup name).map m'.cells = (table.lookup name).map m.cells
  /-- Different names have different cells. -/
  injective : ∀ name k i, table'.lookup name = some i → table'.lookup k = some i → name = k

/-- A table is copied cell by cell. Each cell is taken before those of the names behind it, so it is
none of them. -/
theorem copyCells_copies {table : List (Text × Nat)} (htable : ∀ b ∈ table, b.2 < m.nextCell) :
    m.Copies table (m.copyCells table).2 (m.copyCells table).1 := by
  induction table generalizing m with
  | nil =>
    exact ⟨Extends.refl m, rfl, fun _ hb => (by cases hb), fun _ => rfl,
      fun _ _ _ hi => (by cases hi)⟩
  | cons b rest ih =>
    obtain ⟨n, i⟩ := b
    have hrest : ∀ b ∈ rest, b.2 < m.nextCell := fun b hb => htable b (List.mem_cons_of_mem _ hb)
    have hnext : m.nextCell < (m.newCell (m.cells i)).2.nextCell := Nat.lt_succ_self _
    have hcopy := ih fun b hb => (hrest b hb).trans hnext
    have hnew : ∀ k, List.lookup k ((m.newCell (m.cells i)).2.copyCells rest).1 ≠ some m.nextCell :=
      fun k hk => absurd (hcopy.fresh _ (mem_of_lookup hk)).1 (Nat.not_le.mpr hnext)
    refine ⟨newCell_extends.trans hcopy.toExtends, hcopy.nextBuffer_eq, fun b hb => ?_,
      fun k => ?_, fun k k' j hj hj' => ?_⟩
    · rcases List.mem_cons.mp hb with rfl | hb
      · exact ⟨le_rfl, hnext.trans_le hcopy.nextCell⟩
      · exact ⟨hnext.le.trans (hcopy.fresh b hb).1, (hcopy.fresh b hb).2⟩
    · rw [lookup_cons_if, copyCells, lookup_cons_if]
      by_cases hk : k = n
      · rw [if_pos hk, if_pos hk]
        exact congrArg some ((hcopy.cells _ hnext).trans (Function.update_self ..))
      · rw [if_neg hk, if_neg hk]
        refine (hcopy.values k).trans (Option.map_congr fun j hj => ?_)
        exact newCell_extends.cells j (hrest _ (mem_of_lookup hj))
    · rw [copyCells, lookup_cons_if] at hj hj'
      by_cases hk : k = n
      · by_cases hk' : k' = n
        · rw [hk, hk']
        · rw [if_pos hk, Option.some_inj] at hj
          rw [if_neg hk', ← hj] at hj'
          exact absurd hj' (hnew k')
      · rw [if_neg hk] at hj
        by_cases hk' : k' = n
        · rw [if_pos hk', Option.some_inj] at hj'
          rw [← hj'] at hj
          exact absurd hj (hnew k)
        · rw [if_neg hk'] at hj'
          exact hcopy.injective k k' j hj hj'

/-- A context whose buffer and cells are new is apart from all others. Each of two contexts is the
new one or an old one, which makes four cases. -/
theorem newFrame_apart (hm : m.Apart) (h : m.Extends m') {f : Frame}
    (hbuffer : m.nextBuffer ≤ f.order.buffer ∧ f.order.buffer < m'.nextBuffer)
    (hfresh : ∀ b ∈ f.table, m.nextCell ≤ b.2 ∧ b.2 < m'.nextCell)
    (hinjective : ∀ name k i, f.table.lookup name = some i → f.table.lookup k = some i →
      name = k) : (m'.newFrame f).Apart := by
  have hnew : (m'.newFrame f).frames m.nextFrame = f := by
    rw [← h.nextFrame]
    exact frames_put m' _ f
  have hold : ∀ d < m.nextFrame, (m'.newFrame f).frames d = m.frames d := fun d hd => by
    rw [← h.frames]
    exact frames_put_of_ne m' f (by rw [h.nextFrame]; exact Nat.ne_of_lt hd)
  have hcases : ∀ d < (m'.newFrame f).nextFrame, d = m.nextFrame ∨ d < m.nextFrame := fun d hd =>
    (Nat.lt_succ_iff_lt_or_eq.mp (hd.trans_eq (congrArg (· + 1) h.nextFrame))).symm
  have hcell_ne : ∀ d < m.nextFrame, ∀ name k i, m.cell? d name = some i →
      f.table.lookup k ≠ some i := fun d hd name k i hi hk =>
    absurd (hm.cell_lt_of hd hi) (Nat.not_lt.mpr (hfresh _ (mem_of_lookup hk)).1)
  refine ⟨fun d hd => ?_, fun d hd b hb => ?_, fun d hd e he heq => ?_,
    fun d hd e he name k i hi hk => ?_⟩
  · rcases hcases d hd with rfl | hd
    · rw [bufferOf, hnew]
      exact hbuffer.2
    · rw [bufferOf, hold d hd]
      exact (hm.buffer_lt d hd).trans_le h.nextBuffer
  · rcases hcases d hd with rfl | hd
    · rw [hnew] at hb
      exact (hfresh b hb).2
    · rw [hold d hd] at hb
      exact (hm.cell_lt d hd b hb).trans_le h.nextCell
  · rcases hcases d hd with rfl | hd <;> rcases hcases e he with rfl | he
    · rfl
    · rw [bufferOf, bufferOf, hnew, hold e he] at heq
      exact absurd (hm.buffer_lt e he) (Nat.not_lt.mpr (hbuffer.1.trans_eq heq))
    · rw [bufferOf, bufferOf, hnew, hold d hd] at heq
      exact absurd (hm.buffer_lt d hd) (Nat.not_lt.mpr (hbuffer.1.trans_eq heq.symm))
    · rw [bufferOf, bufferOf, hold d hd, hold e he] at heq
      exact hm.buffers d hd e he heq
  · rcases hcases d hd with rfl | hd <;> rcases hcases e he with rfl | he
    · rw [cell?, hnew] at hi hk
      exact ⟨rfl, hinjective name k i hi hk⟩
    · rw [cell?, hnew] at hi
      rw [cell?, hold e he] at hk
      exact absurd hi (hcell_ne e he k name i hk)
    · rw [cell?, hold d hd] at hi
      rw [cell?, hnew] at hk
      exact absurd hk (hcell_ne d hd name k i hi)
    · rw [cell?, hold d hd] at hi
      rw [cell?, hold e he] at hk
      exact hm.cells d hd e he name k i hi hk

/-- Adding a context whose buffer and cells are new adds a scope. -/
theorem newFrame_holds (hm : m.Holds s) (h : m.Extends m') {f : Frame}
    (hapart : (m'.newFrame f).Apart) (hs : (m'.newFrame f).Shows m.nextFrame sc) :
    (m'.newFrame f).Holds (s.push sc) := by
  refine ⟨?_, hapart, fun d sc' hd => ?_⟩
  · rw [Array.size_push, ← hm.size, ← h.nextFrame]
    rfl
  · rw [Array.getElem?_push, ← hm.size] at hd
    by_cases hlast : d = m.nextFrame
    · rw [if_pos hlast, Option.some_inj] at hd
      rw [hlast, ← hd]
      exact hs
    · rw [if_neg hlast] at hd
      have hlt : d < m.nextFrame := hm.size ▸ (Array.getElem?_eq_some_iff.mp hd).1
      refine (hm.shows d sc' hd).same ?_ (h.buffers _ (hm.apart.buffer_lt d hlt))
        fun name i hi => h.cells i (hm.apart.cell_lt_of hlt hi)
      rw [← h.frames]
      exact frames_put_of_ne m' f (by rwa [h.nextFrame])

theorem create_holds (hm : m.Holds s) : m.create.Holds (s.push {}) := by
  refine newFrame_holds hm newBuffer_extends (newFrame_apart hm.apart newBuffer_extends
    ⟨le_rfl, Nat.lt_succ_self _⟩ (fun _ hb => by cases hb) fun _ _ _ hi => by cases hi) ?_
  have hframe : m.create.frames m.nextFrame = { order := ⟨m.nextBuffer, 0⟩ } :=
    frames_put _ _ _
  refine ⟨?_, ?_, ?_, fun k => ?_⟩
  · exact congrArg Frame.parent hframe
  · show m.create.names m.nextFrame = _
    rw [names, hframe]
    rfl
  · show m.create.length m.nextFrame = _
    rw [length, hframe]
    rfl
  · show m.create.get? m.nextFrame k = _
    rw [get?, cell?, hframe]
    rfl

/-- **A clone** has the variables of its original in cells of its own. -/
theorem copy_holds (hm : m.Holds s) (hc : c < m.nextFrame) (hsc : s[c]? = some sc) :
    (m.copy c).Holds (s.push sc) := by
  have hs : m.Shows c sc := hm.shows c sc hsc
  have hcopy := copyCells_copies (hm.apart.cell_lt c hc)
  have hextends : m.Extends ((m.copyCells (m.frames c).table).2.newBuffer (m.names c)).2 :=
    hcopy.toExtends.trans newBuffer_extends
  refine newFrame_holds hm hextends (newFrame_apart hm.apart hextends
    ⟨hcopy.nextBuffer, Nat.lt_succ_self _⟩ hcopy.fresh hcopy.injective) ?_
  have hframe : (m.copy c).frames m.nextFrame = { m.frames c with
      table := (m.copyCells (m.frames c).table).1
      order := ⟨m.nextBuffer, (m.frames c).order.length⟩ } := by
    rw [← hcopy.nextFrame, ← hcopy.nextBuffer_eq]
    exact frames_put _ _ _
  refine ⟨?_, ?_, ?_, fun k => ?_⟩
  · exact (congrArg Frame.parent hframe).trans hs.parent
  · have hbuffer : (m.copy c).buffers m.nextBuffer = m.names c := by
      rw [← hcopy.nextBuffer_eq]
      exact Function.update_self ..
    show (m.copy c).names m.nextFrame = _
    rw [names, hframe, read, hbuffer, ← hs.names]
    refine List.take_of_length_le ?_
    exact ((congrArg _ hs.names).trans hs.length.symm).le
  · show (m.copy c).length m.nextFrame = _
    rw [length, hframe]
    exact hs.length
  · show (m.copy c).get? m.nextFrame k = _
    rw [get?, cell?, hframe, ← hs.get?]
    exact hcopy.values k

/-! ### Options -/

theorem modify_last (s : Scopes) (sc : Scope) (f : Scope → Scope) :
    (s.push sc).modify s.size f = s.push (f sc) := by
  refine Array.ext_getElem? fun i => ?_
  rw [Array.getElem?_modify, Array.getElem?_push, Array.getElem?_push]
  by_cases hi : i = s.size
  · rw [if_pos hi.symm, if_pos hi, if_pos hi]
    rfl
  · rw [if_neg (Ne.symm hi), if_neg hi, if_neg hi]

theorem last_lt (hm : m.Holds (s.push sc)) : s.size < m.nextFrame := by
  rw [hm.size, Array.size_push]
  exact Nat.lt_succ_self _

theorem set_last (hm : m.Holds (s.push sc)) (name : Text) (v : Value) :
    (m.set spare s.size name v).Holds (s.push { sc with vars := sc.vars.set name v }) := by
  have hset : (m.set spare s.size name v).Holds _ := set_holds hm (last_lt hm) name v
  rwa [modify_last] at hset

/-- An option for the last context. -/
theorem apply_last (hm : m.Holds (s.push sc)) (o : ContextOption Value) :
    (m.apply spare s.size o).Holds (s.push (sc.apply o)) := by
  cases o with
  | var name v => exact set_last hm name v
  | vars bindings =>
    rw [Scope.apply, ← OrderedMap.sortBindings_eq, apply]
    generalize sortBindings bindings = sorted
    induction sorted generalizing m sc with
    | nil => exact hm
    | cons b rest ih => exact ih (set_last hm b.1 b.2)
  | parent p =>
    have hparent := parent_holds hm (last_lt hm) p
    rwa [modify_last] at hparent
  | skip => exact hm

theorem applyAll_last (hm : m.Holds (s.push sc)) (options : List (ContextOption Value)) :
    (m.applyAll spare s.size options).Holds (s.push (sc.applyAll options)) := by
  induction options generalizing m sc with
  | nil => exact hm
  | cons o rest ih => exact ih (apply_last hm o)

/-! ### Runs -/

theorem blank_holds : blank.Holds #[] :=
  ⟨rfl, ⟨nofun, nofun, nofun, nofun⟩, fun c sc hc => by simp at hc⟩

theorem modify_none (hc : s.size ≤ c) (f : Scope → Scope) : s.modify c f = s := by
  refine Array.ext_getElem? fun d => ?_
  rw [Array.getElem?_modify]
  split
  · next h =>
    rw [← h, Array.getElem?_eq_none hc]
    rfl
  · rfl

/-- **Contexts in memory are ordered maps.** An operation answers the same on both and leaves
them agreeing. -/
theorem perform_holds (op : ContextOp) (m : Memory) (s : Scopes) (hm : m.Holds s) :
    (perform spare op m).1 = (Scopes.perform op s).1 ∧
      (perform spare op m).2.Holds (Scopes.perform op s).2 := by
  have hcreated : ContextOp.Answer.created m.nextFrame = .created s.size := congrArg _ hm.size
  cases op with
  | create options =>
    refine ⟨hcreated, ?_⟩
    rw [perform, hm.size]
    exact applyAll_last (create_holds hm) options
  | child c options =>
    refine ⟨hcreated, ?_⟩
    rw [perform, hm.size]
    exact applyAll_last (create_holds hm) (.parent (some c) :: options)
  | clone c options =>
    refine ⟨hcreated, ?_⟩
    rw [perform, hm.size]
    refine applyAll_last ?_ options
    by_cases hc : c < s.size
    · rw [if_pos hc, Array.getElem?_eq_getElem hc]
      exact copy_holds hm (hm.size ▸ hc) (Array.getElem?_eq_getElem hc)
    · rw [if_neg hc, Array.getElem?_eq_none (Nat.le_of_not_lt hc)]
      exact create_holds hm
  | set c name v =>
    refine ⟨rfl, ?_⟩
    rw [perform, Scopes.perform]
    by_cases hc : c < m.nextFrame
    · rw [if_pos hc]
      exact set_holds hm hc name v
    · rw [if_neg hc, modify_none (hm.size ▸ Nat.le_of_not_lt hc)]
      exact hm
  | clearVar c name =>
    rw [perform, Scopes.perform]
    by_cases hc : c < m.nextFrame
    · rw [if_pos hc]
      obtain ⟨hfound, hholds⟩ := clearVar_holds hm hc name
      exact ⟨congrArg _ hfound, hholds⟩
    · have hle : s.size ≤ c := hm.size ▸ Nat.le_of_not_lt hc
      rw [if_neg hc, modify_none hle, Array.getElem?_eq_none hle]
      exact ⟨rfl, hm⟩
  | clear c =>
    refine ⟨rfl, ?_⟩
    rw [perform, Scopes.perform]
    by_cases hc : c < m.nextFrame
    · rw [if_pos hc]
      exact clear_holds hm hc
    · rw [if_neg hc, modify_none (hm.size ▸ Nat.le_of_not_lt hc)]
      exact hm

/-- What there is to see of a context: its enclosing scope, its names in order and their
values. -/
def view (m : Memory) (c : ContextId) : Option ContextId × List Text × (Text → Option Value) :=
  ((m.frames c).parent, m.names c, m.get? c)

theorem Shows.view_eq (hs : m.Shows c sc) :
    m.view c = (sc.parent, sc.vars.names, sc.vars.get?) := by
  rw [view, hs.parent, hs.names]
  exact congrArg _ (congrArg _ (funext hs.get?))

end Memory

/-- **Contexts are independent ordered maps over whole runs.** Whatever operations run one after
another on contexts made so far, in memory and in a heap they answer as on ordered maps. After
them

* every context in memory has names without duplicates, which are those of its table, as many as
  its length says, and it shows what its ordered map holds;
* every context of the heap has the variables of its ordered map, in the same order;
* one more operation leaves every context but its target as it is. -/
theorem contexts_run (spare : Nat → Nat) (ops : List ContextOp) :
    let memory := ContextOp.run (Memory.perform spare) ops Memory.blank
    let heap := ContextOp.run Heap.perform ops Heap.empty
    let maps := ContextOp.run Scopes.perform ops #[]
    memory.1 = maps.1 ∧ heap.1 = maps.1 ∧
    memory.2.nextFrame = maps.2.size ∧ heap.2.contexts.size = maps.2.size ∧
    (∀ c sc, maps.2[c]? = some sc →
      ((memory.2.names c).Nodup ∧
        (∀ name, name ∈ memory.2.names c ↔ (memory.2.cell? c name).isSome) ∧
        memory.2.length c = (memory.2.names c).length ∧
        memory.2.view c = (sc.parent, sc.vars.names, sc.vars.get?)) ∧
      (heap.2.context c).parent = sc.parent ∧ (heap.2.context c).vars = sc.vars.entries ∧
        heap.2.names c = memory.2.names c) ∧
    ∀ op d, d < maps.2.size → op.target ≠ some d →
      (Memory.perform spare op memory.2).2.view d = memory.2.view d ∧
      ((Heap.perform op heap.2).2.context d).parent = (heap.2.context d).parent ∧
      ((Heap.perform op heap.2).2.context d).vars = (heap.2.context d).vars := by
  intro memory heap maps
  obtain ⟨hmemory, hm⟩ : memory.1 = maps.1 ∧ memory.2.Holds maps.2 :=
    ContextOp.run_related Memory.perform_holds ops Memory.blank_holds
  obtain ⟨hheap, hh⟩ : heap.1 = maps.1 ∧ heap.2.Agrees maps.2 :=
    ContextOp.run_related Heap.perform_agrees ops Heap.Agrees.empty
  refine ⟨hmemory, hheap, hm.size, hh.size, fun c sc hc => ?_, fun op d hd hne => ?_⟩
  · have hs : memory.2.Shows c sc := hm.shows c sc hc
    have hctx : (heap.2.context c).Agrees sc := hh.context c sc hc
    refine ⟨⟨?_, fun name => hs.mem_names, ?_, hs.view_eq⟩, hctx.parent, hctx.vars, ?_⟩
    · rw [hs.names]
      exact sc.vars.nodup
    · rw [hs.length, hs.names]
    · rw [hs.names, Heap.names, Context.names, hctx.vars]
      rfl
  · have hsame : (Scopes.perform op maps.2).2[d]? = maps.2[d]? := Scopes.perform_of_ne hd hne
    have hget : maps.2[d]? = some maps.2[d] := Array.getElem?_eq_getElem hd
    have hm' : (Memory.perform spare op memory.2).2.Holds (Scopes.perform op maps.2).2 :=
      (Memory.perform_holds op memory.2 maps.2 hm).2
    have hh' := (Heap.perform_agrees op heap.2 maps.2 hh).2
    have hctx := hh.context d _ hget
    have hctx' := hh'.context d _ (hsame.trans hget)
    refine ⟨?_, hctx'.parent.trans hctx.parent.symm, hctx'.vars.trans hctx.vars.symm⟩
    rw [(hm'.shows d _ (hsame.trans hget)).view_eq, (hm.shows d _ hget).view_eq]

end Reckoner
