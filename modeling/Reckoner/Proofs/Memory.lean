import Reckoner.Proofs.Scopes

/-!
# Contexts with the order kept apart

A context can be kept as two structures: a table that gives each name the cell of its value, and
the names in order, at the start of a buffer that is longer than needed. Setting a new name writes
behind the names if there is room, removing one moves the names behind it up in place, removing
all only forgets the length. A clone copies the table with all its cells, and the names.

Two things have to hold for that to be right. The names in the buffer are those in the table, and
no two contexts share a buffer or a cell. Then every operation does to its context what it does
to the ordered map, and to all other contexts nothing.
-/

namespace Reckoner

/-- Names at the start of a buffer. -/
structure Slice where
  /-- The buffer that the names are in. -/
  buffer : Nat
  /-- How many names at its start belong to the slice. -/
  length : Nat

/-- A context: the cells of its variables by name, and the names in order. -/
structure Frame where
  parent : Option ContextId := none
  /-- The cell of each variable. -/
  table : List (Text × Nat) := []
  /-- The names, in the order in which they were first set. -/
  order : Slice

/-- All contexts with their cells and buffers. Those from the given numbers on are unused. -/
structure Memory where
  /-- The contexts by their numbers. -/
  frames : Nat → Frame
  /-- The values of variables. -/
  cells : Nat → Value
  /-- The names that slices look at. -/
  buffers : Nat → List Text
  /-- The first unused number of a context. -/
  nextFrame : Nat
  /-- The first unused cell. -/
  nextCell : Nat
  /-- The first unused buffer. -/
  nextBuffer : Nat

namespace Memory

/-- The memory before anything is made. -/
def blank : Memory where
  frames := fun _ => { order := ⟨0, 0⟩ }
  cells := fun _ => default
  buffers := fun _ => []
  nextFrame := 0
  nextCell := 0
  nextBuffer := 0

/-- The names that a slice holds. -/
def read (m : Memory) (s : Slice) : List Text := (m.buffers s.buffer).take s.length

/-- The names of a context in order. -/
def names (m : Memory) (c : ContextId) : List Text := m.read (m.frames c).order

/-- The number of variables of a context. -/
def length (m : Memory) (c : ContextId) : Nat := (m.frames c).order.length

/-- The cell of a variable. -/
def cell? (m : Memory) (c : ContextId) (name : Text) : Option Nat :=
  (m.frames c).table.lookup name

/-- The value of a variable. -/
def get? (m : Memory) (c : ContextId) (name : Text) : Option Value := (m.cell? c name).map m.cells

/-! ### Operations in place -/

/-- Gives a context another frame. -/
def put (m : Memory) (c : ContextId) (f : Frame) : Memory :=
  { m with frames := Function.update m.frames c f }

/-- Writes a buffer. -/
def write (m : Memory) (b : Nat) (names : List Text) : Memory :=
  { m with buffers := Function.update m.buffers b names }

/-- Takes a new cell. -/
def newCell (m : Memory) (v : Value) : Nat × Memory :=
  (m.nextCell, { m with
    cells := Function.update m.cells m.nextCell v
    nextCell := m.nextCell + 1 })

/-- Takes a new buffer. -/
def newBuffer (m : Memory) (names : List Text) : Nat × Memory :=
  (m.nextBuffer, { m.write m.nextBuffer names with nextBuffer := m.nextBuffer + 1 })

/-- Adds a name to a slice: behind it if there is room, and else in a new buffer with `spare`
room for more. -/
def append (spare : Nat → Nat) (m : Memory) (s : Slice) (name : Text) : Slice × Memory :=
  let names := m.buffers s.buffer
  if s.length < names.length then
    (⟨s.buffer, s.length + 1⟩, m.write s.buffer (names.set s.length name))
  else
    let (b, m) := m.newBuffer (m.read s ++ name :: List.replicate (spare s.length) [])
    (⟨b, s.length + 1⟩, m)

/-- Moves the names of a slice behind number `i` up by one. The last stays behind the slice. -/
def remove (m : Memory) (s : Slice) (i : Nat) : Slice × Memory :=
  (⟨s.buffer, s.length - 1⟩, m.write s.buffer
    ((m.read s).eraseIdx i ++ (m.buffers s.buffer).drop (s.length - 1)))

/-- Sets a variable: its cell if it has one, else a new cell with a new name. -/
def set (spare : Nat → Nat) (m : Memory) (c : ContextId) (name : Text) (v : Value) : Memory :=
  match m.cell? c name with
  | some i => { m with cells := Function.update m.cells i v }
  | none =>
    let f := m.frames c
    let (i, m) := m.newCell v
    let (order, m) := m.append spare f.order name
    m.put c { f with table := (name, i) :: f.table, order }

/-- Removes a variable and says whether it was there. -/
def clearVar (m : Memory) (c : ContextId) (name : Text) : Bool × Memory :=
  match m.cell? c name with
  | none => (false, m)
  | some _ =>
    let f := m.frames c
    let (order, m) := m.remove f.order ((m.names c).idxOf name)
    (true, m.put c { f with table := f.table.filter fun b => b.1 ≠ name, order })

/-- Removes all variables. -/
def clear (m : Memory) (c : ContextId) : Memory :=
  let f := m.frames c
  m.put c { f with table := [], order := ⟨f.order.buffer, 0⟩ }

/-- Copies cells. -/
def copyCells (m : Memory) : List (Text × Nat) → List (Text × Nat) × Memory
  | [] => ([], m)
  | (name, i) :: rest =>
    let (j, m) := m.newCell (m.cells i)
    let (table, m) := copyCells m rest
    ((name, j) :: table, m)

/-- Adds a context. -/
def newFrame (m : Memory) (f : Frame) : Memory :=
  { m.put m.nextFrame f with nextFrame := m.nextFrame + 1 }

/-- Adds a context without variables. -/
def create (m : Memory) : Memory :=
  let (b, m) := m.newBuffer []
  m.newFrame { order := ⟨b, 0⟩ }

/-- Adds a copy of a context. -/
def copy (m : Memory) (c : ContextId) : Memory :=
  let f := m.frames c
  let names := m.names c
  let (table, m) := m.copyCells f.table
  let (b, m) := m.newBuffer names
  m.newFrame { f with table, order := ⟨b, f.order.length⟩ }

/-- Applies one option. -/
def apply (spare : Nat → Nat) (c : ContextId) (m : Memory) : ContextOption Value → Memory
  | .var name v => m.set spare c name v
  | .vars bindings => (sortBindings bindings).foldl (fun m b => m.set spare c b.1 b.2) m
  | .parent p => m.put c { m.frames c with parent := p }
  | .skip => m

/-- Applies options in order. -/
def applyAll (spare : Nat → Nat) (c : ContextId) (m : Memory)
    (options : List (ContextOption Value)) : Memory :=
  options.foldl (apply spare c) m

/-- Performs an operation. Numbers of no context stand for an empty one. -/
def perform (spare : Nat → Nat) : ContextOp → Memory → ContextOp.Answer × Memory
  | .create options, m => (.created m.nextFrame, m.create.applyAll spare m.nextFrame options)
  | .child c options, m =>
    (.created m.nextFrame, m.create.applyAll spare m.nextFrame (.parent (some c) :: options))
  | .clone c options, m =>
    (.created m.nextFrame,
      (if c < m.nextFrame then m.copy c else m.create).applyAll spare m.nextFrame options)
  | .set c name v, m => (.done, if c < m.nextFrame then m.set spare c name v else m)
  | .clearVar c name, m =>
    if c < m.nextFrame then
      let (b, m) := m.clearVar c name
      (.found b, m)
    else (.found false, m)
  | .clear c, m => (.done, if c < m.nextFrame then m.clear c else m)

/-! ### What holds of memory -/

/-- The buffer of a context. -/
def bufferOf (m : Memory) (c : ContextId) : Nat := (m.frames c).order.buffer

/-- A context holds what a scope holds: the names are the same, in the same order, and so are the
values that the table leads to. -/
structure Shows (m : Memory) (c : ContextId) (sc : Scope) : Prop where
  parent : (m.frames c).parent = sc.parent
  /-- The names are the same, in the same order. -/
  names : m.names c = sc.vars.names
  length : m.length c = sc.vars.names.length
  /-- Every name stands for the same value. -/
  get? : ∀ name, m.get? c name = sc.vars.get? name

/-- No two contexts share a buffer or a cell, and all that they have is in use. -/
structure Apart (m : Memory) : Prop where
  /-- The buffers of contexts are in use. -/
  buffer_lt : ∀ c < m.nextFrame, m.bufferOf c < m.nextBuffer
  /-- So are the cells of their variables. -/
  cell_lt : ∀ c < m.nextFrame, ∀ b ∈ (m.frames c).table, b.2 < m.nextCell
  /-- No buffer belongs to two contexts. -/
  buffers : ∀ c < m.nextFrame, ∀ d < m.nextFrame, m.bufferOf c = m.bufferOf d → c = d
  /-- No cell belongs to two variables. -/
  cells : ∀ c < m.nextFrame, ∀ d < m.nextFrame, ∀ name k i,
    m.cell? c name = some i → m.cell? d k = some i → c = d ∧ name = k

/-- The contexts hold what the scopes of their numbers hold, apart from each other. -/
structure Holds (m : Memory) (s : Scopes) : Prop where
  /-- There are as many contexts as scopes. -/
  size : m.nextFrame = s.size
  /-- They share nothing. -/
  apart : m.Apart
  /-- Each of them holds what its scope holds. -/
  shows : ∀ c sc, s[c]? = some sc → m.Shows c sc

variable {m m' : Memory} {s : Scopes} {sc : Scope} {c d : ContextId} {name k : Text} {v : Value}
  {spare : Nat → Nat}

@[simp] theorem frames_put (m : Memory) (c : ContextId) (f : Frame) :
    (m.put c f).frames c = f := Function.update_self ..

theorem frames_put_of_ne (m : Memory) (f : Frame) (hne : d ≠ c) :
    (m.put c f).frames d = m.frames d := Function.update_of_ne hne ..

theorem Apart.cell_lt_of (hm : m.Apart) (hc : c < m.nextFrame) {i : Nat}
    (hi : m.cell? c name = some i) : i < m.nextCell :=
  hm.cell_lt c hc _ (mem_of_lookup hi)

/-- What a context holds depends on its frame, its buffer and its cells. -/
theorem Shows.same (hs : m.Shows c sc) (hframe : m'.frames c = m.frames c)
    (hbuffer : m'.buffers (m.bufferOf c) = m.buffers (m.bufferOf c))
    (hcells : ∀ name i, m.cell? c name = some i → m'.cells i = m.cells i) : m'.Shows c sc where
  parent := by rw [hframe, hs.parent]
  names := by
    rw [← hs.names, Memory.names, Memory.names, read, read, hframe]
    exact congrArg _ hbuffer
  length := by rw [← hs.length, Memory.length, Memory.length, hframe]
  get? name := by
    rw [← hs.get?, Memory.get?, Memory.get?, cell?, hframe]
    exact Option.map_congr fun i hi => hcells name i hi

/-- The order and the table of a context have the same names. -/
theorem Shows.mem_names (hs : m.Shows c sc) : name ∈ m.names c ↔ (m.cell? c name).isSome := by
  rw [hs.names, ← OrderedMap.get?_isSome_iff, ← hs.get?, Memory.get?, Option.isSome_map]

/-- A change that only reaches what one context has, or takes anew. -/
structure Changes (c : ContextId) (m m' : Memory) : Prop where
  /-- There are as many contexts as before. -/
  nextFrame : m'.nextFrame = m.nextFrame
  /-- Cells are only taken. -/
  nextCell : m.nextCell ≤ m'.nextCell
  /-- Buffers are only taken. -/
  nextBuffer : m.nextBuffer ≤ m'.nextBuffer
  /-- Other contexts are as they were. -/
  frames : ∀ d, d ≠ c → m'.frames d = m.frames d
  /-- So are buffers of others. -/
  buffers : ∀ b < m.nextBuffer, b ≠ m.bufferOf c → m'.buffers b = m.buffers b
  /-- So are cells of others. -/
  cells : ∀ i < m.nextCell, (∀ name, m.cell? c name ≠ some i) → m'.cells i = m.cells i
  /-- The context has its old buffer or a new one. -/
  buffer : m'.bufferOf c = m.bufferOf c ∨
    m.nextBuffer ≤ m'.bufferOf c ∧ m'.bufferOf c < m'.nextBuffer
  /-- Its cells are old ones of its own or new ones. -/
  table : ∀ b ∈ (m'.frames c).table, b ∈ (m.frames c).table ∨ b.2 < m'.nextCell
  /-- A name has its old cell or a new one of its own. -/
  cell : ∀ name i, m'.cell? c name = some i →
    m.cell? c name = some i ∨ m.nextCell ≤ i ∧ ∀ k, m'.cell? c k = some i → k = name

theorem Changes.refl (c : ContextId) (m : Memory) : Changes c m m where
  nextFrame := rfl
  nextCell := le_rfl
  nextBuffer := le_rfl
  frames _ _ := rfl
  buffers _ _ _ := rfl
  cells _ _ _ := rfl
  buffer := .inl rfl
  table _ hb := .inl hb
  cell _ _ hi := .inl hi

/-- The buffer of the changed context is the old one, which is apart from all others, or was taken
after them. -/
theorem Changes.bufferOf_ne (h : Changes c m m') (hm : m.Apart) (hc : c < m.nextFrame)
    (hd : d < m.nextFrame) (hdc : d ≠ c) : m'.bufferOf d ≠ m'.bufferOf c := by
  intro heq
  rw [bufferOf, h.frames d hdc] at heq
  rcases h.buffer with hb | ⟨hb, -⟩
  · exact hdc (hm.buffers d hd c hc (heq.trans hb))
  · exact absurd (hm.buffer_lt d hd) (Nat.not_lt.mpr (hb.trans_eq heq.symm))

/-- So are its cells. -/
theorem Changes.cell?_ne (h : Changes c m m') (hm : m.Apart) (hc : c < m.nextFrame)
    (hd : d < m.nextFrame) (hdc : d ≠ c) {i : Nat} (hi : m'.cell? d name = some i) :
    m'.cell? c k ≠ some i := by
  intro hk
  rw [cell?, h.frames d hdc] at hi
  rcases h.cell k i hk with hk | ⟨hlt, -⟩
  · exact hdc (hm.cells d hd c hc name k i hi hk).1
  · exact absurd (hm.cell_lt_of hd hi) (Nat.not_lt.mpr hlt)

/-- No two names of the changed context have the same cell. -/
theorem Changes.cell?_inj (h : Changes c m m') (hm : m.Apart) (hc : c < m.nextFrame) {i : Nat}
    (hi : m'.cell? c name = some i) (hk : m'.cell? c k = some i) : name = k := by
  rcases h.cell name i hi with hi' | ⟨-, hi'⟩
  · rcases h.cell k i hk with hk' | ⟨-, hk'⟩
    · exact (hm.cells c hc c hc name k i hi' hk').2
    · exact hk' name hi
  · exact (hi' k hk).symm

/-- The contexts stay apart. -/
theorem Changes.apart (h : Changes c m m') (hm : m.Apart) (hc : c < m.nextFrame) : m'.Apart where
  buffer_lt d hd := by
    by_cases hdc : d = c
    · subst hdc
      rcases h.buffer with hb | ⟨-, hb⟩
      · rw [hb]
        exact (hm.buffer_lt d hc).trans_le h.nextBuffer
      · exact hb
    · rw [bufferOf, h.frames d hdc]
      exact (hm.buffer_lt d (h.nextFrame ▸ hd)).trans_le h.nextBuffer
  cell_lt d hd b hb := by
    by_cases hdc : d = c
    · subst hdc
      rcases h.table b hb with hb | hb
      · exact (hm.cell_lt d hc b hb).trans_le h.nextCell
      · exact hb
    · rw [h.frames d hdc] at hb
      exact (hm.cell_lt d (h.nextFrame ▸ hd) b hb).trans_le h.nextCell
  buffers := by
    rw [h.nextFrame]
    intro d hd e he heq
    by_cases hdc : d = c
    · by_cases hec : e = c
      · rw [hdc, hec]
      · exact absurd (heq.symm.trans (congrArg _ hdc)) (h.bufferOf_ne hm hc he hec)
    · by_cases hec : e = c
      · exact absurd (heq.trans (congrArg _ hec)) (h.bufferOf_ne hm hc hd hdc)
      · rw [bufferOf, bufferOf, h.frames d hdc, h.frames e hec] at heq
        exact hm.buffers d hd e he heq
  cells := by
    rw [h.nextFrame]
    intro d hd e he name k i hi hk
    by_cases hdc : d = c
    · by_cases hec : e = c
      · subst hdc hec
        exact ⟨rfl, h.cell?_inj hm hc hi hk⟩
      · exact absurd (hdc ▸ hi) (h.cell?_ne hm hc he hec hk)
    · by_cases hec : e = c
      · exact absurd (hec ▸ hk) (h.cell?_ne hm hc hd hdc hi)
      · rw [cell?, h.frames d hdc] at hi
        rw [cell?, h.frames e hec] at hk
        exact hm.cells d hd e he name k i hi hk

/-- A change reaches only what one context holds. -/
theorem Changes.shows (h : Changes c m m') (hm : m.Apart) (hc : c < m.nextFrame)
    (hd : d < m.nextFrame) (hdc : d ≠ c) (hs : m.Shows d sc) : m'.Shows d sc :=
  hs.same (h.frames d hdc)
    (h.buffers _ (hm.buffer_lt d hd) fun heq => hdc (hm.buffers d hd c hc heq))
    fun name i hi => h.cells i (hm.cell_lt_of hd hi) fun k hk =>
      hdc (hm.cells d hd c hc name k i hi hk).1

/-- A change of one context is a change of one scope. -/
theorem Changes.holds (h : Changes c m m') (hm : m.Holds s) (hc : c < m.nextFrame)
    {f : Scope → Scope} (hf : ∀ sc, m.Shows c sc → m'.Shows c (f sc)) :
    m'.Holds (s.modify c f) where
  size := by rw [h.nextFrame, hm.size, Array.size_modify]
  apart := h.apart hm.apart hc
  shows d sc hd := by
    rw [Array.getElem?_modify] at hd
    by_cases hcd : c = d
    · subst hcd
      rw [if_pos rfl] at hd
      obtain ⟨sc, hsc, rfl⟩ := Option.map_eq_some_iff.mp hd
      exact hf sc (hm.shows c sc hsc)
    · rw [if_neg hcd] at hd
      have hlt : d < m.nextFrame := hm.size ▸ (Array.getElem?_eq_some_iff.mp hd).1
      exact h.shows hm.apart hc hlt (Ne.symm hcd) (hm.shows d sc hd)

/-- Cells and buffers are taken, and nothing else happens. -/
structure Extends (m m' : Memory) : Prop where
  /-- The contexts are as they were. -/
  frames : m'.frames = m.frames
  nextFrame : m'.nextFrame = m.nextFrame
  /-- Cells are only taken. -/
  nextCell : m.nextCell ≤ m'.nextCell
  /-- Buffers are only taken. -/
  nextBuffer : m.nextBuffer ≤ m'.nextBuffer
  /-- Cells in use hold what they held. -/
  cells : ∀ i < m.nextCell, m'.cells i = m.cells i
  /-- So do buffers in use. -/
  buffers : ∀ b < m.nextBuffer, m'.buffers b = m.buffers b

theorem Extends.refl (m : Memory) : m.Extends m :=
  ⟨rfl, rfl, le_rfl, le_rfl, fun _ _ => rfl, fun _ _ => rfl⟩

theorem Extends.trans {m'' : Memory} (h : m.Extends m') (h' : m'.Extends m'') : m.Extends m'' :=
  ⟨h'.frames.trans h.frames, h'.nextFrame.trans h.nextFrame, h.nextCell.trans h'.nextCell,
    h.nextBuffer.trans h'.nextBuffer,
    fun i hi => (h'.cells i (hi.trans_le h.nextCell)).trans (h.cells i hi),
    fun b hb => (h'.buffers b (hb.trans_le h.nextBuffer)).trans (h.buffers b hb)⟩

theorem newCell_extends : m.Extends (m.newCell v).2 :=
  ⟨rfl, rfl, Nat.le_succ _, le_rfl, fun _ hi => Function.update_of_ne (Nat.ne_of_lt hi) _ _,
    fun _ _ => rfl⟩

theorem newBuffer_extends {names : List Text} : m.Extends (m.newBuffer names).2 :=
  ⟨rfl, rfl, le_rfl, Nat.le_succ _, fun _ _ => rfl,
    fun _ hb => Function.update_of_ne (Nat.ne_of_lt hb) _ _⟩

/-! ### Slices -/

/-- What does not concern slices stays when one of them changes. -/
structure KeepsFrames (m m' : Memory) : Prop where
  frames : m'.frames = m.frames
  cells : m'.cells = m.cells
  nextFrame : m'.nextFrame = m.nextFrame
  nextCell : m'.nextCell = m.nextCell

/-- A slice is replaced by another, in the same buffer or a new one. -/
structure Replaces (m : Memory) (s : Slice) (m' : Memory) (s' : Slice) : Prop
    extends KeepsFrames m m' where
  /-- Buffers are only taken. -/
  nextBuffer : m.nextBuffer ≤ m'.nextBuffer
  /-- No buffer but that of the slice is written to. -/
  buffers : ∀ b < m.nextBuffer, b ≠ s.buffer → m'.buffers b = m.buffers b
  /-- The new slice is in the same buffer or in a new one. -/
  buffer : s'.buffer = s.buffer ∨ m.nextBuffer ≤ s'.buffer ∧ s'.buffer < m'.nextBuffer

variable {sl : Slice}

/-- Giving a context a frame with a new slice, and with a table of cells that it has or that are
new, is a change of that context. -/
theorem Replaces.changes {m₁ m₂ : Memory} {f : Frame} (h₁ : m.Extends m₁)
    (h₂ : m₁.Replaces (m.frames c).order m₂ f.order)
    (htable : ∀ b ∈ f.table, b ∈ (m.frames c).table ∨ b.2 < m₁.nextCell)
    (hcell : ∀ name i, f.table.lookup name = some i →
      m.cell? c name = some i ∨ m.nextCell ≤ i ∧ ∀ k, f.table.lookup k = some i → k = name) :
    Changes c m (m₂.put c f) where
  nextFrame := h₂.nextFrame.trans h₁.nextFrame
  nextCell := h₁.nextCell.trans_eq h₂.nextCell.symm
  nextBuffer := h₁.nextBuffer.trans h₂.nextBuffer
  frames d hd := by rw [frames_put_of_ne m₂ f hd, h₂.frames, h₁.frames]
  buffers b hb hne := (h₂.buffers b (hb.trans_le h₁.nextBuffer) hne).trans (h₁.buffers b hb)
  cells i hi _ := (congrFun h₂.cells i).trans (h₁.cells i hi)
  buffer := by
    rw [bufferOf, frames_put]
    exact h₂.buffer.imp_right fun h => ⟨h₁.nextBuffer.trans h.1, h.2⟩
  table b hb := by
    rw [frames_put] at hb
    exact (htable b hb).imp_right fun h => h.trans_eq h₂.nextCell.symm
  cell name i hi := by
    rw [cell?, frames_put] at hi
    refine (hcell name i hi).imp_right fun h => ⟨h.1, fun k hk => h.2 k ?_⟩
    rwa [cell?, frames_put] at hk

/-- With room behind the slice the name is written there. -/
theorem append_room (h : sl.length < (m.buffers sl.buffer).length) :
    m.append spare sl name = (⟨sl.buffer, sl.length + 1⟩,
      m.write sl.buffer ((m.buffers sl.buffer).set sl.length name)) := if_pos h

/-- Without room all names go to a new buffer. -/
theorem append_full (h : ¬ sl.length < (m.buffers sl.buffer).length) :
    m.append spare sl name = (⟨m.nextBuffer, sl.length + 1⟩,
      (m.newBuffer (m.read sl ++ name :: List.replicate (spare sl.length) [])).2) := if_neg h

theorem append_replaces : m.Replaces sl (m.append spare sl name).2 (m.append spare sl name).1 := by
  by_cases h : sl.length < (m.buffers sl.buffer).length
  · rw [append_room h]
    exact ⟨⟨rfl, rfl, rfl, rfl⟩, le_rfl, fun b _ hb => Function.update_of_ne hb _ _, .inl rfl⟩
  · rw [append_full h]
    exact ⟨⟨rfl, rfl, rfl, rfl⟩, Nat.le_succ _,
      fun b hb _ => Function.update_of_ne (Nat.ne_of_lt hb) _ _, .inr ⟨le_rfl, Nat.lt_succ_self _⟩⟩

theorem length_append : (m.append spare sl name).1.length = sl.length + 1 := by
  by_cases h : sl.length < (m.buffers sl.buffer).length
  · rw [append_room h]
  · rw [append_full h]

/-- The name stands behind those that were there, with or without room for it. -/
theorem read_append (hfits : sl.length ≤ (m.buffers sl.buffer).length) :
    (m.append spare sl name).2.read (m.append spare sl name).1 = m.read sl ++ [name] := by
  by_cases h : sl.length < (m.buffers sl.buffer).length
  · rw [append_room h]
    simp only [read, write, Function.update_self]
    rw [List.take_succ_eq_append_getElem (by simpa using h), List.take_set_of_le le_rfl,
      List.getElem_set_self]
  · rw [append_full h]
    have hlength : (m.read sl).length = sl.length := by simp [read, hfits]
    show ((m.newBuffer _).2.buffers m.nextBuffer).take (sl.length + 1) = _
    simp only [newBuffer, write, Function.update_self]
    rw [← hlength, List.take_length_add_append]
    rfl

theorem remove_replaces (i : Nat) : m.Replaces sl (m.remove sl i).2 (m.remove sl i).1 :=
  ⟨⟨rfl, rfl, rfl, rfl⟩, le_rfl, fun _ _ hb => Function.update_of_ne hb _ _, .inl rfl⟩

/-- The slice has lost name number `i`, and no other. -/
theorem read_remove {i : Nat} (hfits : sl.length ≤ (m.buffers sl.buffer).length)
    (hi : i < sl.length) : (m.remove sl i).2.read (m.remove sl i).1 = (m.read sl).eraseIdx i := by
  have hlength : ((m.read sl).eraseIdx i).length = sl.length - 1 := by
    rw [List.length_eraseIdx_of_lt (by simpa [read, hfits] using hi)]
    simp [read, hfits]
  simp only [remove, read, write, Function.update_self]
  rw [← read, List.take_append_of_le_length hlength.ge, ← hlength, List.take_length]

end Memory

end Reckoner
