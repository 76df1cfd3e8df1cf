import Reckoner.Proofs.Truncation

/-!
# Blocks that are cut off

A block announces how many fields it has, but the stream may end behind any of its records. Then it
has the fields that are there. A field has three records, for what it holds, its name and its
comment, and labels that are missing are taken to be empty. For a context, a field without comment
is as good as one with an empty comment, but one without name sets a variable with an empty name,
whatever the name was that is missing.
-/

namespace Reckoner

open Reading (Takes)

variable {read : RecordReader} {layout : Layout}

/-! ### Fields -/

/-- The fields of scalars of which there are `j` records. Missing labels are empty. -/
def Field.cut (layout : Layout) : List (Scalar × Text × Text) → Nat → List Field
  | [], _ => []
  | _, 0 => []
  | f :: _, 1 => [⟨some (f.1.normal layout).datum, [], []⟩]
  | f :: _, 2 => [⟨some (f.1.normal layout).datum, f.2.1, []⟩]
  | f :: rest, j + 3 => ⟨some (f.1.normal layout).datum, f.2.1, f.2.2⟩ :: cut layout rest j

/-- At its end a stream gives nothing, again and again. -/
def EndsQuietly (read : RecordReader) (layout : Layout) : Prop :=
  ∀ (d : Decoder) (h : Heap), d.At layout [] →
    ∃ d', read.exec ⟨d, h⟩ = (.ok none, ⟨d', h⟩) ∧ d'.At layout []

theorem endsQuietly {catalog : Catalog} {version : Int} {fuel : Nat} (hfuel : 0 < fuel) :
    EndsQuietly (readRecord catalog version fuel) layout := by
  obtain ⟨k, rfl⟩ := Nat.exists_eq_succ_of_ne_zero (Nat.pos_iff_ne_zero.mp hfuel)
  intro d h hd
  obtain ⟨d', htag, hd'⟩ := Decoder.at_end hd
  exact ⟨d', by rw [readRecord_succ, Reading.exec_bind_ok (by rw [Reading.exec_step, htag])]; rfl,
    hd'⟩

/-- A label that is missing is empty. -/
theorem exec_readLabel_end (hend : EndsQuietly read layout) {d : Decoder} (hd : d.At layout [])
    (what : Text) (h : Heap) :
    ∃ d', (readLabel read what).exec ⟨d, h⟩ = (.ok [], ⟨d', h⟩) ∧ d'.At layout [] := by
  obtain ⟨d', hexec, hd'⟩ := hend d h hd
  exact ⟨d', by rw [readLabel, Reading.exec_bind_ok hexec]; rfl, hd'⟩

/-- At the end of a stream there are no more fields. -/
theorem readFields_end (hend : EndsQuietly read layout) {d : Decoder} (hd : d.At layout [])
    (n k : Nat) (h : Heap) :
    ∃ d', (readFields read n k).run ⟨d, h⟩ = (([], none), ⟨d', h⟩) ∧ d'.At layout [] := by
  cases n with
  | zero => exact ⟨d, rfl, hd⟩
  | succ n =>
    obtain ⟨d', hexec, hd'⟩ := hend d h hd
    have hfield : (readField read k).exec ⟨d, h⟩ = (.ok none, ⟨d', h⟩) := by
      rw [readField, Reading.exec_bind_ok hexec]
      rfl
    exact ⟨d', by rw [readFields_succ, hfield], hd'⟩

/-- A field of which only the content is there has empty labels. -/
theorem readField_content (hread : ReadsScalars read layout) (hend : EndsQuietly read layout)
    {s : Scalar} (hs : s.Kept layout) {d : Decoder} (hd : d.At layout [.scalar s]) (k : Nat)
    (h : Heap) :
    ∃ d' h', (readField read k).exec ⟨d, h⟩
        = (.ok (some ⟨some (s.normal layout).datum, [], []⟩), ⟨d', h'⟩) ∧ d'.At layout [] ∧
      h.Grows h' := by
  obtain ⟨_, d₁, h₁, hexec, hd₁, hg, rfl⟩ := hread s hs [] d h hd
  obtain ⟨d₂, hname, hd₂⟩ := exec_readLabel_end hend hd₁ ("name of field " ++ Text.ofNat k) h₁
  obtain ⟨d₃, hcomment, hd₃⟩ :=
    exec_readLabel_end hend hd₂ ("comment of field " ++ Text.ofNat k) h₁
  refine ⟨d₃, h₁, ?_, hd₃, hg⟩
  rw [readField, Reading.exec_bind_ok hexec]
  simp only [Reading.exec_bind, hname, hcomment]
  rfl

/-- A field without comment has an empty one. -/
theorem readField_named (hread : ReadsScalars read layout) (hend : EndsQuietly read layout)
    {s : Scalar} (hs : s.Kept layout) {name : Text} (hname : name.length ≤ 2 ^ 28) {d : Decoder}
    (hd : d.At layout [.scalar s, .label name]) (k : Nat) (h : Heap) :
    ∃ d' h', (readField read k).exec ⟨d, h⟩
        = (.ok (some ⟨some (s.normal layout).datum, name, []⟩), ⟨d', h'⟩) ∧ d'.At layout [] ∧
      h.Grows h' := by
  obtain ⟨_, d₁, h₁, hexec, hd₁, hg₁, rfl⟩ := hread s hs [.label name] d h hd
  obtain ⟨_, d₂, h₂, hlabel, hd₂, hg₂, rfl⟩ :=
    takes_label hread hname ("name of field " ++ Text.ofNat k) [] d₁ h₁ hd₁
  obtain ⟨d₃, hcomment, hd₃⟩ :=
    exec_readLabel_end hend hd₂ ("comment of field " ++ Text.ofNat k) h₂
  refine ⟨d₃, h₂, ?_, hd₃, hg₁.trans hg₂⟩
  rw [readField, Reading.exec_bind_ok hexec]
  simp only [Reading.exec_bind, hlabel, hcomment]
  rfl

/-- A field at the end of a stream is the last one. -/
theorem readFields_last (hend : EndsQuietly read layout) {k : Nat} {f : Field} {d d₁ : Decoder}
    {h h₁ : Heap} (hexec : (readField read k).exec ⟨d, h⟩ = (.ok (some f), ⟨d₁, h₁⟩))
    (hd₁ : d₁.At layout []) (hg : h.Grows h₁) (n : Nat) :
    ∃ d' h', (readFields read (n + 1) k).run ⟨d, h⟩ = (([f], none), ⟨d', h'⟩) ∧
      d'.At layout [] ∧ h.Grows h' := by
  obtain ⟨d₂, hrun, hd₂⟩ := readFields_end hend hd₁ n (k + 1) h₁
  exact ⟨d₂, h₁, by rw [readFields_succ, hexec]; simp only [hrun], hd₂, hg⟩

/-- The records of fields of scalars. -/
def Piece.fields (fs : List (Scalar × Text × Text)) : List Piece :=
  fs.flatMap fun f => field ([.scalar f.1], f.2)

/-- **Of a block that is cut off the fields in front of the cut are read.** The induction is over
three records at a time, which is one field. -/
theorem readFields_cut (hread : ReadsScalars read layout) (hend : EndsQuietly read layout)
    {fs : List (Scalar × Text × Text)} (hfs : ∀ f ∈ fs, f.1.Kept layout ∧ Brief f.2) (k j : Nat)
    (d : Decoder) (h : Heap) (hd : d.At layout ((Piece.fields fs).take j)) :
    ∃ d' h', (readFields read fs.length k).run ⟨d, h⟩
        = ((Field.cut layout fs j, none), ⟨d', h'⟩) ∧ d'.At layout [] ∧ h.Grows h' := by
  fun_induction Field.cut layout fs j generalizing k d h with
  | case1 j =>
    have hd : d.At layout [] := by simpa [Piece.fields] using hd
    exact ⟨d, h, rfl, hd, .refl h⟩
  | case2 fs hne =>
    obtain ⟨d', hrun, hd'⟩ := readFields_end hend hd fs.length k h
    exact ⟨d', h, hrun, hd', .refl h⟩
  | case3 f rest =>
    obtain ⟨d₁, h₁, hexec, hd₁, hg⟩ :=
      readField_content hread hend (hfs f List.mem_cons_self).1 hd k h
    exact readFields_last hend hexec hd₁ hg rest.length
  | case4 f rest =>
    obtain ⟨hkept, hbrief⟩ := hfs f List.mem_cons_self
    obtain ⟨d₁, h₁, hexec, hd₁, hg⟩ := readField_named hread hend hkept hbrief.1 hd k h
    exact readFields_last hend hexec hd₁ hg rest.length
  | case5 f rest j ih =>
    obtain ⟨hkept, hbrief⟩ := hfs f List.mem_cons_self
    have hd : d.At layout (Piece.field ([.scalar f.1], f.2) ++ (Piece.fields rest).take j) := hd
    obtain ⟨_, d₁, h₁, hexec, hd₁, hg₁, g, rfl, hvalue, hname, hcomment⟩ :=
      takes_field hread (contentBack_scalar hread hkept) hbrief k _ d h hd
    obtain ⟨d₂, h₂, hrun, hd₂, hg₂⟩ :=
      ih (fun f' hf' => hfs f' (List.mem_cons_of_mem f hf')) (k + 1) d₁ h₁ hd₁
    obtain ⟨value, name, comment⟩ := g
    obtain rfl : value = _ := hvalue
    obtain rfl : name = _ := hname
    obtain rfl : comment = _ := hcomment
    refine ⟨d₂, h₂, ?_, hd₂, hg₁.trans hg₂⟩
    rw [List.length_cons, readFields_succ, hexec]
    simp only [hrun]

theorem readBlock_cut (hread : ReadsScalars read layout) (hend : EndsQuietly read layout)
    {fs : List (Scalar × Text × Text)} (hlen : fs.length < 2 ^ 63)
    (hfs : ∀ f ∈ fs, f.1.Kept layout ∧ Brief f.2) {j : Nat} {d : Decoder} {h : Heap}
    (hd : d.At layout (.count fs.length :: (Piece.fields fs).take j)) :
    ∃ d' h', (readBlock read).exec ⟨d, h⟩ = (.ok (Field.cut layout fs j), ⟨d', h'⟩) ∧
      d'.At layout [] ∧ h.Grows h' := by
  obtain ⟨_, d₁, h₁, hexec, hd₁, hg₁, rfl⟩ :=
    hread (.int (Int64.ofNat fs.length)) trivial _ d h hd
  obtain ⟨d₂, h₂, hrun, hd₂, hg₂⟩ := readFields_cut hread hend hfs 0 j d₁ h₁ hd₁
  refine ⟨d₂, h₂, ?_, hd₂, hg₁.trans hg₂⟩
  rw [readBlock_exec, readBlockPart_run, hexec]
  simp only [Scalar.normal, Scalar.datum, readCounted, if_neg (count_nonneg hlen),
    toNat_count hlen, hrun]

/-! ### Variables -/

/-- The fields of variables that hold scalars. -/
def Scalar.fields (vars : List (Text × Scalar)) : List (Scalar × Text × Text) :=
  vars.map fun b => (b.2, b.1, [])

/-- The variables as a context has them. -/
def Scalar.vars (vars : List (Text × Scalar)) : List (Text × Value) :=
  vars.map fun b => (b.1, b.2.leaf.value)

/-- The field of a variable that holds a scalar. -/
def Field.ofVar (layout : Layout) (b : Text × Scalar) : Field :=
  ⟨some (b.2.normal layout).datum, b.1, []⟩

/-- Where the cut is not right behind a value, the variables in front of it are there. -/
theorem Field.cut_whole (layout : Layout) {vars : List (Text × Scalar)} {j : Nat}
    (hj : j % 3 = 1 → vars.length ≤ j / 3) :
    Field.cut layout (Scalar.fields vars) j
      = (vars.take ((j + 1) / 3)).map (Field.ofVar layout) := by
  induction vars generalizing j with
  | nil => simp [Scalar.fields, Field.cut]
  | cons b vars ih =>
    match j with
    | 0 => rfl
    | 1 => exact absurd (hj rfl) (by simp)
    | 2 => rfl
    | j + 3 =>
      have hcut := ih (j := j) fun hmod => by
        have := hj (by omega)
        rw [List.length_cons] at this
        omega
      rw [show (j + 3 + 1) / 3 = (j + 1) / 3 + 1 by omega, List.take_succ_cons, List.map_cons,
        ← hcut]
      rfl

/-- Where the cut is right behind a value, this has no name. -/
theorem Field.cut_value (layout : Layout) {vars : List (Text × Scalar)} {j : Nat}
    (hj : j % 3 = 1) {b : Text × Scalar} (hb : vars[j / 3]? = some b) :
    Field.cut layout (Scalar.fields vars) j
      = (vars.take (j / 3)).map (Field.ofVar layout) ++ [Field.ofVar layout ([], b.2)] := by
  induction vars generalizing j with
  | nil => simp at hb
  | cons a vars ih =>
    match j with
    | 1 =>
      obtain rfl : a = b := by simpa using hb
      rfl
    | j + 3 =>
      rw [show (j + 3) / 3 = j / 3 + 1 by omega] at hb ⊢
      have hcut := ih (j := j) (by omega) (by simpa using hb)
      rw [List.take_succ_cons, List.map_cons, List.cons_append, ← hcut]
      rfl

/-! ### Contexts -/

namespace Heap

variable {h : Heap} {c : ContextId} {bs : List (Text × Value)}

/-- Setting variables of a context changes no older one. -/
theorem keeps_setAll {lo : Nat} (h : Heap) (hc : lo ≤ c) (bs : List (Text × Value)) :
    Keeps lo h (h.setAll c bs) :=
  ⟨(size_setAll h c bs).ge, fun _ hd =>
    context_setAll_of_ne (Nat.ne_of_lt (lt_of_lt_of_le hd hc)) h bs⟩

/-- A cleared context has the variables that are set, if their names differ. -/
theorem vars_refill (hc : c < h.contexts.size) (hbs : (bs.map (·.1)).Nodup) :
    (((h.clear c).setAll c bs).context c).vars = bs := by
  have hnames : ((((h.clear c).context c).vars ++ bs).map (·.1)).Nodup := by
    rwa [vars_clear, List.nil_append]
  rw [vars_setAll (by rwa [size_clear]) hnames, vars_clear, List.nil_append]

/-- The last one of the variables may have the name of another one, and replaces it. -/
theorem vars_refill_last (hc : c < h.contexts.size) (hbs : (bs.map (·.1)).Nodup)
    (b : Text × Value) :
    (((h.clear c).setAll c (bs ++ [b])).context c).vars = Context.setIn b.1 b.2 bs := by
  have hlast : (h.clear c).setAll c (bs ++ [b]) = ((h.clear c).setAll c bs).setVariable c b.1 b.2 :=
    List.foldl_append ..
  rw [hlast, setVariable, context_update (by rwa [size_setAll, size_clear]), Context.set,
    vars_refill hc hbs]

end Heap

theorem nodup_take_vars {vars : List (Text × Value)} (hvars : (vars.map (·.1)).Nodup) (n : Nat) :
    ((vars.take n).map (·.1)).Nodup := by
  rw [List.map_take]
  exact hvars.sublist (List.take_sublist _ _)

/-- The value of a scalar that is packed is read back. -/
theorem Scalar.datum_leaf {s : Scalar} (hs : s.Kept .packed) :
    (s.normal .packed).datum = .value s.leaf.value := by
  cases s with
  | color c => exact hs.elim
  | real x => simp [Scalar.normal, Binary64.normal, Scalar.datum, Scalar.leaf, Leaf.value]
  | dateTime t => simp [Scalar.normal, DateTime.normal, Scalar.datum, Scalar.leaf, Leaf.value]
  | _ => rfl

/-- Fields of variables set them. -/
theorem ofVar_binds {vars : List (Text × Scalar)} (hvars : ∀ b ∈ vars, b.2.Kept .packed) :
    List.Forall₂ (fun b g => g.name = b.1 ∧ g.value = some (.value b.2)) (Scalar.vars vars)
      (vars.map (Field.ofVar .packed)) := by
  rw [Scalar.vars, List.forall₂_map_left_iff, List.forall₂_map_right_iff, List.forall₂_same]
  exact fun b hb => ⟨rfl, congrArg some (Scalar.datum_leaf (hvars b hb))⟩

/-- The variables of a context of which only `j` records of its fields are there. A value without a
name has the empty one. -/
def Context.cut (vars : List (Text × Value)) (j : Nat) : List (Text × Value) :=
  match vars[j / 3]? with
  | some (_, v) => if j % 3 = 1 then setIn [] v (vars.take (j / 3)) else vars.take ((j + 1) / 3)
  | none => vars

/-- The fields that are left of a block of variables set the variables that are left. -/
theorem cut_binds {vars : List (Text × Scalar)} (hvars : ∀ b ∈ vars, b.2.Kept .packed)
    (hnodup : ((Scalar.vars vars).map (·.1)).Nodup) (j : Nat) :
    ∃ bs, List.Forall₂ (fun b g => g.name = b.1 ∧ g.value = some (.value b.2)) bs
        (Field.cut .packed (Scalar.fields vars) j) ∧
      ∀ (h : Heap) (c : ContextId), c < h.contexts.size →
        (((h.clear c).setAll c bs).context c).vars = Context.cut (Scalar.vars vars) j := by
  have htake : ∀ n, (Scalar.vars vars).take n = Scalar.vars (vars.take n) := fun n =>
    (List.map_take ..).symm
  have hget : (Scalar.vars vars)[j / 3]? = vars[j / 3]?.map fun b => (b.1, b.2.leaf.value) :=
    List.getElem?_map ..
  have hbinds : ∀ n, List.Forall₂ (fun b g => g.name = b.1 ∧ g.value = some (.value b.2))
      ((Scalar.vars vars).take n) ((vars.take n).map (Field.ofVar .packed)) := fun n => by
    rw [htake]
    exact ofVar_binds fun b hb => hvars b (List.mem_of_mem_take hb)
  cases hb : vars[j / 3]? with
  | none =>
    rw [hb] at hget
    have hlen : vars.length ≤ j / 3 := List.getElem?_eq_none_iff.mp hb
    refine ⟨_, by rw [Field.cut_whole _ fun _ => hlen]; exact hbinds _, fun h c hc => ?_⟩
    rw [Heap.vars_refill hc (nodup_take_vars hnodup _), Context.cut, hget]
    exact List.take_of_length_le (by rw [Scalar.vars, List.length_map]; omega)
  | some b =>
    rw [hb] at hget
    by_cases hj : j % 3 = 1
    · have hlast : Field.ofVar .packed ([], b.2) = ⟨some (.value b.2.leaf.value), [], []⟩ := by
        rw [Field.ofVar, Scalar.datum_leaf (hvars b (List.mem_of_getElem? hb))]
      refine ⟨(Scalar.vars vars).take (j / 3) ++ [([], b.2.leaf.value)], ?_, fun h c hc => ?_⟩
      · rw [Field.cut_value _ hj hb, hlast]
        exact List.rel_append (hbinds _) (.cons ⟨rfl, rfl⟩ .nil)
      · rw [Heap.vars_refill_last hc (nodup_take_vars hnodup _), Context.cut, hget]
        exact (if_pos hj).symm
    · refine ⟨_, by rw [Field.cut_whole _ fun h => absurd h hj]; exact hbinds _, fun h c hc => ?_⟩
      rw [Heap.vars_refill hc (nodup_take_vars hnodup _), Context.cut, hget]
      exact (if_neg hj).symm

variable {vars : List (Text × Scalar)}

/-- **A context of which only a part is there has the variables of that part.** -/
theorem readContext_cut (hread : ReadsScalars read .packed) (hend : EndsQuietly read .packed)
    (hlen : vars.length < 2 ^ 63) (hkept : ∀ b ∈ vars, b.2.Kept .packed)
    (hbrief : ∀ b ∈ vars, b.1.length ≤ 2 ^ 28) (hnodup : ((Scalar.vars vars).map (·.1)).Nodup)
    {j : Nat} {d : Decoder}
    (hd : d.At .packed (.count vars.length :: (Piece.fields (Scalar.fields vars)).take j))
    (tag : Text) (h : Heap) :
    ∃ d' h', (readParts read tag .context).exec ⟨d, h⟩
        = (.ok (.context h.contexts.size), ⟨d', h'⟩) ∧ d'.At .packed [] ∧ h.Grows h' ∧
      (h'.context h.contexts.size).vars = Context.cut (Scalar.vars vars) j := by
  have hcount : (Scalar.fields vars).length = vars.length := List.length_map ..
  have hfields : ∀ f ∈ Scalar.fields vars, f.1.Kept .packed ∧ Brief f.2 := by
    intro f hf
    obtain ⟨b, hb, rfl⟩ := List.mem_map.mp hf
    exact ⟨hkept b hb, hbrief b hb, Nat.zero_le _⟩
  rw [← hcount] at hd hlen
  obtain ⟨d', h₁, hblock, hd', hg⟩ :=
    readBlock_cut (h := (h.newContext []).2) hread hend hlen hfields hd
  obtain ⟨bs, hbs, hvars⟩ := cut_binds hkept hnodup j
  have hsize : h.contexts.size < h₁.contexts.size := by
    have := hg.size_le
    rw [Heap.size_newContext] at this
    omega
  have hgrows : h.Grows h₁ := (Heap.grows_newContext h).trans hg
  refine ⟨d', (h₁.clear h.contexts.size).setAll h.contexts.size bs, ?_, hd', ?_,
    hvars h₁ _ hsize⟩
  · have hcontext : (readContext read h.contexts.size).exec ⟨d, (h.newContext []).2⟩
        = (.ok (), ⟨d', (h₁.clear h.contexts.size).setAll h.contexts.size bs⟩) := by
      rw [readContext, Reading.exec_bind_ok hblock,
        Reading.exec_bind_ok (Reading.exec_onHeap _ _)]
      exact exec_setFields hbs d' (h₁.clear h.contexts.size)
    rw [readParts, Reading.exec_bind_ok (Reading.exec_onHeap _ _), Heap.fst_newContext,
      Reading.exec_bind_ok hcontext, Reading.exec_pure]
  · have hclear : Heap.Keeps h.contexts.size h₁ (h₁.clear h.contexts.size) :=
      Heap.keeps_update h₁ le_rfl _
    exact Heap.Keeps.trans (Heap.Keeps.trans hgrows hclear le_rfl)
      (Heap.keeps_setAll _ le_rfl bs) le_rfl

/-! ### Initial segments -/

namespace Context

variable {vars : List (Text × Value)} {j : Nat}

theorem setIn_of_mem {name : Text} {v : Value} {vars : List (Text × Value)}
    (hvars : (vars.map (·.1)).Nodup) (hmem : (name, v) ∈ vars) : setIn name v vars = vars := by
  induction vars with
  | nil => cases hmem
  | cons b vars ih =>
    rw [List.map_cons] at hvars
    obtain ⟨hb, hrest⟩ := List.nodup_cons.mp hvars
    rw [setIn]
    rcases List.mem_cons.mp hmem with rfl | hmem
    · rw [if_pos rfl]
    · have hne : b.1 ≠ name := by
        intro heq
        rw [heq] at hb
        exact hb (List.mem_map_of_mem (f := (·.1)) hmem)
      rw [if_neg hne, ih hrest hmem]

theorem length_setIn_le (name : Text) (v : Value) (vars : List (Text × Value)) :
    (setIn name v vars).length ≤ vars.length + 1 := by
  induction vars with
  | nil => exact le_rfl
  | cons b vars ih =>
    rw [setIn]
    split
    · exact Nat.le_succ _
    · exact Nat.succ_le_succ ih

/-- A cut context has an initial segment of the variables if the cut is not behind a value. -/
theorem cut_prefix (hj : j % 3 ≠ 1) : cut vars j <+: vars := by
  unfold cut
  split
  · rw [if_neg hj]
    exact List.take_prefix _ _
  · exact List.prefix_refl _

/-- Behind a value, a cut context has an initial segment of the variables just if the value is that
of a variable with an empty name. -/
theorem cut_prefix_iff (hnodup : (vars.map (·.1)).Nodup) (hj : j % 3 = 1) {b : Text × Value}
    (hb : vars[j / 3]? = some b) : cut vars j <+: vars ↔ ([], b.2) ∈ vars.take (j / 3 + 1) := by
  have hcut : cut vars j = setIn [] b.2 (vars.take (j / 3)) := by
    rw [cut, hb]
    exact if_pos hj
  have hsucc : vars.take (j / 3 + 1) = vars.take (j / 3) ++ [b] := by
    rw [List.take_add_one, hb]
    rfl
  rw [hcut]
  constructor
  · intro hprefix
    have hlen : (setIn [] b.2 (vars.take (j / 3))).length ≤ (vars.take (j / 3 + 1)).length := by
      refine (length_setIn_le _ _ _).trans ?_
      rw [hsucc, List.length_append, List.length_singleton]
    have hwithin := List.prefix_of_prefix_length_le hprefix (List.take_prefix _ vars) hlen
    exact hwithin.subset (Heap.mem_setIn_self [] b.2 _)
  · intro hmem
    rw [hsucc] at hmem
    rcases List.mem_append.mp hmem with hmem | hmem
    · rw [setIn_of_mem (nodup_take_vars hnodup _) hmem]
      exact List.take_prefix _ _
    · have hlast := List.mem_singleton.mp hmem
      have hfresh : ([] : Text) ∉ (vars.take (j / 3)).map (·.1) := by
        have hnames := nodup_take_vars hnodup (j / 3 + 1)
        rw [hsucc, List.map_append, List.nodup_append] at hnames
        exact fun h => hnames.2.2 _ h _ (List.mem_singleton_self _) (congrArg (·.1) hlast)
      rw [Heap.setIn_of_notMem hfresh, hlast, ← hsucc]
      exact List.take_prefix _ _

end Context

/-! ### Streams -/

/-- Variables that hold scalars are the scalars under their names. -/
theorem scalar_vars {h : Heap} {live : ContextId → Prop} {bs : List (Text × Value)}
    {vars : List (Text × Snapshot)} (hnames : bs.map (·.1) = vars.map (·.1))
    (hshows : List.Forall₂ (h.Shows live) (bs.map (·.2)) (vars.map (·.2)))
    (hkind : ∀ b ∈ bs, b.2.kind ∈ Kind.scalars) (hkept : ∀ b ∈ vars, b.2.Kept layout) :
    ∃ ss : List (Text × Scalar), bs = Scalar.vars ss ∧
      Snapshot.piecesVars vars = (Scalar.fields ss).map (fun f => ([.scalar f.1], f.2)) ∧
      ∀ b ∈ ss, b.2.Kept layout := by
  induction bs generalizing vars with
  | nil =>
    obtain rfl : vars = [] := List.map_eq_nil_iff.mp hnames.symm
    exact ⟨[], rfl, rfl, fun _ hb => (by cases hb)⟩
  | cons b bs ih =>
    cases vars with
    | nil => cases hnames
    | cons u vars =>
      obtain ⟨hname, hnames⟩ := List.cons.inj hnames
      obtain ⟨hshow, hshows⟩ := List.forall₂_cons.mp hshows
      obtain ⟨hb, hbs⟩ := List.forall_mem_cons.mp hkind
      obtain ⟨hu, hvars⟩ := List.forall_mem_cons.mp hkept
      obtain ⟨ss, rfl, hpieces, hss⟩ := ih hnames hshows hbs hvars
      obtain ⟨c, hvalue, -, hpiece, hc⟩ := hshow.scalar hb
      obtain ⟨name, t⟩ := u
      obtain ⟨_, v⟩ := b
      obtain rfl := hname
      obtain rfl := hvalue
      refine ⟨(_, c) :: ss, rfl, ?_, List.forall_mem_cons.mpr ⟨hc _ hu, hss⟩⟩
      rw [Snapshot.piecesVars, hpieces, hpiece]
      rfl

/-- The records of a context of scalars up to a cut behind the count. -/
theorem take_pieces_context {vars : List (Text × Snapshot)} {ss : List (Text × Scalar)}
    (hpieces : Snapshot.piecesVars vars
      = (Scalar.fields ss).map fun f => ([Piece.scalar f.1], f.2)) (j : Nat) :
    (Snapshot.context vars).pieces.take (j + 2) = .opening "context"
      :: .count ss.length :: (Piece.fields (Scalar.fields ss)).take j := by
  rw [Snapshot.pieces, hpieces, Piece.block, List.length_map, Scalar.fields, List.length_map,
    List.flatMap_map]
  rfl

/-- The next value is a context of which only a part is there. -/
theorem nextValue_cutContext {r : Reader} {vars : List (Text × Scalar)} {j : Nat}
    (hlen : vars.length < 2 ^ 63) (hkept : ∀ b ∈ vars, b.2.Kept .packed)
    (hbrief : ∀ b ∈ vars, b.1.length ≤ 2 ^ 28) (hnodup : ((Scalar.vars vars).map (·.1)).Nodup)
    (hr : r.Before .packed (.opening "context" :: .count vars.length
      :: (Piece.fields (Scalar.fields vars)).take j)) (h : Heap) :
    ∃ r' h', r.nextValue h = (.ok (some (.context h.contexts.size)), r', h') ∧
      r'.Before .packed [] ∧ h.Grows h' ∧
      (h'.context h.contexts.size).vars = Context.cut (Scalar.vars vars) j := by
  obtain ⟨d₁, htag, hend, hd₁⟩ := Decoder.at_opening (by decide) hr.decoder
  obtain ⟨k, hk⟩ : ∃ k, r.decoder.size = k + 1 := by
    have := Decoder.length_le_size hr.decoder
    rw [List.length_cons] at this
    exact ⟨r.decoder.size - 1, by omega⟩
  have hread : ReadsScalars (readRecord Catalog.values 1 (k + 1)) .packed :=
    readsScalars k.succ_pos
  obtain ⟨d', h', hexec, hd', hg, hvars⟩ :=
    readContext_cut hread (endsQuietly k.succ_pos) hlen hkept hbrief hnodup hd₁ "context" h
  have htagged : readTagged Catalog.values 1 (k + 1) "context" = (do
      Reading.step Decoder.endRecord
      let v ← readParts (readRecord Catalog.values 1 (k + 1)) "context" .context
      return some (.value v)) := rfl
  have hrecord : r.record.exec ⟨r.decoder, h⟩
      = (.ok ((some (.context h.contexts.size)).map .value), ⟨d', h'⟩) := by
    rw [Reader.record, hr.catalog, hr.version, hk, readRecord_succ,
      Reading.exec_bind_ok (by rw [Reading.exec_step, htag])]
    dsimp only
    rw [htagged, Reading.exec_bind_ok (by rw [Reading.exec_step, hend]),
      Reading.exec_bind_ok hexec]
    rfl
  exact ⟨_, h', Reader.nextValue_eq hrecord, ⟨hr.catalog, hr.version, hd'⟩, hg, hvars⟩

/-- Packed records that a value starts with are opened behind the header. -/
theorem Reader.start_packed {mode : Mode} (hmode : mode = .raw ∨ mode = .binary) {name : Text}
    (hname : name.length ≤ 2 ^ 28) {e : Piece} (he : e.tag ∈ Snapshot.headTags) (es : List Piece) :
    ∃ r, start Catalog.values
        (Stream.header mode name ++ (e :: es).flatMap (Piece.bytes .packed)) = .ok r ∧
      r.mode = mode ∧ r.Before .packed (e :: es) := by
  obtain ⟨b, rest, hbytes, hb⟩ := Piece.bytes_packed_head he
  have hbody : (e :: es).flatMap (Piece.bytes .packed)
      = b :: (rest ++ es.flatMap (Piece.bytes .packed)) := by
    rw [List.flatMap_cons, hbytes, List.cons_append]
  obtain ⟨r, hstart, hr, hleft⟩ :=
    start_body hmode hname hb (rest ++ es.flatMap (Piece.bytes .packed))
  rw [← hbody] at hstart hleft
  exact ⟨r, hstart, hr, hleft.catalog, hleft.version, hleft.decoder⟩

/-- The bytes of some records in front are in front of all of them. -/
theorem Piece.take_bytes (layout : Layout) (es : List Piece) (n : Nat) :
    (es.flatMap (bytes layout)).take ((es.take n).flatMap (bytes layout)).length
      = (es.take n).flatMap (bytes layout) := by
  have hparts : es.flatMap (bytes layout)
      = (es.take n).flatMap (bytes layout) ++ (es.drop n).flatMap (bytes layout) := by
    rw [← List.flatMap_append, List.take_append_drop]
  rw [hparts, List.take_left]

/-- **A context that is cut off between two records is read as the part that is there.** If the cut
is not right behind a value, this is an initial segment of its variables. Behind a value, it is one
just if the value is that of a variable with an empty name. -/
theorem context_cut {h : Heap} {mode : Mode} {name : Text} {c : ContextId} {s : Snapshot}
    (hmode : mode = .raw ∨ mode = .binary) (hname : name.length ≤ 2 ^ 28)
    (hc : h.Storable .packed (.context c)) (hs : h.Shows (fun _ => True) (.context c) s)
    (hscalar : ∀ b ∈ (h.context c).vars, b.2.kind ∈ Kind.scalars) (j : Nat) :
    ∃ r, Reader.start Catalog.values ((Writer.stream mode name h [.context c]).take
        ((Stream.header mode name).length
          + ((s.pieces.take (j + 2)).flatMap (Piece.bytes .packed)).length)) = .ok r ∧
      r.mode = mode ∧
      ∀ h' : Heap, ∃ c' r₁ h₁ r₂, r.nextValue h' = (.ok (some (.context c')), r₁, h₁) ∧
        h'.Grows h₁ ∧ h'.contexts.size ≤ c' ∧
        (h₁.context c').vars = Context.cut (h.context c).vars j ∧
        (j % 3 ≠ 1 → (h₁.context c').vars <+: (h.context c).vars) ∧
        (∀ b, j % 3 = 1 → (h.context c).vars[j / 3]? = some b →
          ((h₁.context c').vars <+: (h.context c).vars ↔
            ([], b.2) ∈ (h.context c).vars.take (j / 3 + 1))) ∧
        r₁.nextValue h₁ = (.ok none, r₂, h₁) := by
  obtain ⟨vars, rfl, -, hnames, hshows⟩ := Heap.shows_context hs
  obtain ⟨hlen, hnodup, hbrief⟩ : Value.Fits h .packed (.context c) := hc.fits _ .refl
  have hkept : ∀ b ∈ vars, b.2.Kept .packed := by
    cases (hc.snapshot hs).kept with
    | context _ _ _ hkept => exact hkept
  obtain ⟨ss, hss, hpieces, hkept⟩ := scalar_vars hnames hshows hscalar hkept
  have htake := take_pieces_context hpieces j
  obtain ⟨r, hstart, hr, hbefore⟩ :=
    Reader.start_packed hmode hname (e := .opening "context") (by decide)
      (.count ss.length :: (Piece.fields (Scalar.fields ss)).take j)
  rw [← htake] at hstart
  refine ⟨r, ?_, hr, fun h' => ?_⟩
  · rw [Writer.stream_packed hmode (by simpa using hc) (.cons hs .nil), List.flatMap_singleton,
      Snapshot.bytes, List.take_length_add_append, Piece.take_bytes, hstart]
  · rw [Context.names] at hnodup hbrief
    rw [hss] at hlen hnodup hbrief ⊢
    rw [Scalar.vars, List.length_map] at hlen
    have hbrief' : ∀ b ∈ ss, b.1.length ≤ 2 ^ 28 := fun b hb =>
      hbrief b.1 (List.mem_map_of_mem (List.mem_map_of_mem hb))
    obtain ⟨r₁, h₁, hnext, hr₁, hg, hvars⟩ :=
      nextValue_cutContext hlen hkept hbrief' hnodup hbefore h'
    obtain ⟨d₂, hnone, -⟩ := Reader.exec_record_none hr₁ h₁
    refine ⟨_, r₁, h₁, _, hnext, hg, le_rfl, hvars, fun hj => ?_, fun b hj hb => ?_,
      Reader.nextValue_eq (o := none) hnone⟩
    · rw [hvars]
      exact Context.cut_prefix hj
    · rw [hvars]
      exact Context.cut_prefix_iff hnodup hj hb

/-- The theorem applies to a context with one variable: without the comment of its only field it is
read as it was. -/
theorem oneVariable_uncommented : ∃ s, Heap.oneVariable.Shows (fun _ => True) (.context 0) s ∧
    ∃ r, Reader.start Catalog.values ((Writer.stream .binary "v" Heap.oneVariable [.context 0]).take
        ((Stream.header .binary "v").length
          + ((s.pieces.take 4).flatMap (Piece.bytes .packed)).length)) = .ok r ∧
      ∃ c r' h, r.nextValue {} = (.ok (some (.context c)), r', h) ∧
        (h.context c).vars = (Heap.oneVariable.context 0).vars := by
  have hname : (Text.ofString "v").length ≤ 2 ^ 28 := by decide
  have hscalar : ∀ b ∈ (Heap.oneVariable.context 0).vars, b.2.kind ∈ Kind.scalars := by
    intro b hb
    rw [List.mem_singleton.mp hb]
    exact .head _
  obtain ⟨s, hs, -⟩ := Heap.storable_oneVariable.written
  obtain ⟨r, hstart, -, hread⟩ :=
    context_cut (.inr rfl) hname Heap.storable_oneVariable hs hscalar 2
  obtain ⟨c, r', h, -, hnext, -, -, hvars, -⟩ := hread {}
  exact ⟨s, hs, r, hstart, c, r', h, hnext, hvars⟩

/-- Behind the value of its only field, the same context is read with a variable that it did not
have. -/
theorem oneVariable_unnamed :
    (Writer.stream .raw [] Heap.oneVariable [.context 0]).take 18
      = [.opening "context", .count 1, .scalar (.int 7)].flatMap (Piece.bytes .packed) ∧
    ∃ r r' h, Reader.start Catalog.values
        ((Writer.stream .raw [] Heap.oneVariable [.context 0]).take 18) = .ok r ∧
      r.nextValue {} = (.ok (some (.context 0)), r', h) ∧ (h.context 0).vars = [([], .int 7)] ∧
      ¬ (h.context 0).vars <+: (Heap.oneVariable.context 0).vars := by
  refine ⟨by decide +kernel, _, _, _, rfl, rfl, rfl, ?_⟩
  rintro ⟨rest, hrest⟩
  cases hrest

end Reckoner
