import Reckoner.Proofs.Broadcast
import Reckoner.Proofs.Counting
import Reckoner.Proofs.WellFormed

/-!
# What operators give

No kernel has anything to do with contexts. Nearly all of them give a value that holds no other
value; the matrices that they give have the shape they should have, by the shapes of the operands,
and replication repeats the value that it is given. What is computed item by item is collected
into an array of one kind or a list.

So a property of values that simple values have, and that goes from the parts of a value to the
whole and back, passes from operands to results. Being well-formed is such a property.
-/

namespace Reckoner

namespace Value

/-- A value is well-formed at every depth, when there are `n` contexts. -/
abbrev Formed (n : Nat) (v : Value) : Prop := v.Every (Within Proper 0 n)

/-- A value that holds no other value, has no dimensions and is no reference to a context. -/
def Simple : Value → Prop
  | matrix _ => False
  | array _ _ => False
  | list _ => False
  | context _ => False
  | _ => True

variable {n : Nat} {v : Value}

theorem Simple.formed (hv : v.Simple) : v.Formed n := by
  refine every_of_none ?_ ⟨?_, fun c hc => ?_⟩
  · cases v <;> first | rfl | exact hv.elim
  · cases v <;> trivial
  · rw [hc] at hv
    exact hv.elim

theorem formed_matrix {m : Matrix} (hm : Proper (.matrix m)) : (matrix m).Formed n :=
  every_of_none rfl ⟨hm, fun _ hc => by cases hc⟩

theorem formed_array {elem : Kind} {items : List Value} (hkinds : ∀ v ∈ items, v.kind = elem)
    (hitems : ∀ v ∈ items, v.Formed n) : (array elem items).Formed n :=
  every_array ⟨hkinds, fun _ hc => by cases hc⟩ hitems

theorem formed_list {items : List Value} (hitems : ∀ v ∈ items, v.Formed n) :
    (list items).Formed n :=
  every_list ⟨trivial, fun _ hc => by cases hc⟩ hitems

/-- A property that simple values have, and matrices of the shape that they should have by the
shapes of operands, and that goes from items to sequences and back. -/
structure Closed (P : Value → Prop) : Prop where
  /-- Values without parts have the property. -/
  simple : ∀ {v : Value}, v.Simple → P v
  /-- A matrix has it that is of the right shape if the operands are. -/
  matrix : ∀ {l r : Value} {m : Matrix}, P l → P r →
    (l.Proper → r.Proper → Proper (.matrix m)) → P (.matrix m)
  /-- An array has it if its items do. -/
  array : ∀ {elem : Kind} {items : List Value}, (∀ v ∈ items, v.kind = elem) →
    (∀ v ∈ items, P v) → P (.array elem items)
  /-- A list has it if its items do. -/
  list : ∀ {items : List Value}, (∀ v ∈ items, P v) → P (.list items)
  /-- The items of a sequence have it if the sequence does. -/
  item : ∀ {v w : Value} {items : List Value}, P v → v.items? = some items → w ∈ items → P w

theorem closed_formed (n : Nat) : Closed (Formed n) where
  simple := Simple.formed
  matrix := fun hl hr hm => formed_matrix (hm hl.self.1 hr.self.1)
  array := formed_array
  list := formed_list
  item := Every.item

variable {P : Value → Prop}

/-- A collection has a closed property if its items have it. -/
theorem Closed.collect (hP : Closed P) {items : List Value} (hitems : ∀ v ∈ items, P v) :
    P (collect items) := by
  cases items with
  | nil => exact hP.array (fun _ hv => by cases hv) hitems
  | cons v rest =>
    rw [Value.collect]
    split
    · next hall =>
      refine hP.array (List.forall_mem_cons.mpr ⟨rfl, fun w hw => ?_⟩) hitems
      exact of_decide_eq_true (List.all_eq_true.mp hall w hw)
    · exact hP.list hitems

theorem Closed.promote (hP : Closed P) (hv : P v) : P v.promote := by
  have hone : P (.array v.kind [v]) :=
    hP.array (fun w hw => by rw [List.mem_singleton.mp hw]) fun w hw => by
      rwa [List.mem_singleton.mp hw]
  cases v with
  | array elem items => exact hv
  | _ => exact hone

/-- A collection of well-formed values is well-formed. -/
theorem formed_collect {items : List Value} (hitems : ∀ v ∈ items, v.Formed n) :
    (collect items).Formed n := (closed_formed n).collect hitems

theorem formed_promote (hv : v.Formed n) : v.promote.Formed n := (closed_formed n).promote hv

end Value

/-! ### Matrices -/

namespace Matrix

theorem proper_map {m : Matrix} (f : Binary64 → Binary64) (hm : Value.Proper (.matrix m)) :
    Value.Proper (.matrix (m.map f)) :=
  ⟨hm.1, hm.2.1, by simpa [map] using hm.2.2⟩

theorem proper_build {rows cols : Nat} (f : Nat → Nat → Binary64) (hrows : 0 < rows)
    (hcols : 0 < cols) : Value.Proper (.matrix (build rows cols f)) := by
  refine ⟨hrows, hcols, ?_⟩
  simp [build, List.length_flatMap]

theorem proper_zip {m k r : Matrix} {f : Binary64 → Binary64 → Binary64} (hr : m.zip? f k = some r)
    (hm : Value.Proper (.matrix m)) (hk : Value.Proper (.matrix k)) : Value.Proper (.matrix r) := by
  unfold zip? at hr
  split at hr
  · next hshape =>
    cases hr
    obtain ⟨hrows, hcols⟩ : m.rows = k.rows ∧ m.cols = k.cols := by simpa using hshape
    refine ⟨hm.1, hm.2.1, ?_⟩
    rw [List.length_zipWith, hm.2.2, hk.2.2, ← hrows, ← hcols, Nat.min_self]
  · cases hr

theorem proper_mul {m k r : Matrix} (hr : m.mul? k = some r) (hm : Value.Proper (.matrix m))
    (hk : Value.Proper (.matrix k)) : Value.Proper (.matrix r) := by
  unfold mul? at hr
  split at hr
  · cases hr
    exact proper_build _ hm.1 hk.2.1
  · cases hr

theorem proper_inverse {m r : Matrix} (hr : m.inverse = .ok r) (hm : Value.Proper (.matrix m)) :
    Value.Proper (.matrix r) := by
  have hbuild : ∃ f, r = build m.rows m.rows f := by
    unfold inverse at hr
    split at hr
    · cases hr
    · split at hr
      · next hsquare =>
        cases hr
        unfold squareInverse? at hsquare
        split at hsquare
        · cases hsquare
          exact ⟨_, rfl⟩
        · split at hsquare
          · cases hsquare
          · obtain ⟨⟨t, swaps⟩, -, ht⟩ := Option.bind_eq_some_iff.mp hsquare
            simp only [Option.ite_none_left_eq_some, Option.some_inj] at ht
            exact ⟨_, ht.2.symm⟩
      · cases hr
  obtain ⟨f, rfl⟩ := hbuild
  exact proper_build f hm.1 hm.1

end Matrix

/-! ### Kernels -/

/-- What kernels make of two operands. -/
inductive Kernel.Made (l r : Value) : Value → Prop
  /-- A value without parts. -/
  | simple {v : Value} : v.Simple → Made l r v
  /-- A matrix that is full if the operands are. -/
  | matrix {m : Matrix} : (l.Proper → r.Proper → Value.Proper (.matrix m)) → Made l r (.matrix m)
  /-- The left operand, so many times. -/
  | copies (count : Nat) : Made l r (.array l.kind (List.replicate count l))
  /-- The integers between two ends. -/
  | integers (a b : Int) : Made l r (.array .int (Kernel.integersBetween a b))

/-- The errors of operators: about the types, the lengths, the shapes or the domain of operands,
or about a matrix that has no inverse. -/
inductive Error.OfOperator : Error → Prop
  /-- The types have no meaning for it. -/
  | operands {op left right leftText rightText : Text} :
    OfOperator (.operands op left right leftText rightText)
  /-- Two sequences have different lengths. -/
  | lengths {op : Text} {left right : Nat} : OfOperator (.lengths op left right)
  /-- The shapes do not fit. -/
  | shapes {op left : Text} {right : Option Text} : OfOperator (.shapes op left right)
  /-- An operand is outside of its domain. -/
  | outsideDomain {x : Option Value} {arg : Nat} {func : Text} :
    OfOperator (.outsideDomain x arg func)
  /-- The right matrix has no inverse. -/
  | singular {rows : Nat} : OfOperator (.singular rows)

/-- A value is one that kernels make, and an error is one of operators. -/
structure Answer.Made (l r : Value) (a : Answer) : Prop where
  /-- A value is one that kernels make of these operands. -/
  value : ∀ v, a = some (.ok v) → Kernel.Made l r v
  /-- An error is one that operators report. -/
  error : ∀ e, a = some (.error e) → e.OfOperator

namespace Kernel

variable {l r : Value}

theorem made_none : Answer.Made l r none := ⟨nofun, nofun⟩

theorem made_error {e : Error} (he : e.OfOperator) : Answer.Made l r (some (.error e)) :=
  ⟨nofun, fun _ h => by cases h; exact he⟩

theorem made_ok {v : Value} (hv : Made l r v) : Answer.Made l r (some (.ok v)) :=
  ⟨fun _ h => by cases h; exact hv, nofun⟩

theorem made_simple {v : Value} (hv : v.Simple) : Answer.Made l r (some (.ok v)) :=
  made_ok (.simple hv)

theorem made_logical (f : Bool → Bool → Bool) : Answer.Made l r (logical f l r) := by
  unfold logical
  split
  · exact made_simple trivial
  · exact made_none

theorem made_equals : Answer.Made l r (equals l r) := by
  unfold equals
  split
  · exact made_simple trivial
  · exact made_none

theorem made_notEquals : Answer.Made l r (notEquals l r) := by
  unfold notEquals
  split
  · exact made_simple trivial
  · exact made_none

theorem made_ordered (holds : Ordering → Bool) : Answer.Made l r (ordered holds l r) := by
  unfold ordered
  rcases order? l r with _ | (o | _)
  · exact made_none
  · exact made_simple trivial
  · exact made_simple trivial

/-- Replication gives an array of one value. -/
theorem made_generate : Answer.Made l r (generate l r) := by
  unfold generate
  split
  · split
    · exact made_ok (.copies _)
    · exact made_error .outsideDomain
  · exact made_none

/-- An interval is an array of integers. -/
theorem made_interval : Answer.Made l r (interval l r) := by
  unfold interval
  split
  · split
    · exact made_error .outsideDomain
    · rw [countTo_between]
      exact made_ok (.integers _ _)
  · exact made_none

theorem integersBetween_int {a b : Int} {v : Value} (hv : v ∈ integersBetween a b) :
    ∃ k, v = .int k := by
  unfold integersBetween at hv
  split at hv
  · obtain ⟨k, -, rfl⟩ := List.mem_map.mp hv
    exact ⟨_, rfl⟩
  · obtain ⟨k, -, rfl⟩ := List.mem_map.mp hv
    exact ⟨_, rfl⟩

/-! ### Arithmetic -/

theorem inverse_error {m : Matrix} {e : Error} (he : m.inverse = .error e) : e.OfOperator := by
  unfold Matrix.inverse at he
  split at he
  · cases he
    exact .shapes
  · split at he
    · cases he
    · cases he
      exact .singular

theorem made_exact (op : Text) (b : Int64) (k : Option Int64) :
    Answer.Made l r (some (Integer.exact op b k)) := by
  unfold Integer.exact
  split
  · exact made_simple trivial
  · exact made_error .outsideDomain

theorem made_zipVectors {op : Text} {f : Binary64 → Binary64 → Binary64} {xs ys : List Binary64} :
    Answer.Made l r (some (zipVectors op f xs ys)) := by
  unfold zipVectors
  split
  · exact made_simple trivial
  · exact made_error .shapes

theorem made_fittedVector {op left right : Text} {v : Option (List Binary64)} :
    Answer.Made l r (some (fittedVector op left right v)) := by
  unfold fittedVector
  split
  · exact made_simple trivial
  · exact made_error .shapes

theorem made_fitted {op left right : Text} {m : Option Matrix}
    (hm : ∀ k, m = some k → l.Proper → r.Proper → Value.Proper (.matrix k)) :
    Answer.Made l r (some (fitted op left right m)) := by
  cases m with
  | some m => exact made_ok (.matrix (hm m rfl))
  | none => exact made_error .shapes

theorem made_additive {op : Text} {f : Binary64 → Binary64 → Binary64} :
    Answer.Made l r (additive op f l r) := by
  unfold additive
  split
  · exact made_simple trivial
  · exact made_simple trivial
  · exact made_ok (.matrix fun _ hr => Matrix.proper_map _ hr)
  · exact made_simple trivial
  · exact made_simple trivial
  · exact made_zipVectors
  · exact made_ok (.matrix fun hl _ => Matrix.proper_map _ hl)
  · exact made_fitted fun _ hk => Matrix.proper_zip hk
  · exact made_none

theorem made_plus : Answer.Made l r (plus l r) := by
  unfold plus
  split
  · exact made_exact _ _ _
  all_goals first | exact made_simple trivial | exact made_additive

theorem made_minus : Answer.Made l r (minus l r) := by
  unfold minus
  split
  · exact made_exact _ _ _
  all_goals first | exact made_simple trivial | exact made_additive

theorem made_times : Answer.Made l r (times l r) := by
  unfold times
  split
  · exact made_exact _ _ _
  · unfold repeatText
    split
    · exact made_error .outsideDomain
    · exact made_simple trivial
  · exact made_simple trivial
  · exact made_simple trivial
  · exact made_simple trivial
  · exact made_ok (.matrix fun _ hr => Matrix.proper_map _ hr)
  · exact made_simple trivial
  · exact made_simple trivial
  · exact made_simple trivial
  · split
    · exact made_simple trivial
    · exact made_error .shapes
  · exact made_fittedVector
  · exact made_ok (.matrix fun hl _ => Matrix.proper_map _ hl)
  · exact made_fittedVector
  · exact made_fitted fun _ hk => Matrix.proper_mul hk
  · exact made_simple trivial
  · exact made_none

theorem made_divide : Answer.Made l r (divide l r) := by
  unfold divide
  split
  · unfold Integer.div
    split
    · exact made_error .outsideDomain
    · exact made_simple trivial
  · unfold divideReals
    split
    · exact made_error .outsideDomain
    · split
      · exact made_error .outsideDomain
      · exact made_simple trivial
  · exact made_simple trivial
  · exact made_simple trivial
  · next xs k =>
    cases hinv : k.inverse with
    | ok inv => exact made_fittedVector
    | error e => exact made_error (inverse_error hinv)
  · exact made_ok (.matrix fun hl _ => Matrix.proper_map _ hl)
  · next m k =>
    cases hinv : k.inverse with
    | ok inv =>
      exact made_fitted fun _ hk hm hk' =>
        Matrix.proper_mul hk hm (Matrix.proper_inverse hinv hk')
    | error e => exact made_error (inverse_error hinv)
  · exact made_simple trivial
  · split
    · exact made_error .outsideDomain
    · exact made_simple trivial
  · exact made_none

theorem made_modulo : Answer.Made l r (modulo l r) := by
  unfold modulo
  split
  · unfold Integer.mod
    split
    · exact made_error .outsideDomain
    · exact made_simple trivial
  · split
    · exact made_error .outsideDomain
    · exact made_simple trivial
  · exact made_none

theorem made_power : Answer.Made l r (power l r) := by
  unfold power
  split
  · unfold powerInts
    split
    · exact made_simple trivial
    · exact made_exact _ _ _
  · unfold powerReals
    dsimp only
    split
    · exact made_error .outsideDomain
    · exact made_simple trivial
  · exact made_simple trivial
  · exact made_zipVectors
  · exact made_ok (.matrix fun hl _ => Matrix.proper_map _ hl)
  · exact made_fitted fun _ hk => Matrix.proper_zip hk
  · exact made_none

/-- What is made of values with a closed property has it. -/
theorem Made.closed {P : Value → Prop} (hP : Value.Closed P) {v : Value} (hv : Made l r v)
    (hl : P l) (hr : P r) : P v := by
  cases hv with
  | simple hsimple => exact hP.simple hsimple
  | matrix hm => exact hP.matrix hl hr hm
  | copies count =>
    refine hP.array (fun w hw => ?_) fun w hw => ?_
    · rw [List.eq_of_mem_replicate hw]
    · rwa [List.eq_of_mem_replicate hw]
  | integers a b =>
    refine hP.array (fun w hw => ?_) fun w hw => ?_
    · obtain ⟨k, rfl⟩ := integersBetween_int hw
      rfl
    · obtain ⟨k, rfl⟩ := integersBetween_int hw
      exact hP.simple trivial

end Kernel

namespace Operator

variable {P : Value → Prop} {names : Names} {op : Operator} {l r : Value}

/-- **What each kernel makes** of its operands. -/
theorem kernel_made : Answer.Made l r (op.kernel l r) := by
  cases op with
  | or => exact Kernel.made_logical _
  | and => exact Kernel.made_logical _
  | equals => exact Kernel.made_equals
  | notEquals => exact Kernel.made_notEquals
  | less => exact Kernel.made_ordered _
  | greater => exact Kernel.made_ordered _
  | lessEqual => exact Kernel.made_ordered _
  | greaterEqual => exact Kernel.made_ordered _
  | generate => exact Kernel.made_generate
  | interval => exact Kernel.made_interval
  | plus => exact Kernel.made_plus
  | minus => exact Kernel.made_minus
  | times => exact Kernel.made_times
  | divide => exact Kernel.made_divide
  | modulo => exact Kernel.made_modulo
  | power => exact Kernel.made_power

/-- What is widened is the operands, but for a real. -/
theorem widen_simple {wl wr : Value} (hw : widen l r = some (wl, wr)) :
    (wl = l ∨ wl.Simple) ∧ (wr = r ∨ wr.Simple) := by
  unfold widen at hw
  split at hw
  · cases hw
  · cases hw
    exact ⟨.inr trivial, .inl rfl⟩
  · cases hw
    exact ⟨.inl rfl, .inr trivial⟩
  · cases hw

/-- The steps before going item by item ask a kernel, about the operands or about simple values
in place of them. -/
theorem direct_made {logged : Logged Value} (h : op.direct names l r = some logged) :
    ∃ wl wr, (wl = l ∨ wl.Simple) ∧ (wr = r ∨ wr.Simple) ∧
      Answer.Made wl wr (some logged.2) := by
  unfold direct at h
  cases hkernel : op.kernel l r with
  | some answer =>
    rw [hkernel] at h
    cases h
    exact ⟨l, r, .inl rfl, .inl rfl, hkernel ▸ kernel_made⟩
  | none =>
    rw [hkernel] at h
    dsimp only at h
    split at h
    · next hwidened =>
      cases h
      obtain ⟨⟨wl, wr⟩, hw, hanswer⟩ := Option.bind_eq_some_iff.mp hwidened
      obtain ⟨answer, hkernel', hlogged⟩ := Option.bind_eq_some_iff.mp hanswer
      cases hlogged
      obtain ⟨hwl, hwr⟩ := widen_simple hw
      exact ⟨wl, wr, hwl, hwr, hkernel' ▸ kernel_made⟩
    · split at h
      · obtain ⟨answer, hkernel', hlogged⟩ := Option.map_eq_some_iff.mp h
        cases hlogged
        exact ⟨.text _, .text _, .inr trivial, .inr trivial, hkernel' ▸ kernel_made⟩
      · cases h

/-- The steps before going item by item keep a closed property. -/
theorem direct_closed (hP : Value.Closed P) (hl : P l) (hr : P r) {log : List LogEntry} {v : Value}
    (hv : op.direct names l r = some (log, .ok v)) : P v := by
  have hsimple : ∀ {w v : Value}, P v → (w = v ∨ w.Simple) → P w := by
    rintro w v hv (rfl | hw)
    · exact hv
    · exact hP.simple hw
  obtain ⟨wl, wr, hwl, hwr, hmade⟩ := direct_made hv
  exact (hmade.value v rfl).closed hP (hsimple hl hwl) (hsimple hr hwr)

/-- Results for pairs have a property if each of them has. -/
theorem each_closed {ps : List (Value × Value)} {vs : List Value}
    (hps : ∀ p ∈ ps, ∀ v, op.outcome names p.1 p.2 = .ok v → P v)
    (hvs : (each names op ps).2 = .ok vs) : ∀ v ∈ vs, P v := by
  induction ps generalizing vs with
  | nil =>
    cases hvs
    exact fun _ hv => by cases hv
  | cons p ps ih =>
    rw [each_cons] at hvs
    cases hp : op.outcome names p.1 p.2 with
    | error e => rw [hp] at hvs; cases hvs
    | ok v =>
      rw [hp] at hvs
      cases hrest : (each names op ps).2 with
      | error e => rw [hrest] at hvs; cases hvs
      | ok rest =>
        rw [hrest] at hvs
        cases hvs
        exact List.forall_mem_cons.mpr ⟨hps p (.head _) v hp,
          ih (fun q hq => hps q (.tail _ hq)) hrest⟩

/-- The operands of a pair have a property that goes from sequences to their items. -/
theorem pairs_every
    (hitem : ∀ {v w : Value} {items : List Value}, P v → v.items? = some items → w ∈ items → P w)
    (hl : P l) (hr : P r) {p : Value × Value} (hp : p ∈ pairs l r) : P p.1 ∧ P p.2 := by
  obtain ⟨-, hleft, hright⟩ := mem_pairs hp
  constructor
  · rcases hleft with ⟨-, h₁⟩ | ⟨ls, hls, h₁⟩
    · rwa [h₁]
    · exact hitem hl hls h₁
  · rcases hright with ⟨-, h₂⟩ | ⟨rs, hrs, h₂⟩
    · rwa [h₂]
    · exact hitem hr hrs h₂

/-- **Every operator keeps a closed property**, by induction on the operands. -/
theorem apply_closed (hP : Value.Closed P) (hl : P l) (hr : P r) {v : Value}
    (hv : op.outcome names l r = .ok v) : P v := by
  induction l, r using pairs_induction generalizing v with
  | step l r ih =>
    have happly : (op.apply names l r).2 = .ok v := hv
    rcases apply_cases names op l r with ⟨logged, hdirect, h⟩ | ⟨-, hseq | hfails⟩
    · obtain ⟨log, answer⟩ := logged
      rw [h] at happly
      exact direct_closed hP hl hr (by rw [hdirect, ← happly])
    · rw [hseq.2.2] at happly
      cases heach : (each names op (pairs l r)).2 with
      | error e => rw [gather, heach] at happly; cases happly
      | ok vs =>
        rw [gather, heach] at happly
        cases happly
        refine hP.collect (each_closed (fun p hp w hw => ?_) heach)
        obtain ⟨hp₁, hp₂⟩ := pairs_every hP.item hl hr hp
        exact ih p hp hp₁ hp₂ hw
    · rcases hfails with ⟨ls, rs, -, -, -, h⟩ | ⟨-, -, h⟩ <;> rw [h] at happly <;> cases happly

/-- **Every operator gives well-formed values** for well-formed operands. -/
theorem apply_formed {n : Nat} (hl : l.Formed n) (hr : r.Formed n) {v : Value}
    (hv : op.outcome names l r = .ok v) : v.Formed n :=
  apply_closed (Value.closed_formed n) hl hr hv

end Operator

end Reckoner
