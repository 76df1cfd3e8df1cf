import Reckoner.Builtin
import Reckoner.Proofs.Evaluation

/-!
# Builtin functions keep contexts well-formed

Every builtin function gives well-formed values and leaves all contexts well-formed, whatever
happens to be stored where it reads, and so does every evaluation.
-/

namespace Reckoner

open Run

variable {n : Nat}

/-- The value of an argument is well-formed. -/
theorem Arguments.value_formed {f : Text} {args : List Argument}
    (hargs : ∀ a ∈ args, a.Formed n) (i : Nat) :
    Value.FormedIfAny n (Arguments.value? ⟨f, args⟩ i) := by
  intro u hu
  obtain ⟨a, ha, hv⟩ := Option.bind_eq_some_iff.mp hu
  exact (hargs a (List.mem_of_getElem? ha)).value u hv

/-- The expression of an argument is evaluated safely. -/
theorem Arguments.deferred_safe {f : Text} {args : List Argument}
    (hargs : ∀ a ∈ args, a.Formed n) {i : Nat} {d : Deferred}
    (hd : Arguments.deferred? ⟨f, args⟩ i = some d) : d.Safe n := by
  obtain ⟨a, ha, hv⟩ := Option.bind_eq_some_iff.mp hd
  exact (hargs a (List.mem_of_getElem? ha)).deferred d hv

/-- A context that is an argument. -/
theorem Arguments.context_formed {f : Text} {args : List Argument}
    (hargs : ∀ a ∈ args, a.Formed n) {i : Nat} {c : ContextId}
    (hc : Arguments.context ⟨f, args⟩ i = .ok c) : (Value.context c).Formed n := by
  unfold Arguments.context at hc
  split at hc
  · next hvalue =>
    cases hc
    exact value_formed hargs i _ hvalue
  · cases hc

/-! ### Sequences -/

/-- If there is a value, it has the property. -/
abbrev Value.IfAny (P : Value → Prop) (v : Option Value) : Prop := ∀ u, v = some u → P u

variable {P : Value → Prop}

/-- The values of arguments have the property if the arguments have values of that kind. -/
theorem Arguments.values_all {f : Text} {args : List Argument}
    (hargs : ∀ a ∈ args, Value.IfAny P a.value) (i : Nat) :
    ∀ v ∈ Arguments.values ⟨f, args⟩ i, Value.IfAny P v := by
  intro v hv
  obtain ⟨a, ha, rfl⟩ := List.mem_map.mp hv
  exact hargs a (List.mem_of_mem_drop ha)

namespace Value

/-- The items that pass the check are those given, all of the kind asked for. -/
theorem checkItems_all {elem : Kind} {items : List (Option Value)}
    (hitems : ∀ v ∈ items, IfAny P v) {index : Nat} {vs : List Value}
    (hvs : checkItems elem index items = .ok vs) : ∀ v ∈ vs, v.kind = elem ∧ P v := by
  induction items generalizing index vs with
  | nil =>
    cases hvs
    exact fun _ hv => by cases hv
  | cons v rest ih =>
    obtain ⟨hv, hrest⟩ := List.forall_mem_cons.mp hitems
    cases v with
    | none => cases hvs
    | some v =>
      rw [checkItems] at hvs
      split at hvs
      · next hkind =>
        obtain ⟨ws, hws, rfl⟩ := ok_of_map hvs
        exact List.forall_mem_cons.mpr ⟨⟨hkind, hv v rfl⟩, ih hrest hws⟩
      · cases hvs

theorem newArray_closed (hP : Closed P) {elem : Kind} {items : List (Option Value)}
    (hitems : ∀ v ∈ items, IfAny P v) {v : Value} (hv : newArray elem items = .ok v) : P v := by
  obtain ⟨vs, hvs, rfl⟩ := ok_of_map hv
  have hall := checkItems_all hitems hvs
  exact hP.array (fun w hw => (hall w hw).1) fun w hw => (hall w hw).2

theorem arrayOf_closed (hP : Closed P) {items : List (Option Value)}
    (hitems : ∀ v ∈ items, IfAny P v) {v : Value} (hv : arrayOf items = .ok v) : P v := by
  unfold arrayOf at hv
  split at hv
  · exact newArray_closed hP hitems hv
  · exact newArray_closed hP hitems hv

end Value

theorem Builtin.requireItems_all {items : List (Option Value)}
    (hitems : ∀ v ∈ items, Value.IfAny P v) {i : Nat} {vs : List Value}
    (hvs : requireItems i items = .ok vs) : ∀ v ∈ vs, P v := by
  induction items generalizing i vs with
  | nil =>
    cases hvs
    exact fun _ hv => by cases hv
  | cons v rest ih =>
    obtain ⟨hv, hrest⟩ := List.forall_mem_cons.mp hitems
    cases v with
    | none => cases hvs
    | some v =>
      obtain ⟨ws, hws, rfl⟩ := ok_of_map hvs
      exact List.forall_mem_cons.mpr ⟨hv v rfl, ih hrest hws⟩

/-! ### Functions that only answer -/

/-- The body of the function does nothing but answer, whatever the current context is, and a value
that it gives is made of those of the arguments. -/
structure Function.Answers (f : Function) : Prop where
  /-- Defaults are neither sequences nor matrices. -/
  default : ∀ p ∈ f.params, Value.IfAny Value.Simple p.default
  /-- The current context makes no difference. -/
  steady : ∀ env c args, f.body { env with context := c } args = f.body env args
  /-- Nothing is changed, and what is answered comes from the arguments. -/
  answer : ∀ env args, ∃ r, f.body env args = result r ∧ ∀ {P : Value → Prop}, Value.Closed P →
    (∀ a ∈ args.args, Value.IfAny P a.value) → ∀ v, r = .ok v → Value.IfAny P v

/-- Such functions keep contexts well-formed. -/
theorem Function.Answers.keeps {f : Function} (hf : f.Answers) : f.Keeps where
  default := fun p hp v hv => (hf.default p hp v hv).formed
  body := fun n env args hargs => by
    obtain ⟨r, hbody, hclosed⟩ := hf.answer env ⟨f.name, args⟩
    rw [hbody]
    refine safe_result fun v hv k hk => hclosed (Value.closed_formed k) (fun a ha => ?_) v hv
    exact (hargs a ha).value.grow hk

theorem result_map {α β : Type} (r : Except Error α) (f : α → β) :
    (do return f (← result r) : Run β) = result (r.map f) := by
  cases r with
  | ok a => rfl
  | error e => rfl

namespace Builtin

/-! ### Elementary functions -/

theorem ofReal_answers (name help : Text) (f : Nat → Binary64 → Option Binary64) :
    (ofReal name help f).Answers where
  default := by simp [ofReal, Value.IfAny]
  steady := fun _ _ _ => rfl
  answer := fun env args => by
    refine ⟨_, rfl, fun hP _ v hv => ?_⟩
    obtain ⟨x, -, hv⟩ := ok_of_bind hv
    dsimp only at hv
    split at hv
    · cases hv
    · cases hy : f env.precision x with
      | none =>
        rw [hy] at hv
        cases hv
      | some y =>
        rw [hy] at hv
        cases hv
        rintro _ ⟨rfl⟩
        exact hP.simple trivial

theorem constant_answers (name help : Text) (f : Nat → Binary64) :
    (constant name help f).Answers where
  default := by simp [constant]
  steady := fun _ _ _ => rfl
  answer := fun env args => by
    refine ⟨.ok (some (.real (f env.precision))), rfl, fun hP _ v hv => ?_⟩
    cases hv
    rintro _ ⟨rfl⟩
    exact hP.simple trivial

theorem logarithm_answers : logarithm.Answers where
  default := by simp [logarithm, Value.IfAny, Value.Simple]
  steady := fun _ _ _ => rfl
  answer := fun env args => by
    refine ⟨_, rfl, fun hP _ v hv => ?_⟩
    obtain ⟨x, -, hv⟩ := ok_of_bind hv
    obtain ⟨base, -, hv⟩ := ok_of_bind hv
    dsimp only at hv
    split at hv
    · cases hv
    · split at hv
      · cases hv
      · cases hy : Binary64.logAt? env.precision x base with
        | none =>
          rw [hy] at hv
          cases hv
        | some y =>
          rw [hy] at hv
          cases hv
          rintro _ ⟨rfl⟩
          exact hP.simple trivial

/-- The functions on numbers only answer. -/
theorem numericFunctions_answer : ∀ f ∈ numericFunctions, f.Answers := by
  simp only [numericFunctions, List.forall_mem_cons]
  exact ⟨ofReal_answers .., ofReal_answers .., logarithm_answers, ofReal_answers ..,
    constant_answers .., constant_answers .., fun _ hf => by cases hf⟩

theorem numericFunctions_keep : ∀ f ∈ numericFunctions, f.Keeps :=
  fun f hf => (numericFunctions_answer f hf).keeps

/-! ### Functions on values -/

theorem typeOf_answers : typeOf.Answers where
  default := by simp [typeOf, Value.IfAny]
  steady := fun _ _ _ => rfl
  answer := fun env args => by
    refine ⟨.ok (some (.text (Value.typeName? (args.value? 0)))), rfl, fun hP _ v hv => ?_⟩
    cases hv
    rintro _ ⟨rfl⟩
    exact hP.simple trivial

theorem array_answers : array.Answers where
  default := by simp [array, Value.IfAny]
  steady := fun _ _ _ => rfl
  answer := fun env args => by
    refine ⟨_, result_map _ _, fun hP hargs v hv => ?_⟩
    obtain ⟨u, hu, rfl⟩ := ok_of_map hv
    rintro _ ⟨rfl⟩
    exact Value.arrayOf_closed hP (Arguments.values_all hargs 0) hu

theorem list_answers : list.Answers where
  default := by simp [list, Value.IfAny]
  steady := fun _ _ _ => rfl
  answer := fun env args => by
    refine ⟨_, result_map _ fun vs => some (Value.list vs), fun hP hargs v hv => ?_⟩
    obtain ⟨vs, hvs, rfl⟩ := ok_of_map hv
    rintro _ ⟨rfl⟩
    exact hP.list (requireItems_all (Arguments.values_all hargs 0) hvs)

theorem length_keeps : length.Keeps where
  default := by simp [length]
  body n env args _ := by
    refine safe_heap fun h _ _ => ?_
    split
    · exact safe_pure fun _ _ => Value.formedIfAny_some (Value.Simple.formed trivial)
    · exact safe_throw

theorem print_keeps : print.Keeps where
  default := by simp [print]
  body n env args _ := by
    refine safe_heap fun h _ _ => Safe.bind (P := fun _ _ => True) ?_ fun _ _ _ _ => ?_
    · exact safe_modify fun _ => rfl
    · exact safe_pure fun _ _ => Value.formedIfAny_none

theorem valueFunctions_keep : ∀ f ∈ valueFunctions, f.Keeps := by
  simp only [valueFunctions, List.forall_mem_cons]
  exact ⟨typeOf_answers.keeps, length_keeps, array_answers.keeps, list_answers.keeps, print_keeps,
    fun _ hf => by cases hf⟩

/-! ### Functions on contexts -/

theorem clearNamed_safe (c : ContextId) (i : Nat) (args : List Argument) :
    Safe n (clearNamed c i args) fun _ _ => True := by
  induction args generalizing i n with
  | nil => exact safe_pure fun _ _ => trivial
  | cons a rest ih =>
    rw [clearNamed]
    split
    · refine Safe.bind (P := fun _ _ => True) ?_ fun _ _ _ _ => ih _
      exact safe_onHeap fun h _ hh =>
        ⟨(Heap.size_update h c _).ge, hh.clearVariable c _, trivial⟩
    · exact safe_throw

theorem clear_keeps : clear.Keeps where
  default := by simp [clear]
  body n env args _ := by
    have hend : ∀ k, Safe k (pure none : Run (Option Value)) Value.FormedIfAny :=
      fun _ => safe_pure fun _ _ => Value.formedIfAny_none
    show Safe n (if args.isEmpty then _ else _) _
    split
    · refine Safe.bind (P := fun _ _ => True) ?_ fun _ k _ _ => hend k
      exact safe_onHeap fun h _ hh => ⟨(Heap.size_update h _ _).ge, hh.clear _, trivial⟩
    · exact (clearNamed_safe _ _ _).bind fun _ k _ _ => hend k

theorem newContext_keeps : newContext.Keeps where
  default := by simp [newContext]
  body n env args hargs := by
    refine safe_newContext.bind fun c k hk hc => ?_
    have hend : ∀ k', k ≤ k' → Safe k' (do request env.context .created c; return some (.context c))
        Value.FormedIfAny := fun k' hk' => by
      refine Safe.bind (P := fun _ _ => True) (safe_modify fun _ => rfl) fun _ k'' hk'' _ => ?_
      exact safe_pure fun _ h => Value.formedIfAny_some (hc.grow ((hk'.trans hk'').trans h))
    dsimp only
    split
    · next d hd =>
      exact ((Arguments.deferred_safe hargs hd _).later hk).bind fun _ k' hk' _ => hend k' hk'
    · exact hend k le_rfl

theorem setContext_keeps : setContext.Keeps where
  default := by simp [setContext]
  body n env args hargs := by
    refine (safe_check _).bind fun c k hk hc => ?_
    have hformed := Arguments.context_formed hargs hc
    refine Safe.bind (P := fun _ _ => True) (safe_modify fun _ => rfl) fun _ k' hk' _ => ?_
    exact safe_pure fun _ h => Value.formedIfAny_some (hformed.grow ((hk.trans hk').trans h))

theorem use_keeps : use.Keeps where
  default := by simp [use]
  body n env args hargs := by
    refine (safe_check _).bind fun c k hk _ => ?_
    split
    · next d hd => exact (Arguments.deferred_safe hargs hd _).later hk
    · exact safe_throw

theorem contextFunctions_keep : ∀ f ∈ contextFunctions, f.Keeps := by
  simp only [contextFunctions, List.forall_mem_cons]
  exact ⟨clear_keeps, newContext_keeps, setContext_keeps, use_keeps, fun _ hf => by cases hf⟩

/-! ### Functions on stored values -/

theorem requireGlobal_safe (env : Environment) : Safe n (requireGlobal env) fun _ _ => True := by
  unfold requireGlobal
  split
  · exact safe_pure fun _ _ => trivial
  · exact safe_throw

theorem setGlobal_keeps : setGlobal.Keeps where
  default := by simp [setGlobal]
  body n env args hargs := by
    refine (requireGlobal_safe env).bind fun g k hk _ => (safe_check _).bind fun name k' hk' _ => ?_
    split
    · exact safe_throw
    · next v hv =>
      have hformed := (Arguments.value_formed hargs 1 v hv).grow (hk.trans hk')
      exact (g.setVariable_safe name hformed).bind fun _ _ h _ =>
        safe_pure fun _ h' => Value.formedIfAny_some (hformed.grow (h.trans h'))

theorem getGlobal_keeps : getGlobal.Keeps where
  default := by simp [getGlobal]
  body n env args _ := by
    refine (requireGlobal_safe env).bind fun g _ _ _ => (safe_check _).bind fun name _ _ _ => ?_
    exact (g.getVariable_safe name).bind fun v _ _ hv =>
      safe_pure fun _ h => Value.formedIfAny_some (hv.grow h)

theorem clearGlobal_keeps : clearGlobal.Keeps where
  default := by simp [clearGlobal]
  body n env args _ := by
    refine (requireGlobal_safe env).bind fun g _ _ _ => (safe_check _).bind fun names _ _ _ => ?_
    exact (g.clear_safe names).bind fun _ _ _ _ => safe_pure fun _ _ => Value.formedIfAny_none

theorem saveFile_safe (path : Text) (mode : Mode) (v : Option Value) :
    Safe n (saveFile path mode v) fun _ _ => True := by
  refine safe_get fun w _ _ => (safe_check _).bind fun disk _ _ _ => ?_
  refine Safe.bind (P := fun _ _ => True) (safe_modify fun _ => rfl) fun _ _ _ _ => ?_
  refine (safe_check _).bind fun writer _ _ _ => ?_
  refine (safe_check _).bind fun disk' _ _ _ => ?_
  refine Safe.bind (P := fun _ _ => True) (safe_modify fun _ => rfl) fun _ _ _ _ => ?_
  exact safe_result fun _ _ _ _ => trivial

theorem save_keeps : save.Keeps where
  default := by
    have hmode := Value.formedIfAny_some (n := 0) (v := .text "compressed")
      (Value.Simple.formed trivial)
    simpa [save] using hmode
  body n env args _ := by
    refine (safe_check _).bind fun path _ _ _ => (safe_check _).bind fun name _ _ _ => ?_
    split
    · exact safe_throw
    · exact (saveFile_safe path _ _).bind fun _ _ _ _ =>
        safe_pure fun _ _ => Value.formedIfAny_none

/-- Reading a file is safe, whatever it holds. -/
theorem loadFile_safe (path : Text) : Safe n (loadFile path) Value.FormedIfAny := by
  intro w _ hw
  rw [loadFile, exec_bind_ok (exec_get w)]
  cases hopen : w.storage.disk.openFile path with
  | error e =>
    rw [exec_bind_error (exec_result _ _)]
    exact ends_error hw
  | ok content =>
    rw [exec_bind_ok (exec_result _ _)]
    cases hreader : (do Reader.start Catalog.values (← content) : Except Error Reader) with
    | error e =>
      rw [exec_bind_error (exec_result _ _)]
      exact ends_error hw
    | ok r =>
      rw [exec_bind_ok (exec_result _ _), exec_bind_ok (exec_heap w)]
      obtain ⟨hle, hheap, hresult⟩ := r.nextValue_formed hw
      exact ⟨hle, hheap, fun v hv u hu => hresult u (hv.trans (congrArg _ hu))⟩

theorem load_keeps : load.Keeps where
  default := by simp [load]
  body n env args _ := (safe_check _).bind fun path _ _ _ => loadFile_safe path

theorem storageFunctions_keep : ∀ f ∈ storageFunctions, f.Keeps := by
  simp only [storageFunctions, List.forall_mem_cons]
  exact ⟨setGlobal_keeps, getGlobal_keeps, clearGlobal_keeps, save_keeps, load_keeps,
    fun _ hf => by cases hf⟩

end Builtin

/-- **All builtin functions keep contexts well-formed.** -/
theorem builtins_keep : builtins.Keeps := by
  refine FunctionTable.keeps_ofList ?_
  simp only [List.forall_mem_append]
  exact ⟨⟨⟨Builtin.numericFunctions_keep, Builtin.valueFunctions_keep⟩,
    Builtin.contextFunctions_keep⟩, Builtin.storageFunctions_keep⟩

/-! ### What can be reached -/

/-- A value is well-formed at every depth: each matrix and each array in it is what it should be,
and each context is one of the heap and has distinct names. -/
def Value.WellFormed (h : Heap) (v : Value) : Prop :=
  ∀ w, h.Reaches v w → w.Proper ∧
    ∀ c, w = .context c → c < h.contexts.size ∧ (h.context c).names.Nodup

/-- All contexts hold well-formed values. -/
def Heap.WellFormed (h : Heap) : Prop :=
  ∀ c, c < h.contexts.size → (Value.context c).WellFormed h

theorem Value.WellFormed.of_holds {h : Heap} {v w : Value} (hv : v.WellFormed h)
    (hw : h.Holds v w) : w.WellFormed h := fun u hu => hv u (.head hw hu)

theorem Value.WellFormed.within {h : Heap} {v : Value} (hv : v.WellFormed h) :
    v.Within Proper 0 h.contexts.size :=
  ⟨(hv v .refl).1, fun c hc => ⟨Nat.zero_le c, ((hv v .refl).2 c hc).1⟩⟩

/-- The items of a well-formed value are well-formed at every depth. -/
theorem Value.WellFormed.formed {h : Heap} {v : Value} (hv : v.WellFormed h) :
    v.Formed h.contexts.size := by
  induction v using Value.byParts with
  | leaf a => exact every_of_none (items_leaf a) hv.within
  | array elem items ih =>
    exact every_array hv.within fun w hw => ih w hw (hv.of_holds (.array hw))
  | list items ih => exact every_list hv.within fun w hw => ih w hw (hv.of_holds (.list hw))
  | context c => exact every_of_none rfl hv.within
  | handle t => exact every_of_none rfl hv.within
  | object tag o => exact every_of_none rfl hv.within

/-- In well-formed contexts it is enough to look at the items. -/
theorem Heap.Regular.wellFormed {h : Heap} (hh : h.Formed) {v : Value}
    (hv : v.Formed h.contexts.size) : v.WellFormed h := fun _ hw =>
  have hevery := hh.reaches hv hw
  ⟨hevery.self.1, fun c hc => ⟨(hevery.self.2 c hc).2, (hh c (Nat.zero_le c)).nodup⟩⟩

theorem Heap.wellFormed_iff {h : Heap} : h.WellFormed ↔ h.Formed := by
  constructor
  · intro hh c _
    rcases Nat.lt_or_ge c h.contexts.size with hc | hc
    · exact ⟨((hh c hc _ .refl).2 c rfl).2, fun b hb => ((hh c hc).of_holds (.var hb)).formed⟩
    · exact Heap.regularAt_of_nil (by rw [Heap.context_of_size_le hc])
  · exact fun hh c hc =>
      hh.wellFormed (Value.every_context trivial (Nat.zero_le c) hc)

/-- A run from a world adds contexts at most, all contexts hold well-formed values after it, and
so is the result, if there is one. -/
structure World.StaysWellFormed (w : World) (x : Run (Option Value)) : Prop where
  /-- No context is gone. -/
  count_le : w.heap.contexts.size ≤ (x.exec w).2.heap.contexts.size
  /-- The contexts hold well-formed values, also if the run fails. -/
  heap : (x.exec w).2.heap.WellFormed
  /-- A value that is given is well-formed. -/
  result : ∀ v, (x.exec w).1 = .ok (some v) → v.WellFormed (x.exec w).2.heap

theorem Run.Safe.staysWellFormed {x : Run (Option Value)} {w : World}
    (hx : Safe w.heap.contexts.size x Value.FormedIfAny) (hw : w.heap.WellFormed) :
    w.StaysWellFormed x :=
  have hends := hx w le_rfl (Heap.wellFormed_iff.mp hw)
  ⟨hends.count_le, Heap.wellFormed_iff.mpr hends.heap,
    fun v hv => hends.heap.wellFormed (hends.result _ hv v rfl)⟩

/-- **Values stay well-formed.** If all contexts hold well-formed values, they do so after the
evaluation of every expression with well-formed constants, whether it succeeds or fails, and the
result is well-formed; and so are variables of stored contexts and values of files, whatever bytes
they are read from. -/
theorem evaluation_wellFormed {w : World} (hw : w.heap.WellFormed) :
    (∀ (e : Expr) (env : Environment), (∀ v ∈ e.constants, v.WellFormed w.heap) →
      w.StaysWellFormed (e.eval builtins env)) ∧
    (∀ (g : Global) (name : Text), w.StaysWellFormed (some <$> g.getVariable name)) ∧
    ∀ path : Text, w.StaysWellFormed (Builtin.loadFile path) := by
  refine ⟨fun e env hc => ?_, fun g name => ?_, fun path => ?_⟩
  · exact (e.eval_safe builtins_keep (fun v hv => (hc v hv).formed) env).staysWellFormed hw
  · refine Run.Safe.staysWellFormed ?_ hw
    rw [map_eq_pure_bind]
    exact (g.getVariable_safe name).bind fun v _ _ hv =>
      safe_pure fun _ h => Value.formedIfAny_some (hv.grow h)
  · exact (Builtin.loadFile_safe path).staysWellFormed hw

/-- A world with one context, which is empty. -/
def World.oneContext : World := { heap := (Heap.newContext {} []).2 }

/-- The assignment of a list of a number, a text and the context itself. -/
def Expr.selfList : Expr :=
  .assign "x" (.array
    [.const (some (.int 1)), .const (some (.text "one")), .const (some (.context 0))])

/-- The assignment makes the context hold itself, and the context is well-formed. -/
theorem selfList_wellFormed :
    ((Expr.selfList.eval builtins { context := 0 }).exec .oneContext).1
        = .ok (some (.list [.int 1, .text "one", .context 0])) ∧
      World.oneContext.StaysWellFormed (Expr.selfList.eval builtins { context := 0 }) := by
  have hheap : World.oneContext.heap.Formed :=
    Heap.Regular.newContext fun c _ => Heap.regularAt_of_nil (by simp [Heap.context])
  have hw : World.oneContext.heap.WellFormed := Heap.wellFormed_iff.mpr hheap
  refine ⟨rfl, (evaluation_wellFormed hw).1 _ _ fun v hv => ?_⟩
  have hcases : v = .int 1 ∨ v = .text "one" ∨ v = .context 0 := by
    simpa [Expr.selfList, Expr.constants, Expr.constantsAll] using hv
  rcases hcases with rfl | rfl | rfl
  · exact hheap.wellFormed (Value.Simple.formed trivial)
  · exact hheap.wellFormed (Value.Simple.formed trivial)
  · exact hw 0 (by decide)

end Reckoner
