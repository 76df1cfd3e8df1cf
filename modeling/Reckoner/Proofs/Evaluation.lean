import Reckoner.Expr.Evaluate
import Reckoner.Proofs.Safe

/-!
# Evaluation keeps contexts well-formed

An expression is evaluated safely, whatever contexts it is evaluated in, if the functions that it
can call do: with well-formed values and safe expressions as arguments, their bodies are safe.
That is by induction on the expression. The values that evaluation works with are constants of the
expression, variables, and results of operators and functions.
-/

namespace Reckoner

open Run

/-- If there is a value, it is well-formed. -/
def Value.FormedIfAny (n : Nat) (v : Option Value) : Prop := ∀ u, v = some u → u.Formed n

/-- It is evaluated safely in all environments. -/
def Deferred.Safe (n : Nat) (d : Deferred) : Prop :=
  ∀ env, Run.Safe n (d.eval env) Value.FormedIfAny

/-- The value of the argument is well-formed, and its expression is evaluated safely. -/
structure Argument.Formed (n : Nat) (a : Argument) : Prop where
  value : Value.FormedIfAny n a.value
  deferred : ∀ d, a.deferred = some d → d.Safe n

/-- The defaults of the function are well-formed, and its body is safe if its arguments are. -/
structure Function.Keeps (f : Function) : Prop where
  /-- Defaults are well-formed, whatever contexts there are. -/
  default : ∀ p ∈ f.params, Value.FormedIfAny 0 p.default
  /-- The body is safe for arguments that are. -/
  body : ∀ n env args, (∀ a ∈ args, Argument.Formed n a) →
    Safe n (f.body env ⟨f.name, args⟩) Value.FormedIfAny

/-- All functions of the table keep contexts well-formed. -/
def FunctionTable.Keeps (fs : FunctionTable) : Prop := ∀ name f, fs.find? name = some f → f.Keeps

variable {n m : Nat} {env : Environment}

@[simp] theorem Value.formedIfAny_none : Value.FormedIfAny n none := fun _ h => by cases h

theorem Value.formedIfAny_some {v : Value} (hv : v.Formed n) : Value.FormedIfAny n (some v) :=
  fun _ h => by cases h; exact hv

theorem Value.FormedIfAny.grow {v : Option Value} (hv : Value.FormedIfAny n v) (hle : n ≤ m) :
    Value.FormedIfAny m v := fun u hu => (hv u hu).grow hle

theorem Deferred.Safe.later {d : Deferred} (hd : d.Safe n) (hle : n ≤ m) : d.Safe m :=
  fun env => (hd env).later hle

theorem Argument.Formed.later {a : Argument} (ha : a.Formed n) (hle : n ≤ m) : a.Formed m :=
  ⟨ha.value.grow hle, fun d hd => (ha.deferred d hd).later hle⟩

/-! ### Calls -/

namespace Function

variable {f : Function}

theorem bindOne_safe {d : Deferred} (hd : d.Safe n) (i : Nat) :
    Safe n (f.bindOne env i d) fun k a => a.Formed k := by
  unfold bindOne
  split
  · refine safe_pure fun k hk => ⟨Value.formedIfAny_none, fun d' h => ?_⟩
    cases h
    exact hd.later hk
  · exact (hd env).bind fun v k _ hv => safe_pure fun _ hk => ⟨hv.grow hk, fun _ h => by cases h⟩

theorem bind_safe {args : List Deferred} (hargs : ∀ d ∈ args, d.Safe n) (i : Nat) :
    Safe n (f.bind env i args) fun k given => ∀ a ∈ given, a.Formed k := by
  induction args generalizing i n with
  | nil => exact safe_pure fun _ _ _ ha => by cases ha
  | cons d rest ih =>
    obtain ⟨hd, hrest⟩ := List.forall_mem_cons.mp hargs
    refine (bindOne_safe hd i).bind fun a k hk ha => ?_
    refine (ih (fun d' hd' => (hrest d' hd').later hk) (i + 1)).bind fun given k' hk' hgiven => ?_
    exact safe_pure fun _ hk'' => List.forall_mem_cons.mpr
      ⟨ha.later (hk'.trans hk''), fun a' ha' => (hgiven a' ha').later hk''⟩

theorem promote_formed {a : Argument} (ha : a.Formed n) (i : Nat) : (f.promote i a).Formed n := by
  unfold promote
  split
  · refine ⟨fun u hu => ?_, ha.deferred⟩
    obtain ⟨v, hv, rfl⟩ := Option.map_eq_some_iff.mp hu
    exact Value.formed_promote (ha.value v hv)
  · exact ha

/-- An argument of the body is one that was given or a default, wrapped where needed. -/
theorem mem_complete {given : List Argument} {a : Argument} (ha : a ∈ f.complete given) :
    ∃ i b, a = f.promote i b ∧ (b ∈ given ∨ ∃ p ∈ f.params, b = { value := p.default }) := by
  obtain ⟨i, hi, rfl⟩ := List.mem_mapIdx.mp ha
  refine ⟨i, _, rfl, (List.mem_append.mp (List.getElem_mem hi)).imp_right fun hmem => ?_⟩
  obtain ⟨p, hp, hdefault⟩ := List.mem_map.mp hmem
  have hparam : p ∈ f.params.drop given.length := by
    have := (List.dropWhile_suffix _).subset (List.mem_reverse.mp hp)
    exact List.mem_reverse.mp this
  exact ⟨p, List.mem_of_mem_drop hparam, hdefault.symm⟩

/-- All arguments of the body are formed if those given are: a default is. -/
theorem complete_formed (hf : f.Keeps) {given : List Argument}
    (hgiven : ∀ a ∈ given, a.Formed n) : ∀ a ∈ f.complete given, a.Formed n := by
  intro a ha
  obtain ⟨i, b, rfl, hb | ⟨p, hp, rfl⟩⟩ := mem_complete ha
  · exact promote_formed (hgiven b hb) i
  · exact promote_formed ⟨(hf.default p hp).grow (Nat.zero_le n), fun _ h => by cases h⟩ i

theorem run_safe (hf : f.Keeps) {given : List Argument} (hgiven : ∀ a ∈ given, a.Formed n) :
    Safe n (f.run env given) Value.FormedIfAny := by
  refine (safe_check _).bind fun _ k hk _ => ?_
  refine (safe_report _).bind fun _ k' hk' _ => ?_
  exact hf.body k' env _ fun a ha => (complete_formed hf hgiven a ha).later (hk.trans hk')

/-- **A call is safe** if its arguments are evaluated safely. -/
theorem call_safe (hf : f.Keeps) {args : List Deferred} (hargs : ∀ d ∈ args, d.Safe n) :
    Safe n (f.call env args) Value.FormedIfAny := by
  refine (safe_check _).bind fun _ k hk _ => ?_
  refine (bind_safe (fun d hd => (hargs d hd).later hk) 0).bind fun given k' _ hgiven => ?_
  exact run_safe hf hgiven

end Function

/-! ### Tables of functions -/

namespace FunctionTable

theorem mem_foldl_register {fs : List Function} {t : FunctionTable} {b : Text × Function}
    (hb : b ∈ (fs.foldl register t).entries) : b.2 ∈ fs ∨ b ∈ t.entries := by
  induction fs generalizing t with
  | nil => exact .inr hb
  | cons f fs ih =>
    rcases ih hb with h | h
    · exact .inl (.tail _ h)
    · rcases mem_insertSorted h with rfl | h
      · exact .inl (.head _)
      · exact .inr h

theorem mem_of_find_ofList {fs : List Function} {name : Text} {f : Function}
    (h : (ofList fs).find? name = some f) : f ∈ fs :=
  (mem_foldl_register (mem_of_lookup h)).resolve_right fun hnil => by cases hnil

theorem keeps_ofList {fs : List Function} (hfs : ∀ f ∈ fs, f.Keeps) : (ofList fs).Keeps :=
  fun _ f h => hfs f (mem_of_find_ofList h)

end FunctionTable

/-! ### Expressions -/

namespace Expr

mutual

/-- The values that are constants of an expression. -/
def constants : Expr → List Value
  | const v => v.toList
  | name _ => []
  | binary _ l r => l.constants ++ r.constants
  | call _ args => constantsAll args
  | array items => constantsAll items
  | assign _ e => e.constants
  | sequence steps => constantsAll steps

/-- The values that are constants of several expressions. -/
def constantsAll : List Expr → List Value
  | [] => []
  | e :: rest => e.constants ++ constantsAll rest

end

theorem evalRequired_safe {d : Deferred} (hd : d.Safe n) :
    Safe n (evalRequired env d) fun k v => v.Formed k := by
  refine (hd env).bind fun v k _ hv => ?_
  cases v with
  | some v => exact safe_pure fun _ hk => (hv v rfl).grow hk
  | none => exact safe_heap fun _ _ _ => safe_throw

theorem evalItems_safe {ds : List Deferred} (hds : ∀ d ∈ ds, d.Safe n) :
    Safe n (evalItems env ds) fun k vs => ∀ v ∈ vs, v.Formed k := by
  induction ds generalizing n with
  | nil => exact safe_pure fun _ _ _ hv => by cases hv
  | cons d rest ih =>
    obtain ⟨hd, hrest⟩ := List.forall_mem_cons.mp hds
    refine (evalRequired_safe hd).bind fun v k hk hv => ?_
    refine (ih fun d' hd' => (hrest d' hd').later hk).bind fun vs k' hk' hvs => ?_
    exact safe_pure fun _ hk'' => List.forall_mem_cons.mpr
      ⟨hv.grow (hk'.trans hk''), fun u hu => (hvs u hu).grow hk''⟩

theorem evalSteps_safe {ds : List Deferred} (hds : ∀ d ∈ ds, d.Safe n) {last : Option Value}
    (hlast : Value.FormedIfAny n last) : Safe n (evalSteps env last ds) Value.FormedIfAny := by
  induction ds generalizing n last with
  | nil => exact safe_pure fun _ hk => hlast.grow hk
  | cons d rest ih =>
    obtain ⟨hd, hrest⟩ := List.forall_mem_cons.mp hds
    exact (hd env).bind fun v k hk hv => ih (fun d' hd' => (hrest d' hd').later hk) hv

theorem applyOperator_safe (op : Operator) {l r : Option Value} (hl : Value.FormedIfAny n l)
    (hr : Value.FormedIfAny n r) : Safe n (applyOperator op l r) fun k v => v.Formed k := by
  refine safe_heap fun h hn _ => ?_
  refine (safe_report _).bind fun _ k hk _ => safe_result fun v hv k' hk' => ?_
  rcases l with _ | l
  · cases hv
  · rcases r with _ | r
    · cases hv
    · have hle : n ≤ k' := (hn.trans hk).trans hk'
      exact Operator.apply_formed ((hl l rfl).grow hle) ((hr r rfl).grow hle) hv

theorem readVariable_safe (name : Text) :
    Safe n (readVariable env name) fun k v => v.Formed k := by
  refine safe_heap fun h _ hh => ?_
  cases hv : h.lookup env.context name with
  | none => exact safe_throw
  | some v => exact safe_pure fun _ hk => (hh.lookup hv).grow hk

mutual

/-- **Evaluation is safe**: one case for every kind of expression. -/
theorem eval_safe {fs : FunctionTable} (hfs : fs.Keeps) :
    ∀ (e : Expr), (∀ v ∈ e.constants, v.Formed n) → ∀ env, Safe n (e.eval fs env) Value.FormedIfAny
  | const v, hc, env => by
    rw [eval]
    exact safe_pure fun _ hk u hu => (hc u (by simp [constants, hu])).grow hk
  | name x, _, env => by
    rw [eval]
    exact (readVariable_safe x).bind fun v k _ hv =>
      safe_pure fun _ hk => Value.formedIfAny_some (hv.grow hk)
  | binary op l r, hc, env => by
    rw [constants, List.forall_mem_append] at hc
    rw [eval]
    refine (eval_safe hfs l hc.1 env).bind fun a k hk ha => ?_
    refine ((eval_safe hfs r hc.2 env).later hk).bind fun b k' hk' hb => ?_
    exact (applyOperator_safe op (ha.grow hk') hb).bind fun v _ _ hv =>
      safe_pure fun _ hk => Value.formedIfAny_some (hv.grow hk)
  | call f args, hc, env => by
    rw [eval]
    cases hfind : fs.find? f with
    | none => exact safe_throw
    | some func => exact Function.call_safe (hfs f func hfind) (deferAll_safe hfs args hc)
  | array items, hc, env => by
    rw [eval]
    exact (evalItems_safe (deferAll_safe hfs items hc)).bind fun vs k _ hvs =>
      safe_pure fun _ hk =>
        Value.formedIfAny_some (Value.formed_collect fun v hv => (hvs v hv).grow hk)
  | assign x e, hc, env => by
    rw [eval]
    have hd : Deferred.Safe n ⟨e, e.eval fs⟩ := fun env => eval_safe hfs e hc env
    refine (evalRequired_safe hd).bind fun v k _ hv => ?_
    exact (safe_setVariable hv).bind fun _ k' hk' _ =>
      safe_pure fun _ hk => Value.formedIfAny_some (hv.grow (hk'.trans hk))
  | sequence steps, hc, env => by
    rw [eval]
    exact evalSteps_safe (deferAll_safe hfs steps hc) Value.formedIfAny_none

theorem deferAll_safe {fs : FunctionTable} (hfs : fs.Keeps) :
    ∀ (es : List Expr), (∀ v ∈ constantsAll es, v.Formed n) → ∀ d ∈ deferAll fs es, d.Safe n
  | [], _ => fun _ hd => by cases hd
  | e :: rest, hc => by
    rw [constantsAll, List.forall_mem_append] at hc
    rw [deferAll]
    exact List.forall_mem_cons.mpr
      ⟨fun env => eval_safe hfs e hc.1 env, deferAll_safe hfs rest hc.2⟩

end

end Expr

end Reckoner
