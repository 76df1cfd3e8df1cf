import Reckoner.Expr.Evaluate
import Reckoner.Proofs.Binding

/-!
# Calling and invoking

A function can be called with expressions or invoked with values. A call checks the number of
arguments before it evaluates any of them, and invoking leaves that to the checks that both have in
common; each of the two puts values and expressions where eager and lazy parameters expect them.

A value is also a constant expression. Evaluating a constant changes nothing and cannot fail, so
that a call with constants comes to the same checks with the same arguments, and the time of the
first check makes no difference.
-/

namespace Reckoner

namespace Function

variable {f : Function} {env : Environment} {vs : List (Option Value)} {e : Error}

/-- Expressions that stand for the values. -/
def constants (fs : FunctionTable) (vs : List (Option Value)) : List Deferred :=
  Expr.deferAll fs (vs.map .const)

/-- The eager ones of the values, the first of which has the number `i`. -/
def eagerValues (f : Function) : (i : Nat) → List (Option Value) → List (Option Value)
  | _, [] => []
  | i, v :: rest =>
    if (f.spec i).isLazy then eagerValues f (i + 1) rest else v :: eagerValues f (i + 1) rest

/-- Argument number `i` for a value. -/
def receive (f : Function) (i : Nat) (v : Option Value) : Argument :=
  if (f.spec i).isLazy then { deferred := some (.const v) } else { value := v }

/-- The arguments that the body gets for the values. -/
def bound (f : Function) (vs : List (Option Value)) : List Argument :=
  f.complete (vs.mapIdx f.receive)

/-- The contract of the function excludes the values: their number is not accepted, or the error
is about the first of them that its parameter refuses. -/
inductive Rejects (f : Function) (vs : List (Option Value)) : Error → Prop where
  /-- The function does not accept so many. -/
  | count : ¬ f.Accepts vs.length →
    Rejects f vs (.argumentCount f.name f.least f.most? vs.length f.usage)
  /-- It refuses one value, and none of those before. -/
  | kind {i : Nat} {v : Value} : f.Accepts vs.length → vs[i]? = some (some v) → f.Refuses i v →
    (∀ j < i, ∀ u, vs[j]? = some (some u) → ¬ f.Refuses j u) →
    Rejects f vs (.argumentType f.name i (f.spec i).types v.typeName f.usage)

open Run

/-! ### Constants as arguments -/

/-- Constants are what invoking hands to lazy parameters. -/
theorem constants_eq (fs : FunctionTable) (vs : List (Option Value)) :
    constants fs vs = vs.map .const := by
  induction vs with
  | nil => simp [constants, Expr.deferAll]
  | cons v rest ih =>
    have hconst : (⟨.const v, (Expr.const v).eval fs⟩ : Deferred) = .const v := rfl
    rw [constants, List.map_cons, List.map_cons, Expr.deferAll, hconst, ← ih, constants]

theorem eager_const (i : Nat) (vs : List (Option Value)) :
    f.eager i (vs.map .const) = (f.eagerValues i vs).map .const := by
  induction vs generalizing i with
  | nil => rfl
  | cons v rest ih =>
    rw [List.map_cons, eager, eagerValues]
    split <;> simp [ih]

/-- Evaluating constants gives the values. -/
theorem evalEager_const (w : World) :
    (f.evalEager env (vs.map .const)).exec w = (.ok (f.eagerValues 0 vs), w) := by
  have hvalues : ∀ values : List (Option Value),
      ((values.map Deferred.const).mapM fun d => d.eval env) = (pure values : Run _) := by
    intro values
    induction values with
    | nil => rfl
    | cons v rest ih => simp [ih, Deferred.const]
  rw [evalEager, eager_const, hvalues, exec_pure]

/-- Constants end up where the values do. -/
theorem place_const (i : Nat) (vs : List (Option Value)) :
    f.place i (vs.map .const) (f.eagerValues i vs) = vs.mapIdx fun j v => f.receive (i + j) v := by
  induction vs generalizing i with
  | nil => rfl
  | cons v rest ih =>
    have hrest : (fun j v => f.receive (i + (j + 1)) v) = fun j v => f.receive (i + 1 + j) v := by
      funext j v
      rw [Nat.add_assoc, Nat.add_comm 1]
    rw [List.map_cons, place, eagerValues, List.mapIdx_cons, hrest, ← ih, Nat.add_zero, receive]
    cases (f.spec i).isLazy <;> rfl

theorem complete_place :
    f.complete (f.place 0 (vs.map .const) (f.eagerValues 0 vs)) = f.bound vs := by
  simp only [place_const, Nat.zero_add]
  rfl

/-- An eager argument has the value at its place, if there is one. -/
theorem given_eq_some {i : Nat} {v : Value} (hi : i < vs.length) :
    f.given (f.eagerValues 0 vs) i = some v ↔
      (f.spec i).isLazy = false ∧ vs[i]? = some (some v) := by
  have hargs : i < (vs.map Deferred.const).length := by rwa [List.length_map]
  have hplace : ((f.place 0 (vs.map .const) (f.eagerValues 0 vs)).map (·.value))[i]? = _ :=
    place_value _ _ hargs
  rw [place_const, List.getElem?_map, List.getElem?_mapIdx, List.getElem?_eq_getElem hi,
    Nat.zero_add] at hplace
  rw [← Option.some_inj.mp hplace, List.getElem?_eq_getElem hi]
  cases hlazy : (f.spec i).isLazy <;> simp [receive, hlazy]

/-! ### Running on values -/

/-- Arguments of a number that is not accepted are an error. -/
theorem exec_run_count (w : World) {args : List Deferred} {results : List (Option Value)}
    (hcount : ¬ f.Accepts args.length) :
    (f.run env (f.place 0 args results)).exec w =
      (.error (.argumentCount f.name f.least f.most? args.length f.usage), w) := by
  rw [run, checkArguments, List.length_map, length_place, checkCount_error hcount]
  rfl

theorem invoke_eq (w : World) : (f.invoke env vs).exec w =
    (f.run env (f.place 0 (vs.map .const) (f.eagerValues 0 vs))).exec w := by
  simp only [place_const, Nat.zero_add]
  rfl

/-- **A call with constants is invoking with the values.** -/
theorem call_constants (f : Function) (fs : FunctionTable) (env : Environment)
    (vs : List (Option Value)) (w : World) :
    (f.call env (constants fs vs)).exec w = (f.invoke env vs).exec w := by
  rw [constants_eq, invoke_eq]
  by_cases hcount : f.Accepts (vs.map Deferred.const).length
  · rw [call_eq w hcount, exec_bind_ok (evalEager_const w)]
  · rw [exec_run_count w hcount, call, checkCount_error hcount, exec_bind_error (exec_result _ _)]

/-- Values that the contract excludes are an error, and the world is as before. -/
theorem exec_invoke_error (env : Environment) (h : f.Rejects vs e) (w : World) :
    (f.invoke env vs).exec w = (.error e, w) := by
  rw [invoke_eq]
  cases h with
  | count hcount => rw [exec_run_count w (by rwa [List.length_map]), List.length_map]
  | @kind i v hcount hv hrefuses hbefore =>
    have hi : i < vs.length := (List.getElem?_eq_some_iff.mp hv).1
    refine exec_run_error w (by rwa [List.length_map]) (by rwa [List.length_map])
      ((given_eq_some hi).mpr ⟨hrefuses.1, hv⟩) hrefuses fun j hj u hu => ?_
    exact hbefore j hj u ((given_eq_some (hj.trans hi)).mp hu).2

/-- The body runs on values that no parameter refuses. -/
theorem exec_invoke (env : Environment) (hcount : f.Accepts vs.length)
    (hkinds : ∀ i v, vs[i]? = some (some v) → ¬ f.Refuses i v) (w : World) :
    (f.invoke env vs).exec w = (f.body env ⟨f.name, f.bound vs⟩).exec
      { w with log := w.log ++ [.called f.name (f.bound vs).length] } := by
  have hcount' : f.Accepts (vs.map Deferred.const).length := by rwa [List.length_map]
  rw [invoke_eq, exec_run w hcount' fun i v hi hv => ?_, complete_place]
  rw [List.length_map] at hi
  exact hkinds i v ((given_eq_some hi).mp hv).2

/-- Either the contract excludes the values, or their number is accepted and no parameter refuses
one. -/
theorem rejects_or (f : Function) (vs : List (Option Value)) : (∃ e, f.Rejects vs e) ∨
    f.Accepts vs.length ∧ ∀ i v, vs[i]? = some (some v) → ¬ f.Refuses i v := by
  by_cases hcount : f.Accepts vs.length
  · by_cases hkinds : ∃ i v, vs[i]? = some (some v) ∧ f.Refuses i v
    · classical
      obtain ⟨v, hv, hrefuses⟩ := Nat.find_spec hkinds
      exact .inl ⟨_, .kind hcount hv hrefuses fun j hj u hu hrefused =>
        Nat.find_min hkinds hj ⟨u, hu, hrefused⟩⟩
    · exact .inr ⟨hcount, fun i v hv hrefuses => hkinds ⟨i, v, hv, hrefuses⟩⟩
  · exact .inl ⟨_, .count hcount⟩

/-- The contract does not look at the body. -/
theorem Rejects.withBody (h : f.Rejects vs e)
    (body : Environment → Arguments → Run (Option Value)) : { f with body }.Rejects vs e := by
  cases h with
  | count hcount => exact .count hcount
  | kind hcount hv hrefuses hbefore => exact .kind hcount hv hrefuses hbefore

/-! ### The law -/

/-- **Calling and invoking are the same on values**, whatever the contract of the function, the
surroundings and the values, some of which may be missing. Either the contract excludes the values,
and both give the same error, with any body and without any change; or both run the body, once, on
the same arguments, those that the contract asks for, with the same entry in the log before. -/
theorem invoke_call (f : Function) (fs : FunctionTable) (vs : List (Option Value)) :
    (∃ e, f.Rejects vs e ∧ ∀ body env w,
      ({ f with body }.invoke env vs).exec w = (.error e, w) ∧
      ({ f with body }.call env (constants fs vs)).exec w = (.error e, w)) ∨
    ∃ bound, f.Bound (constants fs vs) (f.eagerValues 0 vs) bound ∧ ∀ body env w,
      ({ f with body }.invoke env vs).exec w = (body env ⟨f.name, bound⟩).exec
        { w with log := w.log ++ [.called f.name bound.length] } ∧
      ({ f with body }.call env (constants fs vs)).exec w = (body env ⟨f.name, bound⟩).exec
        { w with log := w.log ++ [.called f.name bound.length] } := by
  rcases f.rejects_or vs with ⟨e, he⟩ | ⟨hcount, hkinds⟩
  · refine .inl ⟨e, he, fun body env w => ?_⟩
    have herror := exec_invoke_error env (he.withBody body) w
    exact ⟨herror, by rw [call_constants, herror]⟩
  · refine .inr ⟨f.bound vs, ?_, fun body env w => ?_⟩
    · rw [constants_eq, ← complete_place]
      exact complete_bound _ _
    · have hruns := @exec_invoke { f with body } vs env hcount hkinds w
      exact ⟨hruns, by rw [call_constants]; exact hruns⟩

end Function

end Reckoner
