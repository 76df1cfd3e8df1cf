import Mathlib.Data.List.TakeWhile
import Mathlib.Order.Bounds.Defs
import Reckoner.Function
import Reckoner.Proofs.Runs

/-!
# The contract of functions

What happens between a call and the body of a function: the number of arguments is checked, the
eager ones are evaluated, their kinds are checked, and what is missing gets its default.

The evaluation is described without the bound arguments: it is `mapM` over the eager ones. Where
its results end up is a matter of counting, since the argument at a place gets the result whose
number is the number of eager arguments before it.
-/

namespace Reckoner

namespace Function

variable {f : Function} {env : Environment}

/-! ### The contract -/

/-- The function takes this number of arguments: no fewer than there are required parameters
and, unless it is variadic, no more than there are parameters. -/
def Accepts (f : Function) (n : Nat) : Prop :=
  f.params.countP (·.required) ≤ n ∧ (f.variadic ∨ n ≤ f.params.length)

/-- The eager ones of the arguments, the first of which has the number `i`. -/
def eager (f : Function) : (i : Nat) → List Deferred → List Deferred
  | _, [] => []
  | i, d :: rest => if (f.spec i).isLazy then eager f (i + 1) rest else d :: eager f (i + 1) rest

/-- Evaluates the eager ones of the arguments, one after another up to the first that fails. -/
def evalEager (f : Function) (env : Environment) (args : List Deferred) :
    Run (List (Option Value)) :=
  (f.eager 0 args).mapM fun d => d.eval env

/-- How many of the `count` arguments from number `i` on are eager. -/
def eagerCount (f : Function) (i count : Nat) : Nat :=
  (List.range' i count).countP fun j => !(f.spec j).isLazy

/-- The value of argument number `i` when `results` are the results of all eager ones. -/
def given (f : Function) (results : List (Option Value)) (i : Nat) : Option Value :=
  if (f.spec i).isLazy then none else results[f.eagerCount 0 i]?.join

/-- Argument number `i` is eager, and its parameter names kinds but not the one of the value,
which is that of arrays if the parameter takes arrays. -/
def Refuses (f : Function) (i : Nat) (v : Value) : Prop :=
  (f.spec i).isLazy = false ∧ (f.spec i).types ≠ [] ∧
    (if (f.spec i).toArray then Kind.array else v.kind) ∉ (f.spec i).types

/-- The arguments that the body gets for `args`, when `results` are the results of the eager
ones: values and expressions for those given, then defaults up to the last parameter that has
one. -/
structure Bound (f : Function) (args : List Deferred) (results : List (Option Value))
    (bound : List Argument) : Prop where
  /-- There are as many as were given, or more if a later parameter has a default. -/
  length : IsGreatest {m | m = args.length ∨ ∃ i p, m = i + 1 ∧ args.length ≤ i ∧
    f.params[i]? = some p ∧ p.default.isSome} bound.length
  /-- A value is the one given or the default, as an array where the parameter takes arrays. -/
  value : ∀ i a, bound[i]? = some a →
    let v := if i < args.length then f.given results i else (f.spec i).default
    a.value = if (f.spec i).toArray then v.map Value.promote else v
  /-- Lazy arguments come as they are. -/
  deferred : ∀ i a, bound[i]? = some a →
    a.deferred = if (f.spec i).isLazy then args[i]? else none

/-! ### Evaluation -/

/-- The arguments, the first of which has the number `i`, with the results of the eager ones. -/
def place (f : Function) : (i : Nat) → List Deferred → List (Option Value) → List Argument
  | _, [], _ => []
  | i, d :: rest, results =>
    if (f.spec i).isLazy then { deferred := some d } :: place f (i + 1) rest results
    else { value := results.head?.join } :: place f (i + 1) rest results.tail

/-- **Binding evaluates the eager arguments** from left to right, and nothing else. -/
theorem bind_eq (i : Nat) (args : List Deferred) :
    f.bind env i args = do
      let results ← (f.eager i args).mapM (·.eval env)
      return f.place i args results := by
  induction args generalizing i with
  | nil => simp [bind, eager, place]
  | cons d rest ih =>
    cases hlazy : (f.spec i).isLazy with
    | true => simp [bind, bindOne, eager, place, hlazy, ih]
    | false => simp [bind, bindOne, eager, place, hlazy, ih]

theorem length_place (i : Nat) (args : List Deferred) (results : List (Option Value)) :
    (f.place i args results).length = args.length := by
  induction args generalizing i results with
  | nil => rfl
  | cons d rest ih => rw [place]; split <;> simp [ih]

theorem eagerCount_succ (i count : Nat) :
    f.eagerCount i (count + 1) =
      (if (f.spec i).isLazy then 0 else 1) + f.eagerCount (i + 1) count := by
  cases hlazy : (f.spec i).isLazy <;>
    simp [eagerCount, List.range'_succ, hlazy, Nat.add_comm]

/-- The arguments in their places: a lazy one leaves all results to the rest, and an eager one takes
the first of them away. -/
theorem place_getElem? (i j : Nat) (args : List Deferred) (results : List (Option Value)) :
    (f.place i args results)[j]? = args[j]?.map fun d =>
      if (f.spec (i + j)).isLazy then { deferred := some d }
      else { value := results[f.eagerCount i j]?.join } := by
  induction args generalizing i j results with
  | nil => simp [place]
  | cons d rest ih =>
    cases j with
    | zero =>
      cases hlazy : (f.spec i).isLazy <;>
        simp [place, eagerCount, hlazy, List.head?_eq_getElem?]
    | succ j =>
      have hnum : i + 1 + j = i + (j + 1) := by omega
      cases hlazy : (f.spec i).isLazy <;>
        simp [place, hlazy, ih, eagerCount_succ, hnum, Nat.add_comm 1]

/-- The values of the bound arguments that were given. -/
theorem place_value (args : List Deferred) (results : List (Option Value)) {i : Nat}
    (hi : i < args.length) :
    ((f.place 0 args results).map (·.value))[i]? = some (f.given results i) := by
  rw [List.getElem?_map, place_getElem?, List.getElem?_eq_getElem hi, given, Nat.zero_add]
  cases (f.spec i).isLazy <;> rfl

/-! ### Checks -/

theorem accepts_iff {n : Nat} :
    f.Accepts n ↔ ¬ (n < f.least || f.most?.any (· < n)) = true := by
  rw [Bool.or_eq_true, decide_eq_true_iff, not_or, Nat.not_lt]
  refine and_congr Iff.rfl ?_
  cases hv : f.variadic <;> simp [most?, hv]

theorem checkCount_ok {n : Nat} (h : f.Accepts n) : f.checkCount n = .ok () :=
  if_neg (accepts_iff.mp h)

theorem checkCount_error {n : Nat} (h : ¬ f.Accepts n) :
    f.checkCount n = .error (.argumentCount f.name f.least f.most? n f.usage) :=
  if_pos (not_not.mp fun hn => h (accepts_iff.mpr hn))

theorem promote_kind (v : Value) : v.promote.kind = .array := by cases v <;> rfl

theorem allows_iff (i : Nat) (v : Value) :
    ((f.spec i).isLazy || (f.spec i).allows ((f.spec i).effectiveKind v)) = true ↔
      ¬ f.Refuses i v := by
  simp only [Refuses, Parameter.allows, Parameter.effectiveKind, promote_kind]
  cases (f.spec i).isLazy <;> simp [List.isEmpty_iff, imp_iff_not_or]

theorem checkKinds_cons (i : Nat) (v : Option Value) (rest : List (Option Value))
    (hv : ∀ u, v = some u → ¬ f.Refuses i u) :
    f.checkKinds i (v :: rest) = f.checkKinds (i + 1) rest := by
  cases v with
  | none => rfl
  | some v => exact if_pos ((allows_iff i v).mpr (hv v rfl))

/-- Kinds that no parameter refuses are in order. -/
theorem checkKinds_ok {i : Nat} {values : List (Option Value)}
    (h : ∀ j v, values[j]? = some (some v) → ¬ f.Refuses (i + j) v) :
    f.checkKinds i values = .ok () := by
  induction values generalizing i with
  | nil => rfl
  | cons v rest ih =>
    rw [checkKinds_cons i v rest fun u hu => h 0 u (by rw [hu]; rfl)]
    refine ih fun j u hu => ?_
    rw [Nat.add_right_comm]
    exact h (j + 1) u hu

/-- The first value that its parameter refuses decides. -/
theorem checkKinds_error {i j : Nat} {values : List (Option Value)} {v : Value}
    (hv : values[j]? = some (some v)) (hrefuses : f.Refuses (i + j) v)
    (hbefore : ∀ k < j, ∀ u, values[k]? = some (some u) → ¬ f.Refuses (i + k) u) :
    f.checkKinds i values =
      .error (.argumentType f.name (i + j) (f.spec (i + j)).types v.typeName f.usage) := by
  induction values generalizing i j with
  | nil => cases hv
  | cons u rest ih =>
    cases j with
    | zero =>
      cases hv
      exact if_neg fun h => (allows_iff i v).mp h hrefuses
    | succ j =>
      rw [checkKinds_cons i u rest fun u' hu => hbefore 0 (Nat.succ_pos j) u' (by rw [hu]; rfl)]
      have hnum : i + (j + 1) = i + 1 + j := by omega
      rw [hnum] at hrefuses ⊢
      refine ih hv hrefuses fun k hk u' hu' => ?_
      have hk' : ¬ f.Refuses (i + (k + 1)) u' := hbefore (k + 1) (Nat.succ_lt_succ hk) u' hu'
      rwa [Nat.add_right_comm]

/-! ### Defaults -/

/-- The defaults come from the parameters behind the given arguments; those left out at the end
have none. -/
theorem defaults_split (n : Nat) : ∃ kept omitted, f.params.drop n = kept ++ omitted ∧
    f.defaults n = kept.map (fun p => { value := p.default }) ∧
    (∀ p ∈ omitted, p.default = none) ∧ ∀ p, kept.getLast? = some p → p.default.isSome := by
  let bare : Parameter → Bool := (·.default.isNone)
  refine ⟨((f.params.drop n).reverse.dropWhile bare).reverse,
    ((f.params.drop n).reverse.takeWhile bare).reverse, ?_, rfl, fun p hp => ?_, fun p hp => ?_⟩
  · rw [← List.reverse_append, List.takeWhile_append_dropWhile, List.reverse_reverse]
  · have hbare : bare p := List.mem_takeWhile_imp (List.mem_reverse.mp hp)
    simpa [bare] using hbare
  · rw [List.getLast?_reverse] at hp
    have hbare : bare p = false := by
      have := List.head?_dropWhile_not bare (f.params.drop n).reverse
      rw [hp] at this
      simpa using this
    simpa [bare, Option.isSome_iff_ne_none] using hbare

/-- A parameter behind the given arguments, as one with a default or one left out. -/
theorem getElem?_behind {n i : Nat} (hi : n ≤ i) :
    f.params[i]? = (f.params.drop n)[i - n]? := by
  rw [List.getElem?_drop, Nat.add_sub_cancel' hi]

/-- There are as many bound arguments as were given, or more if a later parameter has a default. The
last default that is kept gives the number, unless none is kept. -/
theorem isGreatest_bound (n : Nat) :
    IsGreatest {m | m = n ∨ ∃ i p, m = i + 1 ∧ n ≤ i ∧ f.params[i]? = some p ∧ p.default.isSome}
      (n + (f.defaults n).length) := by
  obtain ⟨kept, omitted, hsplit, hdefaults, homitted, hlast⟩ := f.defaults_split n
  rw [hdefaults, List.length_map]
  constructor
  · rcases List.eq_nil_or_concat kept with rfl | ⟨init, p, rfl⟩
    · exact .inl rfl
    · refine .inr ⟨n + init.length, p, ?_, Nat.le_add_right _ _, ?_, hlast p ?_⟩
      · simp [Nat.add_assoc]
      · rw [getElem?_behind (Nat.le_add_right _ _), hsplit]
        simp
      · simp
  · rintro m (rfl | ⟨i, p, rfl, hi, hp, hsome⟩)
    · exact Nat.le_add_right _ _
    · by_contra hlt
      rw [getElem?_behind hi, hsplit, List.getElem?_append_right (by omega)] at hp
      rw [homitted p (List.mem_of_getElem? hp)] at hsome
      cases hsome

/-- A default is that of the parameter at its place. -/
theorem defaults_getElem? {n i : Nat} {a : Argument} (hi : n ≤ i)
    (ha : (f.defaults n)[i - n]? = some a) : a = { value := (f.spec i).default } := by
  obtain ⟨kept, omitted, hsplit, hdefaults, -, -⟩ := f.defaults_split n
  rw [hdefaults, List.getElem?_map] at ha
  obtain ⟨p, hp, rfl⟩ := Option.map_eq_some_iff.mp ha
  have hparam : f.params[i]? = some p := by
    rw [getElem?_behind hi, hsplit,
      List.getElem?_append_left (List.getElem?_eq_some_iff.mp hp).1, hp]
  rw [spec, hparam]

/-- A bound argument before it is wrapped. -/
theorem complete_getElem? {args : List Deferred} {results : List (Option Value)} {i : Nat}
    {a : Argument} (ha : (f.complete (f.place 0 args results))[i]? = some a) :
    a = f.promote i
      { value := if i < args.length then f.given results i else (f.spec i).default
        deferred := if (f.spec i).isLazy then args[i]? else none } := by
  rw [complete, List.getElem?_mapIdx, length_place] at ha
  obtain ⟨b, hb, rfl⟩ := Option.map_eq_some_iff.mp ha
  congr 1
  by_cases hi : i < args.length
  · rw [List.getElem?_append_left (by rwa [length_place]), place_getElem?,
      List.getElem?_eq_getElem hi, Nat.zero_add] at hb
    cases hb
    rw [if_pos hi, List.getElem?_eq_getElem hi, given]
    cases (f.spec i).isLazy <;> rfl
  · rw [List.getElem?_append_right (by rw [length_place]; omega), length_place] at hb
    rw [defaults_getElem? (Nat.le_of_not_lt hi) hb, if_neg hi,
      List.getElem?_eq_none (Nat.le_of_not_lt hi), ite_self]

/-- The bound arguments are those that the contract asks for. -/
theorem complete_bound (args : List Deferred) (results : List (Option Value)) :
    f.Bound args results (f.complete (f.place 0 args results)) where
  length := by
    rw [complete, List.length_mapIdx, List.length_append, length_place]
    exact isGreatest_bound args.length
  value i a ha := by
    rw [complete_getElem? ha, promote]
    cases (f.spec i).toArray <;> rfl
  deferred i a ha := by
    rw [complete_getElem? ha, promote]
    cases (f.spec i).toArray <;> rfl

/-! ### Calls -/

open Run

/-- The function runs on arguments that no parameter refuses. -/
theorem exec_run (w : World) {args : List Deferred} {results : List (Option Value)}
    (hcount : f.Accepts args.length)
    (hkinds : ∀ i v, i < args.length → f.given results i = some v → ¬ f.Refuses i v) :
    (f.run env (f.place 0 args results)).exec w =
      (f.body env ⟨f.name, f.complete (f.place 0 args results)⟩).exec { w with
        log := w.log ++ [.called f.name (f.complete (f.place 0 args results)).length] } := by
  have hcheck : f.checkArguments ((f.place 0 args results).map (·.value)) = .ok () := by
    rw [checkArguments, List.length_map, length_place, checkCount_ok hcount]
    refine checkKinds_ok fun i v hv => ?_
    have hi : i < args.length := by
      have := (List.getElem?_eq_some_iff.mp hv).1
      rwa [List.length_map, length_place] at this
    rw [place_value args results hi, Option.some_inj] at hv
    rw [Nat.zero_add]
    exact hkinds i v hi hv
  rw [run, hcheck, exec_bind_ok (exec_result _ _), exec_bind_ok (exec_report _ _)]

/-- The first argument that its parameter refuses decides. -/
theorem exec_run_error (w : World) {args : List Deferred} {results : List (Option Value)} {i : Nat}
    {v : Value} (hcount : f.Accepts args.length) (hi : i < args.length)
    (hv : f.given results i = some v) (hrefuses : f.Refuses i v)
    (hbefore : ∀ j < i, ∀ u, f.given results j = some u → ¬ f.Refuses j u) :
    (f.run env (f.place 0 args results)).exec w =
      (.error (.argumentType f.name i (f.spec i).types v.typeName f.usage), w) := by
  have hcheck : f.checkArguments ((f.place 0 args results).map (·.value)) =
      .error (.argumentType f.name i (f.spec i).types v.typeName f.usage) := by
    rw [checkArguments, List.length_map, length_place, checkCount_ok hcount]
    have hkinds := @checkKinds_error f 0 i ((f.place 0 args results).map (·.value)) v
      (by rw [place_value args results hi, hv]) (by rwa [Nat.zero_add]) fun j hj u hu => by
        rw [place_value args results (hj.trans hi), Option.some_inj] at hu
        rw [Nat.zero_add]
        exact hbefore j hj u hu
    rwa [Nat.zero_add] at hkinds
  rw [run, hcheck, exec_bind_error (exec_result _ _)]

/-- A call with an accepted number of arguments evaluates the eager ones and runs. -/
theorem call_eq (w : World) {args : List Deferred} (hcount : f.Accepts args.length) :
    (f.call env args).exec w =
      (f.evalEager env args >>= fun results => f.run env (f.place 0 args results)).exec w := by
  rw [call, checkCount_ok hcount, exec_bind_ok (exec_result _ _), bind_eq, evalEager]
  simp

/-- **The contract of a call**, for any function, arguments and state of the world:

1. a number of arguments that the function does not take is refused, with nothing evaluated and
   nothing changed;
2. otherwise the eager arguments are evaluated from left to right, and the first that fails is
   the end;
3. otherwise the first value of a kind that its parameter refuses is an error, and the body does
   not run;
4. otherwise the body runs, once, on the arguments that the contract asks for. -/
theorem call_contract (f : Function) (env : Environment) (args : List Deferred) (w : World) :
    (¬ f.Accepts args.length → (f.call env args).exec w =
      (.error (.argumentCount f.name f.least f.most? args.length f.usage), w)) ∧
    (f.Accepts args.length →
      (∀ e w', (f.evalEager env args).exec w = (.error e, w') →
        (f.call env args).exec w = (.error e, w')) ∧
      (∀ results w', (f.evalEager env args).exec w = (.ok results, w') →
        (∀ i v, i < args.length → f.given results i = some v → f.Refuses i v →
          (∀ j < i, ∀ u, f.given results j = some u → ¬ f.Refuses j u) →
          (f.call env args).exec w =
            (.error (.argumentType f.name i (f.spec i).types v.typeName f.usage), w')) ∧
        ((∀ i v, i < args.length → f.given results i = some v → ¬ f.Refuses i v) →
          ∃ bound, f.Bound args results bound ∧ (f.call env args).exec w =
            (f.body env ⟨f.name, bound⟩).exec
              { w' with log := w'.log ++ [.called f.name bound.length] }))) := by
  refine ⟨fun hcount => ?_, fun hcount => ⟨fun e w' hfail => ?_, fun results w' hresults => ?_⟩⟩
  · rw [call, checkCount_error hcount, exec_bind_error (exec_result _ _)]
  · rw [call_eq w hcount, exec_bind_error hfail]
  · have hcall : (f.call env args).exec w = (f.run env (f.place 0 args results)).exec w' := by
      rw [call_eq w hcount, exec_bind_ok hresults]
    refine ⟨fun i v hi hv hrefuses hbefore => ?_, fun hkinds => ?_⟩
    · rw [hcall, exec_run_error w' hcount hi hv hrefuses hbefore]
    · exact ⟨_, complete_bound args results, hcall.trans (exec_run w' hcount hkinds)⟩

end Function

end Reckoner
