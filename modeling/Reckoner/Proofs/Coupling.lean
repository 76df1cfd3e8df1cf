import Mathlib.Tactic
import Reckoner.Proofs.Builtins

/-!
# Two evaluations of one expression

An expression is evaluated twice, in two contexts of two heaps. It gives the same both times if
the heaps cannot be told apart by what evaluation asks of them: the variables that the expression
reads, and the names of the contexts that values hold, which their texts and lengths depend on.
A relation of heaps that says so and that assignments keep is a `Heap.Coupling`.

The rules here carry such a relation through runs, as a pair of runs that give the same result
and leave related heaps. They hold for expressions that call no functions but those whose bodies
change nothing. With an expression on both sides, the induction on it is done once and gives what
one run keeps as well as what two runs have in common.
-/

namespace Reckoner

open Run

/-! ### Contexts inside of values -/

/-- All contexts that the value holds, itself or in sequences at any depth, are in the set. -/
def Value.HoldsOnly (S : ContextId → Prop) (v : Value) : Prop :=
  v.Every fun w => ∀ c, w = .context c → S c

variable {S : ContextId → Prop} {names names' : Names}

namespace Value

theorem closed_holdsOnly (S : ContextId → Prop) : Closed (HoldsOnly S) where
  simple := fun {v} hv => by
    refine every_of_none ?_ fun c hc => ?_
    · cases v <;> first | rfl | exact hv.elim
    · rw [hc] at hv
      exact hv.elim
  matrix := fun _ _ _ => every_of_none rfl fun c hc => by cases hc
  array := fun _ hitems => every_array (fun c hc => by cases hc) hitems
  list := fun hitems => every_list (fun c hc => by cases hc) hitems
  item := Every.item

mutual

/-- The text of a value depends on the names of the contexts that it holds only. -/
theorem toText_congr (hnames : ∀ c, S c → names c = names' c) :
    ∀ v : Value, v.HoldsOnly S → v.toText names = v.toText names'
  | .array elem items, hv => by
    rw [toText, toText, itemTexts_congr hnames items fun w hw => hv.item rfl hw]
  | .list items, hv => by
    rw [toText, toText, itemTexts_congr hnames items fun w hw => hv.item rfl hw]
  | .context c, hv => by rw [toText, toText, hnames c (hv.self c rfl)]
  | .int _, _ | .real _, _ | .bool _, _ | .text _, _ | .dateTime _, _ | .timeSpan _, _
  | .point _, _ | .vector _, _ | .pointVector _, _ | .matrix _, _ | .handle _, _
  | .object _ _, _ => by simp only [toText]

theorem itemTexts_congr (hnames : ∀ c, S c → names c = names' c) :
    ∀ items : List Value, (∀ v ∈ items, v.HoldsOnly S) →
      itemTexts names items = itemTexts names' items
  | [], _ => by simp only [itemTexts]
  | v :: rest, hitems => by
    have hv := toText_congr hnames v (hitems v List.mem_cons_self)
    have hrest := itemTexts_congr hnames rest fun w hw => hitems w (List.mem_cons_of_mem v hw)
    cases v <;> simp only [itemTexts, hv, hrest]

end

end Value

/-! ### Texts in operators and expressions -/

namespace Operator

variable {op : Operator} {l r : Value}

theorem unsupported_congr (hnames : ∀ c, S c → names c = names' c) {l r : Option Value}
    (hl : Value.IfAny (Value.HoldsOnly S) l) (hr : Value.IfAny (Value.HoldsOnly S) r) :
    op.unsupported names l r = op.unsupported names' l r := by
  refine congrArg₂ (Error.operands op.symbol (Value.typeName? l) (Value.typeName? r)) ?_ ?_
  · cases l with
    | none => rfl
    | some l => exact Value.toText_congr hnames l (hl l rfl)
  · cases r with
    | none => rfl
    | some r => exact Value.toText_congr hnames r (hr r rfl)

theorem direct_congr (hnames : ∀ c, S c → names c = names' c) (hl : l.HoldsOnly S)
    (hr : r.HoldsOnly S) : op.direct names l r = op.direct names' l r := by
  unfold direct
  rw [Value.toText_congr hnames l hl, Value.toText_congr hnames r hr]

theorem each_congr {ps : List (Value × Value)}
    (hps : ∀ p ∈ ps, op.apply names p.1 p.2 = op.apply names' p.1 p.2) :
    each names op ps = each names' op ps := by
  induction ps with
  | nil => rfl
  | cons p ps ih =>
    rw [each, each, hps p List.mem_cons_self, ih fun q hq => hps q (List.mem_cons_of_mem p hq)]

/-- **The result of an operator** depends on the names of the contexts that its operands hold
only. -/
theorem apply_congr (hnames : ∀ c, S c → names c = names' c) (hl : l.HoldsOnly S)
    (hr : r.HoldsOnly S) : op.apply names l r = op.apply names' l r := by
  induction l, r using pairs_induction with
  | step l r ih =>
    have hdirect : op.direct names l r = op.direct names' l r := direct_congr hnames hl hr
    cases hlogged : op.direct names' l r with
    | some logged => rw [apply_direct hlogged, apply_direct (hdirect.trans hlogged)]
    | none =>
      have hnone := hdirect.trans hlogged
      by_cases hseq : MeetsSequence l r
      · by_cases hlen : SameLength l r
        · rw [apply_sequence hseq hnone hlen, apply_sequence hseq hlogged hlen]
          refine congrArg gather (each_congr fun p hp => ?_)
          obtain ⟨hp₁, hp₂⟩ := pairs_every (Value.closed_holdsOnly S).item hl hr hp
          exact ih p hp hp₁ hp₂
        · simp only [SameLength, not_forall] at hlen
          obtain ⟨ls, rs, hls, hrs, hne⟩ := hlen
          rw [apply_lengths hls hrs hnone hne, apply_lengths hls hrs hlogged hne]
      · obtain ⟨hls, hrs⟩ : l.items? = none ∧ r.items? = none := by
          simpa [MeetsSequence] using hseq
        rw [apply_unsupported hls hrs hnone, apply_unsupported hls hrs hlogged]
        have hsome : ∀ {v : Value}, v.HoldsOnly S → Value.IfAny (Value.HoldsOnly S) (some v) := by
          rintro v hv _ ⟨rfl⟩
          exact hv
        rw [unsupported_congr hnames (hsome hl) (hsome hr)]

theorem evaluate_congr (hnames : ∀ c, S c → names c = names' c) {l r : Option Value}
    (hl : Value.IfAny (Value.HoldsOnly S) l) (hr : Value.IfAny (Value.HoldsOnly S) r) :
    op.evaluate names l r = op.evaluate names' l r := by
  have hunsupported : op.unsupported names l r = op.unsupported names' l r :=
    unsupported_congr hnames hl hr
  rcases l with _ | l
  · simp only [evaluate, hunsupported]
  · rcases r with _ | r
    · simp only [evaluate, hunsupported]
    · exact apply_congr hnames (hl l rfl) (hr r rfl)

end Operator

namespace Expr

mutual

/-- The text of an expression depends on the names of the contexts in its constants only. -/
theorem text?_congr (hnames : ∀ c, S c → names c = names' c) :
    ∀ e : Expr, (∀ v ∈ e.constants, v.HoldsOnly S) → e.text? names = e.text? names'
  | const none, _ => by simp only [text?]
  | const (some v), hc => by
    have hv := Value.toText_congr hnames v (hc v (by simp [constants]))
    cases v <;> simp only [text?, hv]
  | name n, _ => by simp only [text?]
  | binary op l r, hc => by
    rw [constants, List.forall_mem_append] at hc
    rw [text?, text?, text?_congr hnames l hc.1, text?_congr hnames r hc.2]
  | call f args, hc => by rw [text?, text?, texts?_congr hnames args hc]
  | array items, hc => by rw [text?, text?, texts?_congr hnames items hc]
  | assign n e, hc => by rw [text?, text?, text?_congr hnames e hc]
  | sequence steps, hc => by rw [text?, text?, texts?_congr hnames steps hc]

theorem texts?_congr (hnames : ∀ c, S c → names c = names' c) :
    ∀ es : List Expr, (∀ v ∈ constantsAll es, v.HoldsOnly S) →
      texts? names es = texts? names' es
  | [], _ => by simp only [texts?]
  | e :: rest, hc => by
    rw [constantsAll, List.forall_mem_append] at hc
    rw [texts?, texts?, text?_congr hnames e hc.1, texts?_congr hnames rest hc.2]

end

end Expr

/-! ### Pairs of runs -/

/-- In related heaps the runs give the same result, which has the property if there is one, and
leave related heaps. -/
def Run.Coupled {α : Type} (I : Heap → Heap → Prop) (x y : Run α) (P : α → Prop) : Prop :=
  ∀ w w', I w.heap w'.heap → (x.exec w).1 = (y.exec w').1 ∧
    I (x.exec w).2.heap (y.exec w').2.heap ∧ ∀ a, (x.exec w).1 = .ok a → P a

namespace Run

variable {α β : Type} {I : Heap → Heap → Prop} {P : α → Prop} {Q : β → Prop}

theorem coupled_result {r : Except Error α} (hr : ∀ a, r = .ok a → P a) :
    Coupled I (result r) (result r) P := fun _ _ hI => ⟨rfl, hI, hr⟩

theorem coupled_pure {a : α} (ha : P a) : Coupled I (pure a) (pure a) P :=
  coupled_result (r := .ok a) fun _ h => by cases h; exact ha

theorem coupled_throw {e : Error} : Coupled I (throw e) (throw e) P :=
  coupled_result (r := .error e) fun _ h => by cases h

theorem coupled_report (entries : List LogEntry) :
    Coupled I (report entries) (report entries) fun _ => True :=
  fun _ _ hI => ⟨rfl, hI, fun _ _ => trivial⟩

/-- What is done with the heaps may depend on all that relates them. -/
theorem coupled_heap {f g : Heap → Run β} (hf : ∀ h h', I h h' → Coupled I (f h) (g h') Q) :
    Coupled I (heap >>= f) (heap >>= g) Q := by
  intro w w' hI
  rw [exec_bind_ok (exec_heap w), exec_bind_ok (exec_heap w')]
  exact hf w.heap w'.heap hI w w' hI

theorem Coupled.bind {x y : Run α} {f g : α → Run β} (hx : Coupled I x y P)
    (hf : ∀ a, P a → Coupled I (f a) (g a) Q) : Coupled I (x >>= f) (y >>= g) Q := by
  intro w w' hI
  obtain ⟨hsame, hrelated, hresult⟩ := hx w w' hI
  rw [exec_bind, exec_bind]
  cases hexec : x.exec w with
  | mk a u =>
    cases hexec' : y.exec w' with
    | mk b u' =>
      rw [hexec, hexec'] at hsame hrelated
      rw [hexec] at hresult
      obtain rfl : a = b := hsame
      cases a with
      | error e => exact ⟨rfl, hrelated, fun _ ha => by cases ha⟩
      | ok a => exact hf a (hresult a rfl) u u' hrelated

end Run

/-! ### What evaluation asks of two heaps -/

/-- The relation lets contexts `c` and `c'` take the same part: the names `reads` have the same
values in both scopes, which hold contexts of the set only; the contexts of the set have the same
names; and setting a name of `writes` in both contexts keeps the relation. -/
structure Heap.Coupling (c c' : ContextId) (S : ContextId → Prop) (reads writes : List Text)
    (I : Heap → Heap → Prop) : Prop where
  /-- A name that is read stands for the same in both scopes. -/
  lookup : ∀ {h h'}, I h h' → ∀ n ∈ reads, h.lookup c n = h'.lookup c' n
  /-- What it stands for holds contexts of the set only. -/
  holds : ∀ {h h'}, I h h' → ∀ n ∈ reads, Value.IfAny (Value.HoldsOnly S) (h.lookup c n)
  /-- The contexts of the set have the same names in both heaps. -/
  names : ∀ {h h'}, I h h' → ∀ d, S d → h.names d = h'.names d
  /-- Setting a name that is written keeps the relation. -/
  set : ∀ {h h'}, I h h' → ∀ n ∈ writes, ∀ v, v.HoldsOnly S →
    I (h.setVariable c n v) (h'.setVariable c' n v)

variable {c c' : ContextId} {reads writes : List Text} {I : Heap → Heap → Prop}
  {env : Environment}

/-- The expression is evaluated alike in both contexts, and its constants hold contexts of the set
only. -/
structure Deferred.Coupled (I : Heap → Heap → Prop) (S : ContextId → Prop) (env : Environment)
    (c c' : ContextId) (d : Deferred) : Prop where
  eval : Run.Coupled I (d.eval { env with context := c }) (d.eval { env with context := c' })
    (Value.IfAny (Value.HoldsOnly S))
  constants : ∀ v ∈ d.expr.constants, v.HoldsOnly S

/-! ### Calls -/

namespace Function

variable {f : Function}

theorem bindOne_coupled {d : Deferred} (hd : d.Coupled I S env c c') (i : Nat) :
    Coupled I (f.bindOne { env with context := c } i d) (f.bindOne { env with context := c' } i d)
      fun a => Value.IfAny (Value.HoldsOnly S) a.value := by
  unfold bindOne
  split
  · exact coupled_pure fun _ hv => by cases hv
  · exact hd.eval.bind fun v hv => coupled_pure hv

theorem bind_coupled {ds : List Deferred} (hds : ∀ d ∈ ds, d.Coupled I S env c c') (i : Nat) :
    Coupled I (f.bind { env with context := c } i ds) (f.bind { env with context := c' } i ds)
      fun given => ∀ a ∈ given, Value.IfAny (Value.HoldsOnly S) a.value := by
  induction ds generalizing i with
  | nil => exact coupled_pure fun _ ha => by cases ha
  | cons d rest ih =>
    obtain ⟨hd, hrest⟩ := List.forall_mem_cons.mp hds
    refine (bindOne_coupled hd i).bind fun a ha => ?_
    refine (ih hrest (i + 1)).bind fun given hgiven => coupled_pure ?_
    exact List.forall_mem_cons.mpr ⟨ha, hgiven⟩

/-- The body does the same in both contexts for arguments that hold contexts of the set only. -/
structure Alike (f : Function) (I : Heap → Heap → Prop) (S : ContextId → Prop) (env : Environment)
    (c c' : ContextId) : Prop where
  /-- Defaults hold contexts of the set only. -/
  default : ∀ p ∈ f.params, Value.IfAny (Value.HoldsOnly S) p.default
  body : ∀ args : Arguments, (∀ a ∈ args.args, Value.IfAny (Value.HoldsOnly S) a.value) →
    Coupled I (f.body { env with context := c } args) (f.body { env with context := c' } args)
      (Value.IfAny (Value.HoldsOnly S))

theorem complete_holdsOnly (hf : f.Alike I S env c c') {given : List Argument}
    (hgiven : ∀ a ∈ given, Value.IfAny (Value.HoldsOnly S) a.value) :
    ∀ a ∈ f.complete given, Value.IfAny (Value.HoldsOnly S) a.value := by
  have hpromote : ∀ i (b : Argument), Value.IfAny (Value.HoldsOnly S) b.value →
      Value.IfAny (Value.HoldsOnly S) (f.promote i b).value := by
    intro i b hb v hv
    unfold promote at hv
    split at hv
    · obtain ⟨u, hu, rfl⟩ := Option.map_eq_some_iff.mp hv
      exact (Value.closed_holdsOnly S).promote (hb u hu)
    · exact hb v hv
  intro a ha
  obtain ⟨i, b, rfl, hb | ⟨p, hp, rfl⟩⟩ := mem_complete ha
  · exact hpromote i b (hgiven b hb)
  · exact hpromote i _ (hf.default p hp)

/-- **A call does the same** in both contexts if its arguments and the body do. -/
theorem call_coupled (hf : f.Alike I S env c c') {ds : List Deferred}
    (hds : ∀ d ∈ ds, d.Coupled I S env c c') :
    Coupled I (f.call { env with context := c } ds) (f.call { env with context := c' } ds)
      (Value.IfAny (Value.HoldsOnly S)) := by
  refine (coupled_result (P := fun _ => True) fun _ _ => trivial).bind fun _ _ => ?_
  refine (bind_coupled hds 0).bind fun given hgiven => ?_
  refine (coupled_result (P := fun _ => True) fun _ _ => trivial).bind fun _ _ => ?_
  refine (coupled_report _).bind fun _ _ => ?_
  exact hf.body _ (complete_holdsOnly hf hgiven)

end Function

namespace Builtin

/-- The functions whose bodies change nothing. -/
def plain : List Function := numericFunctions ++ [typeOf, length, array, list]

/-- Their names. -/
def plainNames : List Text :=
  ["type", "length", "array", "list", "exp", "ln", "log", "sqrt", "pi", "e"]

/-- The names are those of the functions. -/
theorem find_plain {name : Text} (hname : Text.lower name ∈ plainNames) :
    ∃ f ∈ plain, builtins.find? name = some f := by
  have hfind : ∀ n ∈ plainNames, ∃ f ∈ plain, builtins.entries.lookup n = some f := by
    intro n hn
    simp only [plainNames, List.mem_cons, List.not_mem_nil, or_false] at hn
    rcases hn with rfl | rfl | rfl | rfl | rfl | rfl | rfl | rfl | rfl | rfl
    · exact ⟨typeOf, by simp [plain], rfl⟩
    · exact ⟨length, by simp [plain], rfl⟩
    · exact ⟨array, by simp [plain], rfl⟩
    · exact ⟨list, by simp [plain], rfl⟩
    all_goals exact ⟨_, List.mem_append_left _ (by simp [numericFunctions]), rfl⟩
  exact hfind _ hname

/-- The length of a value depends on the names of the contexts that it holds only. -/
theorem lengthOf?_congr {h h' : Heap} (hnames : ∀ d, S d → h.names d = h'.names d) {v : Value}
    (hv : v.HoldsOnly S) : lengthOf? h v = lengthOf? h' v := by
  have hlength : ∀ (h : Heap) d, (h.context d).vars.length = (h.names d).length :=
    fun h d => (List.length_map _).symm
  cases v with
  | context d => simp only [lengthOf?, hlength, hnames d (hv.self d rfl)]
  | _ => rfl

theorem answers_alike {f : Function} (hf : f.Answers) : f.Alike I S env c c' where
  default := fun p hp v hv => (Value.closed_holdsOnly S).simple (hf.default p hp v hv)
  body := fun args hargs => by
    rw [hf.steady env c, hf.steady env c']
    obtain ⟨r, hbody, hclosed⟩ := hf.answer env args
    rw [hbody]
    exact coupled_result fun v hv => hclosed (Value.closed_holdsOnly S) hargs v hv

theorem length_alike (hI : ∀ {h h'}, I h h' → ∀ d, S d → h.names d = h'.names d) :
    length.Alike I S env c c' where
  default := by simp [length, Value.IfAny]
  body := fun args hargs => by
    refine coupled_heap fun h h' hh => ?_
    have hsame : (args.value? 0).bind (lengthOf? h) = (args.value? 0).bind (lengthOf? h') := by
      cases hv : args.value? 0 with
      | none => rfl
      | some v =>
        obtain ⟨a, ha, hvalue⟩ := Option.bind_eq_some_iff.mp hv
        exact lengthOf?_congr (hI hh) (hargs a (List.mem_of_getElem? ha) v hvalue)
    rw [hsame]
    split
    · refine coupled_pure ?_
      rintro _ ⟨rfl⟩
      exact (Value.closed_holdsOnly S).simple trivial
    · exact coupled_throw

/-- All of these functions do the same in both contexts. -/
theorem plain_alike (hI : Heap.Coupling c c' S reads writes I) :
    ∀ f ∈ plain, f.Alike I S env c c' := by
  intro f hf
  simp only [plain, List.mem_append, List.mem_cons, List.not_mem_nil, or_false] at hf
  rcases hf with hf | rfl | rfl | rfl | rfl
  · exact answers_alike (numericFunctions_answer f hf)
  · exact answers_alike typeOf_answers
  · exact length_alike hI.names
  · exact answers_alike array_answers
  · exact answers_alike list_answers

end Builtin

/-! ### Expressions -/

namespace Expr

mutual

/-- The names of the functions that an expression calls. -/
def calls : Expr → List Text
  | const _ => []
  | name _ => []
  | binary _ l r => l.calls ++ r.calls
  | call f args => f :: callsAll args
  | array items => callsAll items
  | assign _ e => e.calls
  | sequence steps => callsAll steps

/-- The names of the functions that several expressions call. -/
def callsAll : List Expr → List Text
  | [] => []
  | e :: rest => e.calls ++ callsAll rest

end

mutual

/-- The names that an expression assigns. -/
def assigned : Expr → List Text
  | const _ => []
  | name _ => []
  | binary _ l r => l.assigned ++ r.assigned
  | call _ args => assignedAll args
  | array items => assignedAll items
  | assign n e => n :: e.assigned
  | sequence steps => assignedAll steps

/-- The names that several expressions assign. -/
def assignedAll : List Expr → List Text
  | [] => []
  | e :: rest => e.assigned ++ assignedAll rest

end

theorem evalRequired_coupled (hI : Heap.Coupling c c' S reads writes I) {d : Deferred}
    (hd : d.Coupled I S env c c') :
    Run.Coupled I (evalRequired { env with context := c } d)
      (evalRequired { env with context := c' } d) (Value.HoldsOnly S) := by
  refine hd.eval.bind fun v hv => ?_
  cases v with
  | some v => exact coupled_pure (hv v rfl)
  | none =>
    refine coupled_heap fun h h' hh => ?_
    rw [noValue, noValue, text?_congr (hI.names hh) d.expr hd.constants]
    exact coupled_throw

theorem evalItems_coupled (hI : Heap.Coupling c c' S reads writes I) {ds : List Deferred}
    (hds : ∀ d ∈ ds, d.Coupled I S env c c') :
    Run.Coupled I (evalItems { env with context := c } ds)
      (evalItems { env with context := c' } ds) fun vs => ∀ v ∈ vs, v.HoldsOnly S := by
  induction ds with
  | nil => exact coupled_pure fun _ hv => by cases hv
  | cons d rest ih =>
    obtain ⟨hd, hrest⟩ := List.forall_mem_cons.mp hds
    refine (evalRequired_coupled hI hd).bind fun v hv => (ih hrest).bind fun vs hvs => ?_
    exact coupled_pure (List.forall_mem_cons.mpr ⟨hv, hvs⟩)

theorem evalSteps_coupled {ds : List Deferred} (hds : ∀ d ∈ ds, d.Coupled I S env c c')
    {last : Option Value} (hlast : Value.IfAny (Value.HoldsOnly S) last) :
    Run.Coupled I (evalSteps { env with context := c } last ds)
      (evalSteps { env with context := c' } last ds) (Value.IfAny (Value.HoldsOnly S)) := by
  induction ds generalizing last with
  | nil => exact coupled_pure hlast
  | cons d rest ih =>
    obtain ⟨hd, hrest⟩ := List.forall_mem_cons.mp hds
    exact hd.eval.bind fun v hv => ih hrest hv

theorem applyOperator_coupled (hI : Heap.Coupling c c' S reads writes I) (op : Operator)
    {l r : Option Value} (hl : Value.IfAny (Value.HoldsOnly S) l)
    (hr : Value.IfAny (Value.HoldsOnly S) r) :
    Run.Coupled I (applyOperator op l r) (applyOperator op l r) (Value.HoldsOnly S) := by
  refine coupled_heap fun h h' hh => ?_
  rw [Operator.evaluate_congr (hI.names hh) hl hr]
  refine (coupled_report _).bind fun _ _ => coupled_result fun v hv => ?_
  rcases l with _ | l
  · cases hv
  · rcases r with _ | r
    · cases hv
    · exact Operator.apply_closed (Value.closed_holdsOnly S) (hl l rfl) (hr r rfl) hv

theorem readVariable_coupled (hI : Heap.Coupling c c' S reads writes I) {n : Text}
    (hn : n ∈ reads) :
    Run.Coupled I (readVariable { env with context := c } n)
      (readVariable { env with context := c' } n) (Value.HoldsOnly S) := by
  refine coupled_heap fun h h' hh => ?_
  dsimp only
  rw [← hI.lookup hh n hn]
  cases hv : h.lookup c n with
  | none => exact coupled_throw
  | some v => exact coupled_pure (hI.holds hh n hn v hv)

theorem setVariable_coupled (hI : Heap.Coupling c c' S reads writes I) {n : Text}
    (hn : n ∈ writes) {v : Value} (hv : v.HoldsOnly S) :
    Run.Coupled I (onHeap fun h => ((), h.setVariable c n v))
      (onHeap fun h => ((), h.setVariable c' n v)) fun _ => True :=
  fun _ _ hh => ⟨rfl, hI.set hh n hn v hv, fun _ _ => trivial⟩

/-- What is asked of an expression: it mentions and assigns names that the relation is about, its
constants hold contexts of the set, and it calls functions that change nothing. -/
structure Suits (S : ContextId → Prop) (reads writes : List Text) (mentions assigned : List Text)
    (constants : List Value) (calls : List Text) : Prop where
  mentions : ∀ n ∈ mentions, n ∈ reads
  assigned : ∀ n ∈ assigned, n ∈ writes
  constants : ∀ v ∈ constants, v.HoldsOnly S
  calls : ∀ f ∈ calls, Text.lower f ∈ Builtin.plainNames

theorem Suits.append {m m' a a' f f' : List Text} {k k' : List Value}
    (hs : Suits S reads writes (m ++ m') (a ++ a') (k ++ k') (f ++ f')) :
    Suits S reads writes m a k f ∧ Suits S reads writes m' a' k' f' := by
  obtain ⟨hm, ha, hk, hf⟩ := hs
  rw [List.forall_mem_append] at hm ha hk hf
  exact ⟨⟨hm.1, ha.1, hk.1, hf.1⟩, ⟨hm.2, ha.2, hk.2, hf.2⟩⟩

mutual

/-- **An expression does the same** in both contexts: one case for every kind of expression. -/
theorem eval_coupled (hI : Heap.Coupling c c' S reads writes I) (env : Environment) :
    ∀ e : Expr, Suits S reads writes e.mentions e.assigned e.constants e.calls →
      Run.Coupled I (e.eval builtins { env with context := c })
        (e.eval builtins { env with context := c' }) (Value.IfAny (Value.HoldsOnly S))
  | const v, hs => by
    rw [eval, eval]
    exact coupled_pure fun u hu => hs.constants u (by simp [constants, hu])
  | name n, hs => by
    rw [eval, eval]
    refine (readVariable_coupled hI (hs.mentions n (by simp [mentions]))).bind fun v hv => ?_
    refine coupled_pure ?_
    rintro _ ⟨rfl⟩
    exact hv
  | binary op l r, hs => by
    obtain ⟨hl, hr⟩ := Suits.append hs
    rw [eval, eval]
    refine (eval_coupled hI env l hl).bind fun a ha => ?_
    refine (eval_coupled hI env r hr).bind fun b hb => ?_
    refine (applyOperator_coupled hI op ha hb).bind fun v hv => coupled_pure ?_
    rintro _ ⟨rfl⟩
    exact hv
  | call f args, hs => by
    obtain ⟨g, hg, hfind⟩ := Builtin.find_plain (hs.calls f (by simp [calls]))
    have hargs : Suits S reads writes (mentionsAll args) (assignedAll args) (constantsAll args)
        (callsAll args) :=
      ⟨hs.mentions, hs.assigned, hs.constants, fun f' hf' => hs.calls f' (.tail _ hf')⟩
    rw [eval, eval, hfind]
    exact Function.call_coupled (Builtin.plain_alike hI g hg) (deferAll_coupled hI env args hargs)
  | array items, hs => by
    rw [eval, eval]
    refine (evalItems_coupled hI (deferAll_coupled hI env items hs)).bind fun vs hvs => ?_
    refine coupled_pure ?_
    rintro _ ⟨rfl⟩
    exact (Value.closed_holdsOnly S).collect hvs
  | assign n e, hs => by
    have he : Suits S reads writes e.mentions e.assigned e.constants e.calls :=
      ⟨fun m hm => hs.mentions m (.tail _ hm), fun m hm => hs.assigned m (.tail _ hm),
        hs.constants, hs.calls⟩
    have hd : Deferred.Coupled I S env c c' ⟨e, e.eval builtins⟩ :=
      ⟨eval_coupled hI env e he, he.constants⟩
    rw [eval, eval]
    refine (evalRequired_coupled hI hd).bind fun v hv => ?_
    refine (setVariable_coupled hI (hs.assigned n (by simp [assigned])) hv).bind fun _ _ => ?_
    refine coupled_pure ?_
    rintro _ ⟨rfl⟩
    exact hv
  | sequence steps, hs => by
    rw [eval, eval]
    exact evalSteps_coupled (deferAll_coupled hI env steps hs) fun _ hv => by cases hv

theorem deferAll_coupled (hI : Heap.Coupling c c' S reads writes I) (env : Environment) :
    ∀ es : List Expr,
      Suits S reads writes (mentionsAll es) (assignedAll es) (constantsAll es) (callsAll es) →
      ∀ d ∈ deferAll builtins es, d.Coupled I S env c c'
  | [], _ => fun _ hd => by cases hd
  | e :: rest, hs => by
    obtain ⟨he, hrest⟩ := Suits.append hs
    rw [deferAll]
    exact List.forall_mem_cons.mpr ⟨⟨eval_coupled hI env e he, he.constants⟩,
      deferAll_coupled hI env rest hrest⟩

end

end Expr

end Reckoner
