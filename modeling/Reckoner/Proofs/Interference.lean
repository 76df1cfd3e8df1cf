import Mathlib.Tactic
import Reckoner.Proofs.Coupling
import Reckoner.Proofs.ScopeChains

/-!
# The variables of an expression

The names that an expression mentions bound what its evaluation reads and writes, as long as it
calls only functions whose bodies change nothing. One evaluation changes no variable of another
name and no other context, whether it succeeds or not. Two evaluations, in contexts that give the
mentioned names the same values, have the same result and leave contexts that do so again.

The second needs a condition, since a context is a value too, and is shared and not copied: its
length and its text tell how many variables it has and how they are called. If a new variable is
set in the context at hand, and if that context is itself among the values that the expression
works with, then the evaluation sees where it takes place.
-/

namespace Reckoner

/-! ### Names without repetition -/

theorem nodup_eraseDups {α : Type} [BEq α] [LawfulBEq α] (l : List α) : l.eraseDups.Nodup := by
  induction hn : l.length using Nat.strong_induction_on generalizing l with
  | _ n ih =>
    cases l with
    | nil => exact List.nodup_nil
    | cons a l =>
      rw [List.eraseDups_cons, List.nodup_cons, List.mem_eraseDups]
      refine ⟨by simp, ih _ ?_ _ rfl⟩
      exact hn ▸ Nat.lt_succ_of_le (List.length_filter_le _ l)

namespace Expr

mutual

/-- What is assigned is mentioned. -/
theorem mentions_of_assigned {n : Text} : ∀ e : Expr, n ∈ e.assigned → n ∈ e.mentions
  | const _, hn => by simp [assigned] at hn
  | name _, hn => by simp [assigned] at hn
  | binary _ l r, hn => by
    rw [assigned, List.mem_append] at hn
    rw [mentions, List.mem_append]
    exact hn.imp (mentions_of_assigned l) (mentions_of_assigned r)
  | call _ args, hn => by
    rw [assigned] at hn
    rw [mentions]
    exact mentionsAll_of_assigned args hn
  | array items, hn => by
    rw [assigned] at hn
    rw [mentions]
    exact mentionsAll_of_assigned items hn
  | assign _ e, hn => by
    rw [assigned, List.mem_cons] at hn
    rw [mentions, List.mem_cons]
    exact hn.imp_right (mentions_of_assigned e)
  | sequence steps, hn => by
    rw [assigned] at hn
    rw [mentions]
    exact mentionsAll_of_assigned steps hn

theorem mentionsAll_of_assigned {n : Text} :
    ∀ es : List Expr, n ∈ assignedAll es → n ∈ mentionsAll es
  | [], hn => by simp [assignedAll] at hn
  | e :: rest, hn => by
    rw [assignedAll, List.mem_append] at hn
    rw [mentionsAll, List.mem_append]
    exact hn.imp (mentions_of_assigned e) (mentionsAll_of_assigned rest)

end

theorem mem_variableNames {e : Expr} {n : Text} : n ∈ e.variableNames ↔ n ∈ e.mentions :=
  List.mem_eraseDups

end Expr

/-! ### Inside of values -/

/-- The second value is the first one or, at any depth, an item of it. -/
inductive Value.Contains : Value → Value → Prop
  /-- The value itself. -/
  | self (v : Value) : Contains v v
  /-- Something in an item of it. -/
  | item {v u w : Value} {items : List Value} : v.items? = some items → u ∈ items →
    Contains u w → Contains v w

theorem Value.every_of_contains {p : Value → Prop} {v : Value} (h : ∀ w, v.Contains w → p w) :
    v.Every p :=
  .intro (h v (.self v)) fun _ hitems _ hu =>
    every_of_contains fun w hw => h w (.item hitems hu hw)
termination_by sizeOf v
decreasing_by exact Operator.sizeOf_item ‹_› ‹_›

/-! ### Setting a variable -/

theorem Context.get?_set (ctx : Context) (name k : Text) (v : Value) :
    (ctx.set name v).get? k = if k = name then some v else ctx.get? k := by
  show (setIn name v ctx.vars).lookup k = if k = name then some v else ctx.vars.lookup k
  induction ctx.vars with
  | nil => rw [setIn, lookup_cons_if]
  | cons b rest ih =>
    rw [setIn]
    by_cases hb : b.1 = name
    · subst hb
      rw [if_pos rfl, lookup_cons_if, lookup_cons_if]
      by_cases hk : k = b.1 <;> simp [hk]
    · rw [if_neg hb, lookup_cons_if, lookup_cons_if, ih]
      by_cases hk : k = b.1
      · rw [if_pos hk, if_pos hk, if_neg (hk ▸ hb)]
      · rw [if_neg hk, if_neg hk]

namespace Heap

variable {h h' : Heap} {c d : ContextId} {n : Text} {v : Value}

theorem get?_setVariable (hc : c < h.contexts.size) (k : Text) :
    ((h.setVariable c n v).context d).get? k =
      if d = c ∧ k = n then some v else (h.context d).get? k := by
  by_cases hdc : d = c
  · subst hdc
    rw [setVariable, context_update hc, Context.get?_set]
    simp
  · rw [setVariable, context_update_of_ne hdc, if_neg fun hboth => hdc hboth.1]

theorem chain_setVariable (h : Heap) (c d : ContextId) (n : Text) (v : Value) :
    (h.setVariable c n v).chain d = h.chain d := by
  have hchain : ∀ m d, (h.setVariable c n v).chainFrom m d = h.chainFrom m d := by
    intro m
    induction m with
    | zero => exact fun _ => rfl
    | succ m ih =>
      intro d
      have hparent : ((h.setVariable c n v).context d).parent = (h.context d).parent :=
        congrArg Prod.fst (sameLinks_setVariable h c n v d)
      rw [chainFrom, chainFrom, hparent]
      cases (h.context d).parent with
      | none => rfl
      | some p => exact congrArg (d :: ·) (ih p)
  exact hchain (d + 1) d

/-- In the context that a variable is set in, it is found, and other names as before. -/
theorem lookup_setVariable (hc : c < h.contexts.size) (k : Text) :
    (h.setVariable c n v).lookup c k = if k = n then some v else h.lookup c k := by
  rw [lookup, chain_setVariable, lookup]
  by_cases hk : k = n
  · have hhere : ((h.setVariable c n v).context c).get? k = some v := by
      rw [get?_setVariable hc, if_pos ⟨rfl, hk⟩]
    rw [if_pos hk, chain, chainFrom, List.findSome?_cons, hhere]
  · have hsame : ∀ d, ((h.setVariable c n v).context d).get? k = (h.context d).get? k := fun d => by
      rw [get?_setVariable hc, if_neg fun hboth => hk hboth.2]
    simp only [hsame, if_neg hk]

/-- The names of other contexts, and those of a context that has the name, are as before. -/
theorem names_setVariable (hc : c < h.contexts.size) (hown : d = c → n ∈ h.names c) :
    (h.setVariable c n v).names d = h.names d := by
  by_cases hdc : d = c
  · subst hdc
    rw [names, setVariable, context_update hc]
    exact names_setIn_of_mem (hown rfl) v
  · rw [names, setVariable, context_update_of_ne hdc, names]

/-! ### What one evaluation changes -/

/-- The second heap is the first one with variables of context `c` set: some that are there, and
some that are new; all have names of the list. -/
structure Frame (c : ContextId) (vars : List Text) (h h' : Heap) : Prop where
  /-- There are as many contexts as before. -/
  size : h'.contexts.size = h.contexts.size
  /-- All other contexts, and with them all other scopes, are as before. -/
  others : ∀ d, d ≠ c → h'.context d = h.context d
  /-- So are the parent and the listeners. -/
  links : (h'.context c).links = (h.context c).links
  /-- So are variables of other names. -/
  same : ∀ n, n ∉ vars → (h'.context c).get? n = (h.context c).get? n
  /-- Every variable is still there, in its place, and new ones come last. -/
  order : ∃ fresh, h'.names c = h.names c ++ fresh ∧ ∀ n ∈ fresh, n ∈ vars

theorem Frame.refl (c : ContextId) (vars : List Text) (h : Heap) : Frame c vars h h :=
  ⟨rfl, fun _ _ => rfl, rfl, fun _ _ => rfl, [], by simp⟩

theorem Frame.set {vars : List Text} (hf : Frame c vars h h') (hc : c < h.contexts.size)
    (hn : n ∈ vars) (v : Value) : Frame c vars h (h'.setVariable c n v) := by
  have hc' : c < h'.contexts.size := hf.size ▸ hc
  obtain ⟨fresh, hnames, hfresh⟩ := hf.order
  refine ⟨(size_setVariable h' c n v).trans hf.size, fun d hd => ?_, ?_, fun k hk => ?_, ?_⟩
  · rw [setVariable, context_update_of_ne hd, hf.others d hd]
  · rw [sameLinks_setVariable h' c n v c, hf.links]
  · rw [get?_setVariable hc', if_neg, hf.same k hk]
    rintro ⟨-, rfl⟩
    exact hk hn
  · by_cases hown : n ∈ h'.names c
    · exact ⟨fresh, by rw [names_setVariable hc' fun _ => hown, hnames], hfresh⟩
    · refine ⟨fresh ++ [n], ?_, ?_⟩
      · rw [← List.append_assoc, ← hnames, names, setVariable, context_update hc']
        simp only [Context.names, Context.set, setIn_of_notMem hown, List.map_append]
        rfl
      · exact List.forall_mem_append.mpr ⟨hfresh, by simpa using hn⟩

/-- What one evaluation keeps, as a relation of a heap to itself. -/
theorem coupling_frame {vars : List Text} (reads : List Text) (hc : c < h.contexts.size) :
    Coupling c c (fun _ => True) reads vars fun h₁ h₂ => h₁ = h₂ ∧ Frame c vars h h₁ where
  lookup := by
    rintro h₁ _ ⟨rfl, -⟩ n -
    rfl
  holds := fun _ _ _ _ _ => Value.every_of_contains fun _ _ _ _ => trivial
  names := by
    rintro h₁ _ ⟨rfl, -⟩ d -
    rfl
  set := by
    rintro h₁ _ ⟨rfl, hf⟩ n hn v -
    exact ⟨rfl, hf.set hc hn v⟩

/-! ### What two evaluations have in common -/

/-- In the scopes of `c` and `c'` the names `reads` have the same values; these hold contexts of
the set only; and the contexts of the set have the same names, which stay as they are when a name
of `writes` is set in `c` and `c'`. -/
structure Agreement (c c' : ContextId) (S : ContextId → Prop) (reads writes : List Text)
    (h h' : Heap) : Prop where
  /-- A name that is read stands for the same in both scopes. -/
  lookup : ∀ n ∈ reads, h.lookup c n = h'.lookup c' n
  /-- What it stands for holds contexts of the set only. -/
  holds : ∀ n ∈ reads, Value.IfAny (Value.HoldsOnly S) (h.lookup c n)
  /-- The contexts of the set have the same names. -/
  names : ∀ d, S d → h.names d = h'.names d
  /-- Both contexts exist. -/
  there : c < h.contexts.size ∧ c' < h'.contexts.size
  /-- Setting a variable adds no name to the first context if it is in the set. -/
  own : S c → ∀ n ∈ writes, n ∈ h.names c
  /-- Nor to the second one. -/
  own' : S c' → ∀ n ∈ writes, n ∈ h'.names c'

/-- **Setting a variable on both sides keeps the agreement.** A context of the set keeps its names:
it is another one, or the name is there already. -/
theorem coupling_agreement (c c' : ContextId) (S : ContextId → Prop) (reads writes : List Text) :
    Coupling c c' S reads writes (Agreement c c' S reads writes) where
  lookup := fun hh => hh.lookup
  holds := fun hh => hh.holds
  names := fun hh => hh.names
  set := by
    intro h h' hh n hn v hv
    obtain ⟨hc, hc'⟩ := hh.there
    have hnames : ∀ d, S d → (h.setVariable c n v).names d = h.names d := fun d hd =>
      names_setVariable hc fun hdc => hh.own (hdc ▸ hd) n hn
    have hnames' : ∀ d, S d → (h'.setVariable c' n v).names d = h'.names d := fun d hd =>
      names_setVariable hc' fun hdc => hh.own' (hdc ▸ hd) n hn
    refine ⟨fun k hk => ?_, fun k hk => ?_, fun d hd => ?_, ?_, fun hd k hk => ?_,
      fun hd k hk => ?_⟩
    · rw [lookup_setVariable hc, lookup_setVariable hc', hh.lookup k hk]
    · rw [lookup_setVariable hc]
      split
      · rintro _ ⟨rfl⟩
        exact hv
      · exact hh.holds k hk
    · rw [hnames d hd, hnames' d hd, hh.names d hd]
    · simpa using hh.there
    · rw [hnames c hd]
      exact hh.own hd k hk
    · rw [hnames' c' hd]
      exact hh.own' hd k hk

end Heap

/-! ### The variables bound reading and writing -/

namespace Expr

/-- The evaluation of the expression in context `c` starts with values that hold context `d`:
a constant, or a variable that is mentioned. -/
def Handles (e : Expr) (h : Heap) (c d : ContextId) : Prop :=
  ∃ v : Value, v.Contains (.context d) ∧
    (v ∈ e.constants ∨ ∃ n ∈ e.variableNames, h.lookup c n = some v)

/-- The evaluation in context `c` cannot see whether variables of context `d` are new: it sets
none that `d` does not have, or it has nothing to do with `d`. -/
def Overlooks (e : Expr) (h : Heap) (c d : ContextId) : Prop :=
  (∀ n ∈ e.assigned, n ∈ h.names d) ∨ ¬ e.Handles h c d

/-- What evaluation in two contexts of a heap starts with. -/
theorem agreement_start {e : Expr} {h : Heap} {c c' : ContextId} (hc : c < h.contexts.size)
    (hc' : c' < h.contexts.size)
    (hlookup : ∀ n ∈ e.variableNames, h.lookup c n = h.lookup c' n) (hsee : e.Overlooks h c c)
    (hsee' : e.Overlooks h c c') :
    h.Agreement c c' (e.Handles h c) e.variableNames e.assigned h where
  lookup := hlookup
  holds := by
    intro n hn v hv
    refine Value.every_of_contains ?_
    rintro _ hw d rfl
    exact ⟨v, hw, .inr ⟨n, hn, hv⟩⟩
  names := fun _ _ => rfl
  there := ⟨hc, hc'⟩
  own := fun hhandles => hsee.resolve_right fun hnot => hnot hhandles
  own' := fun hhandles => hsee'.resolve_right fun hnot => hnot hhandles

theorem constants_holdOnly {e : Expr} {h : Heap} {c : ContextId} :
    ∀ v ∈ e.constants, v.HoldsOnly (e.Handles h c) := by
  intro v hv
  refine Value.every_of_contains ?_
  rintro _ hw d rfl
  exact ⟨v, hw, .inl hv⟩

/-- **The variables of an expression bound what it reads and writes**, if it calls plain functions
only.

1. Evaluated in a context, whether it succeeds or fails, it changes only this context, and there
   only variables that it mentions; none is removed, and new ones come last.
2. Evaluated in two contexts in which the names that it mentions have the same values, it gives
   the same value or the same error, and the names have the same values again. For each of the
   contexts, it must not be possible to see that it gets new variables.
3. The names differ. -/
theorem variables_bound (e : Expr) (hcalls : ∀ f ∈ e.calls, Text.lower f ∈ Builtin.plainNames)
    (env : Environment) (w : World) :
    (∀ c, c < w.heap.contexts.size → w.heap.Frame c e.variableNames
      ((e.eval builtins { env with context := c }).exec w).2.heap) ∧
    (∀ c c', c < w.heap.contexts.size → c' < w.heap.contexts.size →
      (∀ n ∈ e.variableNames, w.heap.lookup c n = w.heap.lookup c' n) →
      e.Overlooks w.heap c c → e.Overlooks w.heap c c' →
      let run := (e.eval builtins { env with context := c }).exec w
      let run' := (e.eval builtins { env with context := c' }).exec w
      run.1 = run'.1 ∧ ∀ n ∈ e.variableNames, run.2.heap.lookup c n = run'.2.heap.lookup c' n) ∧
    e.variableNames.Nodup := by
  have hmentions : ∀ n ∈ e.mentions, n ∈ e.variableNames := fun n => mem_variableNames.mpr
  refine ⟨fun c hc => ?_, fun c c' hc hc' hlookup hsee hsee' => ?_, nodup_eraseDups _⟩
  · have hsuits : Suits (fun _ => True) e.variableNames e.variableNames e.mentions e.assigned
        e.constants e.calls :=
      ⟨hmentions, fun n hn => hmentions n (mentions_of_assigned e hn),
        fun v _ => Value.every_of_contains fun _ _ _ _ => trivial, hcalls⟩
    have hrun := eval_coupled (Heap.coupling_frame e.variableNames hc) env e hsuits w w
      ⟨rfl, .refl c _ w.heap⟩
    exact hrun.2.1.2
  · have hsuits : Suits (e.Handles w.heap c) e.variableNames e.assigned e.mentions e.assigned
        e.constants e.calls :=
      ⟨hmentions, fun _ hn => hn, constants_holdOnly, hcalls⟩
    obtain ⟨hresult, hheap, -⟩ := eval_coupled (Heap.coupling_agreement c c' _ _ _) env e hsuits
      w w (agreement_start hc hc' hlookup hsee hsee')
    exact ⟨hresult, hheap.lookup⟩

end Expr

/-- Two contexts in which two names have the same values, with another variable in the second
one. -/
def World.twoScopes : World :=
  { heap := ((Heap.newContext {} [.var "x" (.int 0), .var "y" (.int 1)]).2.newContext
      [.var "z" (.int 2), .var "y" (.int 1), .var "x" (.int 0)]).2 }

/-- Sets a variable to the successor of another one, and gives both. -/
def Expr.successor : Expr :=
  .sequence [.assign "x" (.binary .plus (.name "y") (.const (some (.int 1)))),
    .call "array" [.name "x", .name "y"]]

/-- The two evaluations give the same pair, and the second one leaves the other variable alone. -/
theorem Expr.successor_bound :
    ((Expr.successor.eval builtins { context := 0 }).exec .twoScopes).1 =
        ((Expr.successor.eval builtins { context := 1 }).exec .twoScopes).1 ∧
      (((Expr.successor.eval builtins { context := 1 }).exec .twoScopes).2.heap.context 1).get? "z"
        = some (.int 2) := by
  obtain ⟨hframe, hsame, -⟩ :=
    variables_bound .successor (by decide) { context := 0 } .twoScopes
  have hlookup : ∀ n ∈ Expr.successor.variableNames,
      World.twoScopes.heap.lookup 0 n = World.twoScopes.heap.lookup 1 n := by
    have hnames : Expr.successor.variableNames = ["x", "y"] := by decide
    rw [hnames]
    exact List.forall_mem_cons.mpr ⟨rfl, List.forall_mem_cons.mpr ⟨rfl, fun _ hn => by cases hn⟩⟩
  refine ⟨(hsame 0 1 (by decide) (by decide) hlookup (.inl (by decide)) (.inl (by decide))).1, ?_⟩
  exact (hframe 1 (by decide)).same "z" (by decide)

/-- Two contexts with a variable that holds the first one. -/
def World.twoHolders : World :=
  { heap := (((Heap.newContext {} []).2.newContext []).2.setVariable 0 "y" (.context 0)).setVariable
      1 "y" (.context 0) }

/-- Sets a variable, and gives the length of another one. -/
def Expr.setAndCount : Expr :=
  .sequence [.assign "x" (.const (some (.int 1))), .call "length" [.name "y"]]

/-- All names have the same values in both contexts, but the length is that of the first one,
which has got a variable in one evaluation only. -/
theorem Expr.setAndCount_differs :
    (∀ f ∈ Expr.setAndCount.calls, Text.lower f ∈ Builtin.plainNames) ∧
    (∀ n ∈ Expr.setAndCount.variableNames,
      World.twoHolders.heap.lookup 0 n = World.twoHolders.heap.lookup 1 n) ∧
    ((Expr.setAndCount.eval builtins { context := 0 }).exec .twoHolders).1
      = .ok (some (.int 2)) ∧
    ((Expr.setAndCount.eval builtins { context := 1 }).exec .twoHolders).1
      = .ok (some (.int 1)) := by
  refine ⟨by decide, ?_, rfl, rfl⟩
  have hnames : Expr.setAndCount.variableNames = ["x", "y"] := by decide
  rw [hnames]
  exact List.forall_mem_cons.mpr ⟨rfl, List.forall_mem_cons.mpr ⟨rfl, fun _ hn => by cases hn⟩⟩

end Reckoner
