import Mathlib.Tactic
import Reckoner.Yaml.Node
import Reckoner.Proofs.Lookup

/-!
# Anchors and aliases of documents

Which nodes an alias can stand for. An anchor has its number from before the parts of its node are
read, and an alias gets the number of the last anchor of its name. So when a node is finished, its
aliases stand for nodes that were finished before it, for itself, or for nodes around it that are
still being read. In the latter case the node around it will hold this alias as well: it will hold
an alias of itself.

This is an invariant of all the functions that read nodes. It is kept by the two steps in which a
node with an anchor is begun and finished, and by meeting an alias; nothing else has to do with
anchors. A document that has been read is therefore a graph in which the only way back is through
nodes that hold aliases of themselves.
-/

namespace Reckoner

namespace Yaml

mutual

/-- The anchors that the aliases in a node stand for, in the order of the text. -/
def Node.aliases : Node → List AnchorId
  | .scalar .. => []
  | .sequence items => Node.aliasesOf items
  | .mapping _ entries => Node.aliasesIn entries
  | .alias _ a => [a]

/-- The anchors that the aliases in nodes stand for. -/
def Node.aliasesOf : List Node → List AnchorId
  | [] => []
  | n :: rest => n.aliases ++ aliasesOf rest

/-- The anchors that the aliases in entries stand for. -/
def Node.aliasesIn : List (Node × Node) → List AnchorId
  | [] => []
  | (k, v) :: rest => k.aliases ++ v.aliases ++ aliasesIn rest

end

/-- The numbers of anchors. -/
abbrev numbers (anchors : List (AnchorId × Node)) : List AnchorId := anchors.map (·.1)

/-! ### Nodes in the order in which they are finished -/

/-- Of nodes with anchors, the last finished one first: every alias in one of them stands for one
that was finished before it, or for an anchor with the property `P`. -/
def Settled (P : AnchorId → Prop) : List (AnchorId × Node) → Prop
  | [] => True
  | (_, n) :: older => (∀ c ∈ n.aliases, c ∈ numbers older ∨ P c) ∧ Settled P older

variable {P Q : AnchorId → Prop} {anchors : List (AnchorId × Node)}

theorem Settled.bound (h : Settled P anchors) :
    ∀ p ∈ anchors, ∀ c ∈ p.2.aliases, c ∈ numbers anchors ∨ P c := by
  induction anchors with
  | nil => simp
  | cons q older ih =>
    intro p hp c hc
    rcases List.mem_cons.1 hp with rfl | hp
    · exact (h.1 c hc).imp_left (List.mem_cons_of_mem _)
    · exact (ih h.2 p hp c hc).imp_left (List.mem_cons_of_mem _)

theorem Settled.mono (h : Settled P anchors)
    (hPQ : ∀ p ∈ anchors, ∀ c ∈ p.2.aliases, P c → Q c) : Settled Q anchors := by
  induction anchors with
  | nil => trivial
  | cons q older ih =>
    refine ⟨fun c hc => (h.1 c hc).imp_right (hPQ q (by simp) c hc), ih h.2 fun p hp => ?_⟩
    exact hPQ p (List.mem_cons_of_mem _ hp)

/-- The node of an anchor holds an alias of this very anchor. -/
def HoldsItself (anchors : List (AnchorId × Node)) (a : AnchorId) : Prop :=
  ∃ n, (a, n) ∈ anchors ∧ a ∈ n.aliases

/-! ### Building nodes -/

/-- What holds while nodes are read, inside of the nodes with the anchors `opened`: the anchors
`before` were finished before the innermost of these nodes was begun, and aliases of `met` have been
met since then. -/
structure Linked (opened : List AnchorId) (before : List (AnchorId × Node)) (met : List AnchorId)
    (b : Build) : Prop where
  /-- Finished anchors have different numbers. -/
  nodup : (numbers b.anchors).Nodup
  /-- Numbers are given out in order, so those of finished anchors are used up. -/
  below : ∀ a ∈ numbers b.anchors, a < b.count
  /-- So are those of opened ones. -/
  opened_below : ∀ a ∈ opened, a < b.count
  /-- An anchor is finished only when its node is. -/
  apart : ∀ a ∈ opened, a ∉ numbers b.anchors
  /-- Every name in force stands for an anchor that is opened or finished. -/
  named : ∀ p ∈ b.names, p.2 ∈ opened ∨ p.2 ∈ numbers b.anchors
  /-- So does every alias that has been met. -/
  met_known : ∀ c ∈ met, c ∈ opened ∨ c ∈ numbers b.anchors
  /-- A finished node holds aliases of nodes that were finished before it, apart from those of
  opened nodes and those that come back to themselves. -/
  settled : Settled (fun c => c ∈ opened ∨ HoldsItself b.anchors c) b.anchors
  /-- What has been finished since then is a part of what is being read, and so are the aliases of
  opened nodes in it. -/
  grown : ∃ new, b.anchors = new ++ before ∧ ∀ p ∈ new, ∀ c ∈ p.2.aliases, c ∈ opened → c ∈ met

variable {opened met : List AnchorId} {before : List (AnchorId × Node)} {b b' : Build}

/-- Tokens and handles do not matter. -/
theorem Linked.of_eq (h : Linked opened before met b) (hnames : b'.names = b.names)
    (hanchors : b'.anchors = b.anchors) (hcount : b'.count = b.count) :
    Linked opened before met b' := by
  obtain ⟨tokens, fault, handles, names, anchors, count⟩ := b'
  obtain rfl : names = b.names := hnames
  obtain rfl : anchors = b.anchors := hanchors
  obtain rfl : count = b.count := hcount
  exact ⟨h.nodup, h.below, h.opened_below, h.apart, h.named, h.met_known, h.settled, h.grown⟩

/-- The aliases in finished nodes are of anchors that there have been. -/
theorem Linked.alias_below (h : Linked opened before met b) {p : AnchorId × Node}
    (hp : p ∈ b.anchors) {c : AnchorId} (hc : c ∈ p.2.aliases) : c < b.count := by
  rcases h.settled.bound p hp c hc with hc | hc | ⟨n, hn, -⟩
  · exact h.below c hc
  · exact h.opened_below c hc
  · exact h.below c (List.mem_map_of_mem (f := (·.1)) hn)

/-- An alias is met. -/
theorem Linked.meet (h : Linked opened before met b) {a : AnchorId}
    (ha : a ∈ opened ∨ a ∈ numbers b.anchors) : Linked opened before (met ++ [a]) b where
  nodup := h.nodup
  below := h.below
  opened_below := h.opened_below
  apart := h.apart
  named := h.named
  met_known c hc := by
    rcases List.mem_append.1 hc with hc | hc
    · exact h.met_known c hc
    · obtain rfl := List.mem_singleton.1 hc
      exact ha
  settled := h.settled
  grown := by
    obtain ⟨new, hnew, hfree⟩ := h.grown
    exact ⟨new, hnew, fun p hp c hc hopen => List.mem_append_left _ (hfree p hp c hc hopen)⟩

/-- A node with an anchor is begun. -/
theorem Linked.open (h : Linked opened before met b) (name : Text) :
    Linked (b.count :: opened) b.anchors []
      { b with names := (name, b.count) :: b.names, count := b.count + 1 } where
  nodup := h.nodup
  below a ha := Nat.lt_succ_of_lt (h.below a ha)
  opened_below a ha := by
    rcases List.mem_cons.1 ha with rfl | ha
    · exact Nat.lt_succ_self _
    · exact Nat.lt_succ_of_lt (h.opened_below a ha)
  apart a ha hmem := by
    rcases List.mem_cons.1 ha with rfl | ha
    · exact Nat.lt_irrefl _ (h.below _ hmem)
    · exact h.apart a ha hmem
  named p hp := by
    rcases List.mem_cons.1 hp with rfl | hp
    · exact .inl List.mem_cons_self
    · exact (h.named p hp).imp_left (List.mem_cons_of_mem _)
  met_known := by simp
  settled := h.settled.mono fun _ _ _ _ hc => hc.imp_left (List.mem_cons_of_mem _)
  grown := ⟨[], rfl, by simp⟩

/-- A node with an anchor is finished. What holds an alias of its anchor was finished inside. -/
theorem Linked.close (h : Linked opened before met b) {n : Node}
    (h' : Linked (b.count :: opened) b.anchors n.aliases b') :
    Linked opened before (met ++ n.aliases)
      { b' with anchors := (b.count, n) :: b'.anchors } := by
  obtain ⟨new, hnew, hfree⟩ := h.grown
  obtain ⟨new', hnew', hfree'⟩ := h'.grown
  have hopened : ∀ a ∈ opened, a ≠ b.count := fun a ha => (h.opened_below a ha).ne
  have hself : b.count ∈ n.aliases → HoldsItself ((b.count, n) :: b'.anchors) b.count :=
    fun hn => ⟨n, List.mem_cons_self, hn⟩
  have hbefore : ∀ {a}, a ∈ numbers b.anchors → a ∈ numbers b'.anchors := fun ha => by
    simp only [numbers, hnew', List.map_append, List.mem_append]
    exact .inr ha
  constructor
  case nodup => exact List.nodup_cons.2 ⟨h'.apart _ List.mem_cons_self, h'.nodup⟩
  case below =>
    intro a ha
    rcases List.mem_cons.1 ha with rfl | ha
    · exact h'.opened_below _ List.mem_cons_self
    · exact h'.below a ha
  case opened_below => exact fun a ha => h'.opened_below a (List.mem_cons_of_mem _ ha)
  case apart =>
    intro a ha hmem
    rcases List.mem_cons.1 hmem with heq | hmem
    · exact hopened a ha heq
    · exact h'.apart a (List.mem_cons_of_mem _ ha) hmem
  case named =>
    intro p hp
    simp only [numbers, List.map_cons, List.mem_cons]
    rcases h'.named p hp with hp | hp
    · exact (List.mem_cons.1 hp).elim (fun hp => .inr (.inl hp)) .inl
    · exact .inr (.inr hp)
  case met_known =>
    intro c hc
    simp only [numbers, List.map_cons, List.mem_cons]
    rcases List.mem_append.1 hc with hc | hc
    · exact (h.met_known c hc).imp_right fun hc => .inr (hbefore hc)
    · rcases h'.met_known c hc with hc | hc
      · exact (List.mem_cons.1 hc).elim (fun hc => .inr (.inl hc)) .inl
      · exact .inr (.inr hc)
  case settled =>
    refine ⟨fun c hc => ?_, h'.settled.mono fun p hp c hc hlate => ?_⟩
    · rcases h'.met_known c hc with hopen | hknown
      · rcases List.mem_cons.1 hopen with rfl | hopen
        · exact .inr (.inr (hself hc))
        · exact .inr (.inl hopen)
      · exact .inl hknown
    · rcases hlate with hopen | ⟨m, hm, hself⟩
      · rcases List.mem_cons.1 hopen with rfl | hopen
        · have hp : p ∈ new' ∨ p ∈ b.anchors := List.mem_append.1 (hnew' ▸ hp)
          rcases hp with hp | hp
          · exact .inr (hself (hfree' p hp _ hc List.mem_cons_self))
          · exact absurd (h.alias_below hp hc) (Nat.lt_irrefl _)
        · exact .inl hopen
      · exact .inr ⟨m, List.mem_cons_of_mem _ hm, hself⟩
  case grown =>
    refine ⟨(b.count, n) :: (new' ++ new), by simp [hnew', hnew], fun p hp c hc hopen => ?_⟩
    rcases List.mem_cons.1 hp with rfl | hp
    · exact List.mem_append_right _ hc
    rcases List.mem_append.1 hp with hp | hp
    · exact List.mem_append_right _ (hfree' p hp c hc (List.mem_cons_of_mem _ hopen))
    · exact List.mem_append_left _ (hfree p hp c hc hopen)

namespace Building

variable {α β : Type} {p : Building α}

/-- Wherever the computation is run after aliases of `met` have been met, the invariant is kept, and
afterwards it is those of `post` that have been met. -/
def Meets (met : List AnchorId) (p : Building α) (post : α → List AnchorId) : Prop :=
  ∀ ⦃opened before b x b'⦄, Linked opened before met b → p.run b = .ok (x, b') →
    Linked opened before (post x) b'

/-- The computation has nothing to do with anchors. -/
def Still (p : Building α) : Prop := ∀ met, Meets met p fun _ => met

section

variable {post : α → List AnchorId}

theorem meets_pure {x : α} (h : post x = met) : Meets met (pure x) post := by
  rintro _ _ _ _ _ hl ⟨⟩
  rwa [h]

theorem ok_of_run_bind {f : α → Building β} {b b'' : Build} {y : β}
    (h : (p >>= f).run b = .ok (y, b'')) :
    ∃ x b', p.run b = .ok (x, b') ∧ (f x).run b' = .ok (y, b'') := by
  rw [StateT.run_bind] at h
  cases hout : p.run b with
  | error e => rw [hout] at h; cases h
  | ok out =>
    rw [hout] at h
    exact ⟨out.1, out.2, rfl, h⟩

theorem Meets.bind {mid : α → List AnchorId} {f : α → Building β} {post : β → List AnchorId}
    (hp : Meets met p mid) (hf : ∀ x, Meets (mid x) (f x) post) : Meets met (p >>= f) post := by
  intro opened before b y b'' hl hrun
  obtain ⟨x, b', hx, hy⟩ := ok_of_run_bind hrun
  exact hf x (hp hl hx) hy

theorem Still.bind {f : α → Building β} {post : β → List AnchorId} (hp : Still p)
    (hf : ∀ x, Meets met (f x) post) : Meets met (p >>= f) post := (hp met).bind hf

theorem still_pure (x : α) : Still (pure x : Building α) := fun _ => meets_pure rfl

theorem still_of_eq (h : ∀ b x b', p.run b = .ok (x, b') →
    b'.names = b.names ∧ b'.anchors = b.anchors ∧ b'.count = b.count) : Still p := by
  intro met opened before b x b' hl hrun
  obtain ⟨hnames, hanchors, hcount⟩ := h b x b' hrun
  exact hl.of_eq hnames hanchors hcount

theorem still_peek : Still peek := still_of_eq fun b x b' hrun => by
  obtain ⟨tokens, fault, handles, names, anchors, count⟩ := b
  cases tokens with
  | nil => cases hrun
  | cons t rest =>
    cases hrun
    exact ⟨rfl, rfl, rfl⟩

theorem still_drop : Still drop := still_of_eq fun b x b' hrun => by
  cases hrun
  exact ⟨rfl, rfl, rfl⟩

theorem still_get : Still (get : Building Build) := still_of_eq fun b x b' hrun => by
  cases hrun
  exact ⟨rfl, rfl, rfl⟩

theorem still_map {f : α → β} (hp : Still p) : Still (f <$> p) := fun met => by
  rw [map_eq_pure_bind]
  exact hp.bind fun _ => still_pure _ met

theorem meets_fail (e : Problem) : Meets met (fail e) post :=
  still_peek.bind fun _ _ _ _ _ _ _ hrun => nomatch hrun

theorem meets_fail_bind (e : Problem) (f : β → Building α) : Meets met (fail e >>= f) post := by
  unfold fail
  rw [bind_assoc]
  exact still_peek.bind fun _ _ _ _ _ _ _ hrun => nomatch hrun

/-! ### Properties of nodes -/

theorem still_expandTag (handle suffix : List Char) : Still (expandTag handle suffix) := by
  intro met
  unfold expandTag
  split
  · exact still_pure _ met
  · refine still_get.bind fun b => ?_
    split
    · split
      · exact meets_fail _
      · exact still_pure _ met
    · exact meets_fail _

theorem still_anchor? : Still anchor? := fun met => by
  refine still_peek.bind fun t => ?_
  split
  · exact still_drop.bind fun _ => still_pure _ met
  · exact still_pure _ met

theorem still_tag? : Still tag? := fun met => by
  refine still_peek.bind fun t => ?_
  split
  · exact still_drop.bind fun _ => still_pure _ met
  · exact still_pure _ met

theorem still_properties : Still properties := fun met => by
  unfold properties
  refine still_anchor?.bind fun first => still_tag?.bind fun tag => ?_
  extract_lets rest
  have hrest (anchor : Option Text) : Meets met (rest anchor) fun _ => met := by
    dsimp only [rest]
    split
    · exact (still_map (still_expandTag _ _)).bind fun _ => still_pure _ met
    · exact still_pure _ met
  split
  · exact hrest first
  split
  · exact still_anchor?.bind hrest
  · exact hrest none

/-! ### Reading nodes -/

/-- A node is read, and the aliases in it are met. -/
abbrev ReadsNode (p : Building Node) : Prop := ∀ met, Meets met p fun n => met ++ n.aliases

/-- Nodes are read. -/
abbrev ReadsNodes (p : Building (List Node)) : Prop :=
  ∀ met, Meets met p fun items => met ++ Node.aliasesOf items

/-- A key and its value are read. -/
abbrev ReadsEntry (p : Building (Node × Node)) : Prop :=
  ∀ met, Meets met p fun entry => met ++ entry.1.aliases ++ entry.2.aliases

/-- Entries are read. -/
abbrev ReadsEntries (p : Building (List (Node × Node))) : Prop :=
  ∀ met, Meets met p fun entries => met ++ Node.aliasesIn entries

/-- A node with an anchor is begun and finished. -/
theorem readsNode_finish {anchor : Option Text} {p : Building Node} (hp : ReadsNode p) :
    ReadsNode (finish anchor p) := by
  intro met opened before b n b' hl hrun
  cases anchor with
  | none => exact hp met hl hrun
  | some name =>
    dsimp only [finish] at hrun
    obtain ⟨id, b₁, hid, hrest⟩ := ok_of_run_bind hrun
    obtain ⟨m, b₂, hm, hend⟩ := ok_of_run_bind hrest
    cases hid
    cases hend
    exact hl.close (hp [] (hl.open name) hm)

theorem readsNode_alias (name : Text) : ReadsNode (do
    match (← get).names.lookup name with
    | some id => drop; return .alias name id
    | none => fail .unknownAnchor) := by
  intro met opened before b n b' hl hrun
  obtain ⟨b₁, b₂, hb, hrun⟩ := ok_of_run_bind hrun
  cases hb
  cases ha : b.names.lookup name with
  | none =>
    simp only [ha] at hrun
    have hfail : Meets met (fail .unknownAnchor) fun n : Node => met ++ n.aliases := meets_fail _
    exact hfail hl hrun
  | some a =>
    simp only [ha] at hrun
    cases hrun
    exact (hl.meet (hl.named (name, a) (mem_of_lookup ha))).of_eq rfl rfl rfl

theorem readsNode_empty (line : Nat) : ReadsNode (pure (emptyScalar line)) := fun met =>
  meets_pure (List.append_nil met)

/-- A node is read, and then the others. -/
theorem ReadsNode.cons {p : Building Node} {q : Building (List Node)} (hp : ReadsNode p)
    (hq : ReadsNodes q) : ReadsNodes (do return (← p) :: (← q)) := fun met => by
  refine (hp met).bind fun n => (hq _).bind fun rest => meets_pure ?_
  simp [Node.aliasesOf]

/-- The key of an entry has been read; its value is read, and then the other entries. -/
theorem ReadsNode.entries {p : Building Node} {q : Building (List (Node × Node))}
    (hp : ReadsNode p) (hq : ReadsEntries q) (met : List AnchorId) (key : Node) :
    Meets (met ++ key.aliases) (do return (key, ← p) :: (← q))
      fun entries => met ++ Node.aliasesIn entries := by
  refine (hp _).bind fun value => (hq _).bind fun rest => meets_pure ?_
  simp [Node.aliasesIn]

/-- What has been said of reading holds for everything that is read to a depth of `fuel`. -/
structure ReadsAll (fuel : Nat) : Prop where
  node : ∀ block unindented, ReadsNode (Building.node fuel block unindented)
  /-- The items of a block sequence. -/
  blockItems : ReadsNodes (Building.blockItems fuel)
  /-- The items of a sequence that stands in the column of its key. -/
  unindentedItems : ReadsNodes (Building.unindentedItems fuel)
  /-- The entries of a block mapping. -/
  blockEntries : ReadsEntries (Building.blockEntries fuel)
  /-- The items between brackets. -/
  flowItems : ∀ first, ReadsNodes (Building.flowItems fuel first)
  /-- A single entry between brackets. -/
  flowPair : ReadsEntry (Building.flowPair fuel)
  /-- The value of an entry between brackets or braces. -/
  flowValue : ∀ closing, ReadsNode (Building.flowValue fuel closing)
  /-- The entries between braces. -/
  flowEntries : ∀ first, ReadsEntries (Building.flowEntries fuel first)

variable {fuel : Nat}

theorem ReadsAll.node_succ (h : ReadsAll fuel) (block unindented : Bool) :
    ReadsNode (Building.node (fuel + 1) block unindented) := fun met => by
  unfold Building.node
  refine still_peek.bind fun start => ?_
  split
  · exact readsNode_alias _ met
  · refine still_properties.bind fun props => readsNode_finish (fun met => ?_) met
    refine still_peek.bind fun t => ?_
    have hscalar (line tag plain text) : Meets met (pure (Node.scalar line tag plain text))
        fun n => met ++ n.aliases := meets_pure (List.append_nil met)
    split
    · exact still_drop.bind fun _ => hscalar ..
    · exact still_drop.bind fun _ => (h.flowItems true met).bind fun _ => meets_pure rfl
    · exact still_drop.bind fun _ => (h.flowEntries true met).bind fun _ => meets_pure rfl
    split
    · exact (h.unindentedItems met).bind fun _ => meets_pure rfl
    split
    · exact still_drop.bind fun _ => (h.blockItems met).bind fun _ => meets_pure rfl
    split
    · exact still_drop.bind fun _ => (h.blockEntries met).bind fun _ => meets_pure rfl
    split
    · exact hscalar ..
    · exact meets_fail _

theorem ReadsAll.blockItems_succ (h : ReadsAll fuel) :
    ReadsNodes (Building.blockItems (fuel + 1)) := fun met => by
  unfold Building.blockItems
  refine still_peek.bind fun t => ?_
  split
  · refine still_drop.bind fun _ => still_peek.bind fun next => ?_
    dsimp only
    split
    · exact (readsNode_empty _).cons h.blockItems met
    · exact (h.node true false).cons h.blockItems met
  · exact still_drop.bind fun _ => meets_pure (List.append_nil met)
  · exact meets_fail _

theorem ReadsAll.unindentedItems_succ (h : ReadsAll fuel) :
    ReadsNodes (Building.unindentedItems (fuel + 1)) := fun met => by
  unfold Building.unindentedItems
  refine still_peek.bind fun t => ?_
  split
  · refine still_drop.bind fun _ => still_peek.bind fun next => ?_
    dsimp only
    split
    · exact (readsNode_empty _).cons h.unindentedItems met
    · exact (h.node true false).cons h.unindentedItems met
  · exact meets_pure (List.append_nil met)

theorem ReadsAll.blockEntries_succ (h : ReadsAll fuel) :
    ReadsEntries (Building.blockEntries (fuel + 1)) := fun met => by
  unfold Building.blockEntries
  refine still_peek.bind fun t => ?_
  split
  · refine still_drop.bind fun _ => still_peek.bind fun next => ?_
    extract_lets rest
    have hrest (key : Node) : Meets (met ++ key.aliases) (rest key)
        fun entries => met ++ Node.aliasesIn entries := by
      have hempty (line : Nat) := (readsNode_empty line).entries h.blockEntries met key
      refine still_peek.bind fun v => ?_
      dsimp only
      split
      · refine still_drop.bind fun _ => still_peek.bind fun next => ?_
        split
        · exact hempty _
        · exact (h.node true true).entries h.blockEntries met key
      · exact hempty _
    split
    · exact (readsNode_empty _ met).bind hrest
    · exact (h.node true true met).bind hrest
  · exact still_drop.bind fun _ => meets_pure (List.append_nil met)
  · exact meets_fail _

/-- Between brackets, what follows the separator of items. -/
theorem still_separator {f : Unit → Building α} {post : α → List AnchorId} {first : Bool}
    {separator : TokenKind} {e : Problem} (hf : ∀ u, Meets met (f u) post) :
    Meets met (if !first then do
        let t ← peek
        if t.kind ≠ separator then (fail e : Building Unit) >>= fun _ => drop >>= f
        else drop >>= f
      else f ()) post := by
  split
  · refine still_peek.bind fun t => ?_
    split
    · exact meets_fail_bind ..
    · exact still_drop.bind hf
  · exact hf ()

theorem ReadsAll.flowItems_succ (h : ReadsAll fuel) (first : Bool) :
    ReadsNodes (Building.flowItems (fuel + 1) first) := fun met => by
  unfold Building.flowItems
  refine still_peek.bind fun t => ?_
  have hnone : Meets met (drop >>= fun _ => pure []) fun items => met ++ Node.aliasesOf items :=
    still_drop.bind fun _ => meets_pure (List.append_nil met)
  split
  · exact hnone
  refine still_separator fun _ => still_peek.bind fun t => ?_
  split
  · exact hnone
  · refine still_drop.bind fun _ => (h.flowPair met).bind fun entry => ?_
    refine (h.flowItems false _).bind fun rest => meets_pure ?_
    simp [Node.aliasesOf, Node.aliasesIn, Node.aliases]
  · exact (h.node false false).cons (h.flowItems false) met

theorem ReadsAll.flowPair_succ (h : ReadsAll fuel) :
    ReadsEntry (Building.flowPair (fuel + 1)) := fun met => by
  unfold Building.flowPair
  refine still_peek.bind fun k => ?_
  have hvalue (key : Node) : Meets (met ++ key.aliases)
      (Building.flowValue fuel .flowSequenceEnd >>= fun value => pure (key, value))
      fun entry => met ++ entry.1.aliases ++ entry.2.aliases :=
    (h.flowValue _ _).bind fun value => meets_pure rfl
  dsimp only
  split
  · exact still_drop.bind fun _ => (readsNode_empty _ met).bind hvalue
  · exact (h.node false false met).bind hvalue

theorem ReadsAll.flowValue_succ (h : ReadsAll fuel) (closing : TokenKind) :
    ReadsNode (Building.flowValue (fuel + 1) closing) := fun met => by
  unfold Building.flowValue
  refine still_peek.bind fun v => ?_
  split
  · exact readsNode_empty _ met
  · refine still_drop.bind fun _ => still_peek.bind fun t => ?_
    split
    · exact readsNode_empty _ met
    · exact h.node false false met

theorem ReadsAll.flowEntries_succ (h : ReadsAll fuel) (first : Bool) :
    ReadsEntries (Building.flowEntries (fuel + 1) first) := fun met => by
  unfold Building.flowEntries
  refine still_peek.bind fun t => ?_
  have hnone : Meets met (drop >>= fun _ => pure [])
      fun entries => met ++ Node.aliasesIn entries :=
    still_drop.bind fun _ => meets_pure (List.append_nil met)
  split
  · exact hnone
  refine still_separator fun _ => still_peek.bind fun t => ?_
  split
  · exact hnone
  · refine still_drop.bind fun _ => still_peek.bind fun k => ?_
    have hentries := (h.flowValue .flowMappingEnd).entries (h.flowEntries false) met
    dsimp only
    split
    · exact (readsNode_empty _ met).bind hentries
    · exact (h.node false false met).bind hentries
  · refine (h.node false false met).bind fun key => still_peek.bind fun t => ?_
    exact (readsNode_empty t.line).entries (h.flowEntries false) met key

theorem readsAll (fuel : Nat) : ReadsAll fuel := by
  induction fuel with
  | zero =>
    exact ⟨fun _ _ _ => meets_fail _, fun _ => meets_fail _, fun _ => meets_fail _,
      fun _ => meets_fail _, fun _ _ => meets_fail _, fun _ => meets_fail _,
      fun _ _ => meets_fail _, fun _ _ => meets_fail _⟩
  | succ fuel ih =>
    exact ⟨ih.node_succ, ih.blockItems_succ, ih.unindentedItems_succ, ih.blockEntries_succ,
      ih.flowItems_succ, ih.flowPair_succ, ih.flowValue_succ, ih.flowEntries_succ⟩

end

/-! ### Documents -/

theorem still_directives (fuel : Nat) (versioned : Bool) : Still (directives fuel versioned) := by
  induction fuel generalizing versioned with
  | zero => exact still_pure ()
  | succ fuel ih =>
    intro met
    unfold directives
    refine still_peek.bind fun t => ?_
    split
    · dsimp only
      split
      · exact meets_fail_bind ..
      · exact still_drop.bind fun _ => ih true met
    · intro opened before b x b' hl hrun
      obtain ⟨b₁, b₂, hget, hrest⟩ := ok_of_run_bind hrun
      cases hget
      dsimp only at hrest
      split at hrest
      · have hfail (f : Unit → Building Unit) : Meets met (fail .badDirective >>= f) fun _ => met :=
          meets_fail_bind ..
        exact hfail _ hl hrest
      · obtain ⟨u, b₃, hset, hend⟩ := ok_of_run_bind hrest
        cases hset
        refine (still_drop.bind fun _ => ih versioned met) ?_ hend
        exact hl.of_eq rfl rfl rfl
    · exact still_pure () met

theorem meets_rootNode (fuel : Nat) :
    Meets [] (rootNode fuel) fun root => (root.map Node.aliases).getD [] := by
  have hnode : Meets [] (node fuel true false >>= fun n => pure (some n))
      fun root => (root.map Node.aliases).getD [] :=
    ((readsAll fuel).node true false []).bind fun n => meets_pure rfl
  have hdocument : Meets [] (do
      directives fuel false
      if (← peek).kind ≠ .documentStart then fail (.expected "<document start>")
      drop
      let t ← peek
      if isDocumentMark t.kind then return some (emptyScalar t.line)
      else return some (← node fuel true false))
      fun root => (root.map Node.aliases).getD [] := by
    refine (still_directives fuel false).bind fun _ => still_peek.bind fun t => ?_
    dsimp only
    split
    · exact meets_fail_bind ..
    · refine still_drop.bind fun _ => still_peek.bind fun t => ?_
      split
      · exact meets_pure rfl
      · exact hnode
  unfold rootNode
  refine still_drop.bind fun _ => still_peek.bind fun t => ?_
  split
  · exact meets_pure rfl
  · exact hdocument
  · exact hdocument
  · exact hdocument
  · exact hnode

end Building

/-- What holds of every document that has been read: anchors have different numbers, all aliases
stand for anchors, and a node with an anchor holds only aliases of those that were finished before
and of those that hold aliases of themselves. -/
structure Document.Resolved (d : Document) : Prop where
  /-- Anchors have different numbers. -/
  nodup : (numbers d.anchors).Nodup
  /-- All aliases of the document stand for anchors. -/
  root : ∀ c ∈ d.root.aliases, c ∈ numbers d.anchors
  /-- A node with an anchor holds aliases of those finished before it, and of those that hold
  aliases of themselves. -/
  settled : Settled (HoldsItself d.anchors) d.anchors

/-- All aliases in nodes with anchors stand for anchors. -/
theorem Document.Resolved.known {d : Document} (h : d.Resolved) {p : AnchorId × Node}
    (hp : p ∈ d.anchors) : ∀ c ∈ p.2.aliases, c ∈ numbers d.anchors := fun c hc => by
  rcases h.settled.bound p hp c hc with hc | ⟨n, hn, -⟩
  · exact hc
  · exact List.mem_map_of_mem (f := (·.1)) hn

theorem Linked.document {root : Node} (h : Linked [] [] root.aliases b) :
    Document.Resolved ⟨root, b.anchors⟩ where
  nodup := h.nodup
  root c hc := (h.met_known c hc).resolve_left List.not_mem_nil
  settled := h.settled.mono fun _ _ _ _ hc => hc.resolve_left List.not_mem_nil

open Building in
theorem resolved_of_document {fuel : Nat} {d : Document} (hb : Linked [] [] [] b)
    (h : (document fuel).run b = .ok (some d, b')) : d.Resolved := by
  unfold document at h
  obtain ⟨root, b₁, hroot, hrest⟩ := ok_of_run_bind h
  have hroot := meets_rootNode fuel hb hroot
  cases root with
  | none => cases hrest
  | some root =>
    obtain ⟨t, b₂, hpeek, hend⟩ := ok_of_run_bind hrest
    have hpeek := still_peek _ hroot hpeek
    cases hend
    exact hpeek.document

/-- A document is built from its tokens. -/
theorem Document.read_eq {t : Text} {cs : List Char} {tokens : List Token}
    (hchars : characters t = .ok cs) (htokens : (Tokens.ofChars cs).list = tokens) :
    Document.read t =
      ((Building.document (2 * tokens.length + 4)).run
        { tokens, fault := (Tokens.ofChars cs).fault.getD ⟨1, .expected "more input"⟩ }).map
        (·.1) := by
  subst htokens
  rw [Document.read, hchars]

theorem Document.resolved_of_read {t : Text} {d : Document} (h : Document.read t = .ok (some d)) :
    d.Resolved := by
  cases hchars : characters t with
  | error p =>
    rw [Document.read, hchars] at h
    cases h
  | ok cs =>
    rw [Document.read_eq hchars rfl] at h
    generalize hrun : StateT.run _ _ = out at h
    cases out with
    | error f => cases h
    | ok out =>
      obtain ⟨_, b'⟩ := out
      cases h
      refine resolved_of_document ?_ hrun
      constructor <;> simp [Settled]

end Yaml

end Reckoner
