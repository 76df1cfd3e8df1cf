import Mathlib.Tactic
import Reckoner.Proofs.Anchors
import Reckoner.Proofs.Decoding

/-!
# Literals that end

Decoding a sequence decodes its items, up to the first one that has no value, and decoding an alias
decodes the node that it stands for. A literal has finitely many nodes, so decoding it ends unless
it comes to a node and from there to the same node again.

That can happen: in `&a [*a]` the alias stands for the sequence that it is an item of. It takes a
node that holds an alias of its own anchor. Without such nodes, the aliases in the node of an
anchor stand for nodes that were finished before it, and decoding a literal always ends.
-/

namespace Reckoner

namespace Literal

open Yaml (Node Document Tokens AnchorId HoldsItself Settled characters numbers)
open Relation (ReflTransGen TransGen)

variable {d : Document}

/-! ### When decoding does not end -/

/-- Decoding the one node decodes the other: an item behind items that have values, or the node
that an alias stands for. -/
inductive Calls (d : Document) : Node → Node → Prop
  /-- An item is decoded when all items before it have values. -/
  | item {before : List Node} {n : Node} {rest : List Node} {vs : List Value} :
    DecodesAll d before (.ok vs) → Calls d (.sequence (before ++ n :: rest)) n
  /-- An alias is decoded by decoding its node. -/
  | target {name : Text} {a : AnchorId} {target : Node} :
    d.anchored? a = some target → Calls d (.alias name a) target

/-- Every chain of calls from the node ends. -/
abbrev Grounded (d : Document) (n : Node) : Prop := Acc (fun m n => Calls d n m) n

theorem decodesAll_cons {n : Node} {rest : List Node} {r : Except Error (List Value)} :
    DecodesAll d (n :: rest) r ↔ (∃ e, Decodes d n (.error e) ∧ r = .error e) ∨
      ∃ v s, Decodes d n (.ok v) ∧ DecodesAll d rest s ∧ r = s.map (v :: ·) := by
  constructor
  · intro h
    cases h with
    | error hn => exact .inl ⟨_, hn, rfl⟩
    | cons hn hrest => exact .inr ⟨_, _, hn, hrest, rfl⟩
  · rintro (⟨e, hn, rfl⟩ | ⟨v, s, hn, hrest, rfl⟩)
    · exact .error hn
    · exact .cons hn hrest

mutual

/-- From a node whose decoding ends, every chain of calls ends. -/
theorem Decodes.grounded : ∀ {n : Node} {r : Except Error Value}, Decodes d n r → Grounded d n
  | _, _, .scalar .. => ⟨_, fun _ h => nomatch h⟩
  | _, _, .mapping .. => ⟨_, fun _ h => nomatch h⟩
  | _, _, .alias ha htarget => by
    refine ⟨_, fun m hm => ?_⟩
    cases hm with
    | target ha' =>
      obtain rfl := Option.some.inj (ha.symm.trans ha')
      exact htarget.grounded
  | _, _, .sequence hitems => by
    refine ⟨_, fun m hm => ?_⟩
    generalize hs : Node.sequence _ = s at hm
    cases hm with
    | item hbefore => exact hitems.grounded (Node.sequence.inj hs) hbefore
    | target => cases hs

theorem DecodesAll.grounded : ∀ {items : List Node} {r : Except Error (List Value)},
    DecodesAll d items r → ∀ {before : List Node} {n : Node} {rest : List Node} {vs : List Value},
      items = before ++ n :: rest → DecodesAll d before (.ok vs) → Grounded d n
  | _, _, .nil, before, n, rest, vs, heq, _ => by simp at heq
  | _, _, .error (n := k) hn, before, n, rest, vs, heq, hbefore => by
    cases before with
    | nil =>
      obtain ⟨rfl, -⟩ := List.cons.inj heq
      exact hn.grounded
    | cons b before =>
      obtain ⟨rfl, -⟩ := List.cons.inj heq
      obtain ⟨e, -, he⟩ | ⟨v, s, hv, -, -⟩ := decodesAll_cons.1 hbefore
      · cases he
      · cases hn.unique hv
  | _, _, .cons hn hrest, before, n, rest, vs, heq, hbefore => by
    cases before with
    | nil =>
      obtain ⟨rfl, -⟩ := List.cons.inj heq
      exact hn.grounded
    | cons b before =>
      obtain ⟨rfl, htail⟩ := List.cons.inj heq
      obtain ⟨e, -, he⟩ | ⟨v, s, -, hs, he⟩ := decodesAll_cons.1 hbefore
      · cases he
      cases s with
      | error e => cases he
      | ok vs => exact hrest.grounded htail hs

end

/-- Decoding nodes ends if decoding each one ends whose turn comes. -/
theorem exists_decodesAll {items : List Node}
    (h : ∀ before n rest vs, items = before ++ n :: rest → DecodesAll d before (.ok vs) →
      ∃ r, Decodes d n r) : ∃ r, DecodesAll d items r := by
  induction items with
  | nil => exact ⟨_, .nil⟩
  | cons n rest ih =>
    obtain ⟨e | v, hn⟩ := h [] n rest [] rfl .nil
    · exact ⟨_, .error hn⟩
    obtain ⟨s, hs⟩ := ih fun before m rest' vs heq hbefore =>
      h (n :: before) m rest' (v :: vs) (by rw [heq]; rfl) (.cons hn hbefore)
    exact ⟨_, .cons hn hs⟩

theorem mem_aliasesOf {items : List Node} {c : AnchorId} :
    c ∈ Node.aliasesOf items ↔ ∃ n ∈ items, c ∈ n.aliases := by
  induction items with
  | nil => simp [Node.aliasesOf]
  | cons n rest ih => simp [Node.aliasesOf, ih]

theorem exists_anchored {a : AnchorId} (h : a ∈ numbers d.anchors) :
    ∃ target, d.anchored? a = some target :=
  Option.isSome_iff_exists.1 ((lookup_isSome_iff a d.anchors).2 h)

/-- If every chain of calls from a node ends, and all aliases stand for anchors, then decoding the
node ends. -/
theorem decodes_of_grounded (hd : d.Resolved) {n : Node} (h : Grounded d n)
    (hn : ∀ c ∈ n.aliases, c ∈ numbers d.anchors) : ∃ r, Decodes d n r := by
  induction h with
  | intro n _ ih =>
    obtain ⟨line, tag, plain, t⟩ | items | ⟨line, entries⟩ | ⟨name, a⟩ := n
    · exact ⟨_, .scalar line tag plain t⟩
    · have hitem (before m rest vs) (heq : items = before ++ m :: rest)
          (hbefore : DecodesAll d before (.ok vs)) : ∃ r, Decodes d m r := by
        subst heq
        exact ih m (.item hbefore) fun c hc => hn c (mem_aliasesOf.2 ⟨m, by simp, hc⟩)
      obtain ⟨r, hr⟩ := exists_decodesAll hitem
      exact ⟨_, .sequence hr⟩
    · exact ⟨_, .mapping line entries⟩
    · obtain ⟨target, ha⟩ := exists_anchored (hn a List.mem_cons_self)
      obtain ⟨r, hr⟩ := ih target (.target ha) (hd.known (mem_of_lookup ha))
      exact ⟨r, .alias ha hr⟩

mutual

/-- A node and the items in it, and in them. -/
def parts : Node → List Node
  | .sequence items => .sequence items :: partsOf items
  | n => [n]

/-- The parts of nodes. -/
def partsOf : List Node → List Node
  | [] => []
  | n :: rest => parts n ++ partsOf rest

end

theorem mem_parts_self (n : Node) : n ∈ parts n := by
  cases n <;> simp [parts]

theorem mem_partsOf {items : List Node} {m : Node} :
    m ∈ partsOf items ↔ ∃ n ∈ items, m ∈ parts n := by
  induction items with
  | nil => simp [partsOf]
  | cons n rest ih => simp [partsOf, ih]

mutual

/-- The items of a part are parts. -/
theorem item_mem_parts : ∀ {n m : Node} {items : List Node}, .sequence items ∈ parts n →
    m ∈ items → m ∈ parts n
  | .sequence _, m, items, h, hm => by
    rcases List.mem_cons.1 h with heq | h
    · obtain rfl := Node.sequence.inj heq
      exact List.mem_cons_of_mem _ (mem_partsOf.2 ⟨m, hm, mem_parts_self m⟩)
    · exact List.mem_cons_of_mem _ (item_mem_partsOf h hm)
  | .scalar .., _, _, h, _ => by simp [parts] at h
  | .mapping .., _, _, h, _ => by simp [parts] at h
  | .alias .., _, _, h, _ => by simp [parts] at h

theorem item_mem_partsOf : ∀ {ns : List Node} {m : Node} {items : List Node},
    .sequence items ∈ partsOf ns → m ∈ items → m ∈ partsOf ns
  | [], _, _, h, _ => nomatch h
  | n :: rest, m, items, h, hm => by
    rcases List.mem_append.1 h with h | h
    · exact List.mem_append_left _ (item_mem_parts h hm)
    · exact List.mem_append_right _ (item_mem_partsOf h hm)

end

/-- What decoding a node comes to is a part of it or of the node of an anchor. -/
theorem called_mem_parts {n m : Node} (h : ReflTransGen (Calls d) n m) :
    m ∈ parts n ++ partsOf (d.anchors.map (·.2)) := by
  induction h with
  | refl => exact List.mem_append_left _ (mem_parts_self n)
  | tail _ hcall ih =>
    cases hcall with
    | item hbefore =>
      rcases List.mem_append.1 ih with ih | ih
      · exact List.mem_append_left _ (item_mem_parts ih (by simp))
      · exact List.mem_append_right _ (item_mem_partsOf ih (by simp))
    | target ha =>
      have hmem := List.mem_map_of_mem (f := (·.2)) (mem_of_lookup ha)
      exact List.mem_append_right _ (mem_partsOf.2 ⟨_, hmem, mem_parts_self _⟩)

/-- If decoding a node does not come to any node twice in one chain of calls, then all of these
chains end: there are finitely many nodes. -/
theorem grounded_of_acyclic {n : Node} (h : ∀ m, ReflTransGen (Calls d) n m →
      ¬ TransGen (Calls d) m m) : Grounded d n := by
  let Called := {m // ReflTransGen (Calls d) n m}
  let Above (y x : Called) : Prop := TransGen (Calls d) x.1 y.1
  have : Finite Called := Set.Finite.to_subtype <|
    (List.finite_toSet (parts n ++ partsOf (d.anchors.map (·.2)))).subset fun m hm =>
      called_mem_parts hm
  have : IsTrans Called Above := ⟨fun _ _ _ hyx hzy => TransGen.trans hzy hyx⟩
  have : Std.Irrefl Above := ⟨fun x => h x.1 x.2⟩
  have hwf : WellFounded Above := Finite.wellFounded_of_trans_of_irrefl Above
  have hall (x : Called) : Grounded d x.1 := by
    induction x using hwf.induction with
    | _ x ih => exact ⟨_, fun m hm => ih ⟨m, x.2.tail hm⟩ (.single hm)⟩
  exact hall ⟨n, .refl⟩

theorem Grounded.not_cycle {n : Node} (h : Grounded d n) : ¬ TransGen (Calls d) n n := by
  induction h with
  | intro n _ ih =>
    intro hcycle
    obtain ⟨m, hm, hback⟩ := TransGen.head'_iff.1 hcycle
    exact ih m hm (TransGen.tail' hback hm)

theorem Grounded.called {n m : Node} (h : Grounded d n) (hm : ReflTransGen (Calls d) n m) :
    Grounded d m := by
  induction hm with
  | refl => exact h
  | tail _ hcall ih => exact ih.inv hcall

/-- Decoding ends unless it comes to a node that it comes to again from there. -/
theorem decodes_iff_acyclic (hd : d.Resolved) : (∃ r, Decodes d d.root r) ↔
    ∀ n, ReflTransGen (Calls d) d.root n → ¬ TransGen (Calls d) n n := by
  constructor
  · rintro ⟨r, hr⟩ n hn
    exact (hr.grounded.called hn).not_cycle
  · intro h
    exact decodes_of_grounded hd (grounded_of_acyclic h) hd.root

/-! ### Documents without anchors that hold themselves -/

mutual

/-- Decoding a node ends if all aliases in it stand for nodes that are decoded. -/
theorem exists_decodes : ∀ {n : Node}, (∀ c ∈ n.aliases, ∃ target r,
      d.anchored? c = some target ∧ Decodes d target r) → ∃ r, Decodes d n r
  | .scalar line tag plain t, _ => ⟨_, .scalar line tag plain t⟩
  | .mapping line entries, _ => ⟨_, .mapping line entries⟩
  | .alias _ a, h => by
    obtain ⟨target, r, ha, hr⟩ := h a List.mem_cons_self
    exact ⟨r, .alias ha hr⟩
  | .sequence items, h => by
    obtain ⟨r, hr⟩ := exists_decodes_items h
    exact ⟨_, .sequence hr⟩

theorem exists_decodes_items : ∀ {items : List Node}, (∀ c ∈ Node.aliasesOf items, ∃ target r,
      d.anchored? c = some target ∧ Decodes d target r) → ∃ r, DecodesAll d items r
  | [], _ => ⟨_, .nil⟩
  | n :: rest, h => by
    obtain ⟨e | v, hn⟩ := exists_decodes fun c hc => h c (List.mem_append_left _ hc)
    · exact ⟨_, .error hn⟩
    obtain ⟨s, hs⟩ := exists_decodes_items fun c hc => h c (List.mem_append_right _ hc)
    exact ⟨_, .cons hn hs⟩

end

/-- Where no node with an anchor holds itself, all of them are decoded: the aliases in one of them
stand for nodes that were finished before it. -/
theorem decodes_anchored (hnodup : (numbers d.anchors).Nodup)
    (hfree : ∀ a, ¬ HoldsItself d.anchors a) {older : List (AnchorId × Node)}
    (hsettled : Settled (HoldsItself d.anchors) older) (hsub : older ⊆ d.anchors) :
    ∀ c ∈ numbers older, ∃ target r, d.anchored? c = some target ∧ Decodes d target r := by
  induction older with
  | nil => simp
  | cons p older ih =>
    have hrest := ih hsettled.2 fun q hq => hsub (List.mem_cons_of_mem _ hq)
    intro c hc
    rcases List.mem_cons.1 hc with rfl | hc
    · have hp : d.anchored? p.1 = some p.2 :=
        (mem_iff_lookup hnodup p).1 (hsub List.mem_cons_self)
      obtain ⟨r, hr⟩ := exists_decodes fun c hc =>
        hrest c ((hsettled.1 c hc).resolve_right (hfree c))
      exact ⟨p.2, r, hp, hr⟩
    · exact hrest c hc

theorem decodes_of_free (hd : d.Resolved) (hfree : ∀ a, ¬ HoldsItself d.anchors a) :
    ∃ r, Decodes d d.root r :=
  exists_decodes fun c hc =>
    decodes_anchored hd.nodup hfree hd.settled (List.Subset.refl _) c (hd.root c hc)

theorem parse_eq {t : Text} (h : Document.read t = .ok (some d)) {r : Except Error Value}
    (hr : Decodes d d.root r) : parse t = r := by
  simp only [parse, h, decode_eq_result.2 hr]
  rfl

/-- **Which literals are decoded.** A literal that has been read is decoded to what its nodes are
decoded to in turn, however far aliases have to be followed for it. That ends if and only if
decoding does not come to a node and from there to the same node again, and it always ends where no
node with an anchor holds an alias of this anchor. -/
theorem parse_decodes {t : Text} {d : Document} (h : Document.read t = .ok (some d)) :
    (∀ r, decode d = result r ↔ Decodes d d.root r) ∧
      (∀ r, Decodes d d.root r → parse t = r) ∧
      ((∃ r, Decodes d d.root r) ↔
        ∀ n, ReflTransGen (Calls d) d.root n → ¬ TransGen (Calls d) n n) ∧
      ((∀ a, ¬ HoldsItself d.anchors a) → ∃ r, Decodes d d.root r) := by
  have hd := Document.resolved_of_read h
  exact ⟨fun _ => decode_eq_result, fun _ => parse_eq h, decodes_iff_acyclic hd, decodes_of_free hd⟩

/-- A sequence with an anchor and an alias behind it. -/
def repeated : Text := "[&a [1], *a]"

/-- The nodes of `repeated`. -/
def repeatedNodes : Document :=
  let one : Node := .sequence [.scalar 1 none true "1"]
  ⟨.sequence [one, .alias "a" 0], [(0, one)]⟩

/-- The alias stands for a sequence that was finished before it. -/
theorem repeated_decodes : Document.read repeated = .ok (some repeatedNodes) ∧
    (∀ a, ¬ HoldsItself repeatedNodes.anchors a) ∧
      ∃ r, Decodes repeatedNodes repeatedNodes.root r ∧ decode repeatedNodes = result r ∧
        parse repeated = r := by
  have hchars : characters repeated = .ok "[&a [1], *a]".toList := by decide +kernel
  have htokens : (Tokens.ofChars "[&a [1], *a]".toList).list =
      [⟨.streamStart, 1⟩, ⟨.flowSequenceStart, 1⟩, ⟨.anchor ['a'], 1⟩, ⟨.flowSequenceStart, 1⟩,
        ⟨.scalar true ['1'], 1⟩, ⟨.flowSequenceEnd, 1⟩, ⟨.flowEntry, 1⟩, ⟨.alias ['a'], 1⟩,
        ⟨.flowSequenceEnd, 1⟩, ⟨.streamEnd, 2⟩] := by decide +kernel
  have hread : Document.read repeated = .ok (some repeatedNodes) := by
    rw [Document.read_eq hchars htokens]
    rfl
  have hfree : ∀ a, ¬ HoldsItself repeatedNodes.anchors a := by
    rintro a ⟨n, hn, ha⟩
    obtain ⟨rfl, rfl⟩ := Prod.mk.inj (List.mem_singleton.1 hn)
    simp [Node.aliases, Node.aliasesOf] at ha
  obtain ⟨hdecode, hparse, -, hends⟩ := parse_decodes hread
  obtain ⟨r, hr⟩ := hends hfree
  exact ⟨hread, hfree, r, hr, (hdecode r).2 hr, hparse r hr⟩

/-- A sequence whose only item is an alias of it. -/
def circular : Text := "&a [*a]"

/-- The nodes of `circular`. -/
def circularNodes : Document :=
  let items : Node := .sequence [.alias "a" 0]
  ⟨items, [(0, items)]⟩

/-- Decoding the sequence decodes the alias, and that decodes the sequence. -/
theorem circular_endless : Document.read circular = .ok (some circularNodes) ∧
    ¬ ∃ r, Decodes circularNodes circularNodes.root r := by
  have hchars : characters circular = .ok "&a [*a]".toList := by decide +kernel
  have htokens : (Tokens.ofChars "&a [*a]".toList).list =
      [⟨.streamStart, 1⟩, ⟨.anchor ['a'], 1⟩, ⟨.flowSequenceStart, 1⟩, ⟨.alias ['a'], 1⟩,
        ⟨.flowSequenceEnd, 1⟩, ⟨.streamEnd, 2⟩] := by decide +kernel
  have hread : Document.read circular = .ok (some circularNodes) := by
    rw [Document.read_eq hchars htokens]
    rfl
  refine ⟨hread, fun hends => ?_⟩
  have hitem : Calls circularNodes circularNodes.root (.alias "a" 0) :=
    @Calls.item _ [] _ [] _ .nil
  have hback : Calls circularNodes (.alias "a" 0) circularNodes.root := .target rfl
  have hacyclic := (decodes_iff_acyclic (Document.resolved_of_read hread)).1 hends
  exact hacyclic _ .refl (.tail (.single hitem) hback)

end Literal

end Reckoner
