import Mathlib.Tactic
import Reckoner.Literal
import Reckoner.Proofs.Composite
import Reckoner.Proofs.Lookup
import Reckoner.Proofs.Makers

/-!
# Decoding nodes

What a node of a document is decoded to, as a relation that has no bound on how many aliases are
followed. Where decoding goes on forever, nothing is related to the node.

Decoding with a bound gives the same. What it gives is what the node is decoded to, and a node that
is decoded needs no more aliases inside of each other than there are anchors: if it needs `k + 1`,
then the node of some anchor needs `k`, that of another one `k - 1`, and so on, and these are all
different.
-/

namespace Reckoner

namespace Literal

open Yaml (Node Document AnchorId)

/-! ### Decodings -/

section

variable {α β : Type} {x : Decoding α} {r r' : Except Error α}

theorem result_injective (h : result r = result r') : r = r' := Option.some.inj h

theorem endless_ne_result : (endless : Decoding α) ≠ result r := fun h => by cases h

/-- A decoding that does not end has no result, and any other has one. -/
theorem eq_endless_or (x : Decoding α) : x = endless ∨ ∃ r, x = result r := by
  rcases hx : x.run with _ | r
  · exact .inl hx
  · exact .inr ⟨r, hx⟩

@[simp] theorem pure_eq (a : α) : (pure a : Decoding α) = result (.ok a) := rfl

@[simp] theorem result_ok_bind (a : α) (f : α → Decoding β) : result (.ok a) >>= f = f a := rfl

@[simp] theorem result_error_bind (e : Error) (f : α → Decoding β) :
    result (.error e) >>= f = result (.error e) := rfl

/-- A sequence of decodings ends with the first error, or with what the last one ends with. -/
theorem result_of_bind {f : α → Decoding β} {s : Except Error β} (h : x >>= f = result s) :
    (∃ e, x = result (.error e) ∧ s = .error e) ∨ ∃ a, x = result (.ok a) ∧ f a = result s := by
  rcases eq_endless_or x with rfl | ⟨e | a, rfl⟩
  · cases h
  · exact .inl ⟨e, rfl, (result_injective h).symm⟩
  · exact .inr ⟨a, rfl, h⟩

end

/-- Items can be an array if and only if they share a kind. -/
theorem sequence_eq_collect (items : List Value) : sequence items = Value.collect items := by
  cases items with
  | nil => rfl
  | cons v rest =>
    rw [sequence, List.map_cons, Value.arrayOf, ← List.map_cons, Value.collect]
    by_cases hkinds : ∀ w ∈ rest, w.kind = v.kind
    · rw [newArray_ok (List.forall_mem_cons.mpr ⟨rfl, hkinds⟩)]
      simpa using hkinds
    · cases hnew : Value.newArray v.kind ((v :: rest).map some) with
      | error e => simp [hkinds]
      | ok a =>
        obtain ⟨ws, -, hws, hall⟩ := newArray_cases hnew
        obtain rfl : v :: rest = ws := List.map_injective_iff.mpr (Option.some_injective _) hws
        exact absurd (List.forall_mem_cons.mp hall).2 hkinds

theorem decodeNode_sequence (d : Document) (follow : AnchorId → Decoding Value)
    (items : List Node) : decodeNode d follow (.sequence items)
      = decodeNodes d follow items >>= fun vs => result (.ok (Value.collect vs)) := by
  simp [decodeNode, sequence_eq_collect]

theorem decodeNodes_cons (d : Document) (follow : AnchorId → Decoding Value) (n : Node)
    (rest : List Node) : decodeNodes d follow (n :: rest)
      = decodeNode d follow n >>= fun v => decodeNodes d follow rest >>= fun vs =>
          result (.ok (v :: vs)) := by
  simp [decodeNodes]

/-! ### What nodes are decoded to -/

mutual

/-- Decoding a node ends, and ends with the result. -/
inductive Decodes (d : Document) : Node → Except Error Value → Prop
  /-- A scalar is decoded at once. -/
  | scalar (line : Nat) (tag : Option Text) (plain : Bool) (t : Text) :
    Decodes d (.scalar line tag plain t) (scalar line tag plain t)
  /-- A sequence is decoded after its items, and its items are collected. -/
  | sequence {items : List Node} {r : Except Error (List Value)} :
    DecodesAll d items r → Decodes d (.sequence items) (r.map Value.collect)
  /-- A mapping is decoded at once, as a point or not at all. -/
  | mapping (line : Nat) (entries : List (Node × Node)) :
    Decodes d (.mapping line entries) (point d line entries)
  /-- An alias is decoded as the node that it stands for. -/
  | alias {name : Text} {a : AnchorId} {target : Node} {r : Except Error Value} :
    d.anchored? a = some target → Decodes d target r → Decodes d (.alias name a) r

/-- Decoding nodes from the first to the last ends, and ends with the result. -/
inductive DecodesAll (d : Document) : List Node → Except Error (List Value) → Prop
  | nil : DecodesAll d [] (.ok [])
  /-- The first node cannot be decoded, and the others are not looked at. -/
  | error {n : Node} {rest : List Node} {e : Error} :
    Decodes d n (.error e) → DecodesAll d (n :: rest) (.error e)
  /-- The first node has a value, and the others follow. -/
  | cons {n : Node} {rest : List Node} {v : Value} {r : Except Error (List Value)} :
    Decodes d n (.ok v) → DecodesAll d rest r → DecodesAll d (n :: rest) (r.map (v :: ·))

end

/-! ### Decoding with a way to follow aliases -/

variable {d : Document} {go go' : AnchorId → Decoding Value}

mutual

/-- If aliases are followed to what their nodes decode to, then nodes are decoded so. -/
theorem decodes_of_follow (h : ∀ a r, go a = result r →
      ∃ target, d.anchored? a = some target ∧ Decodes d target r) :
    ∀ (n : Node) {r : Except Error Value}, decodeNode d go n = result r → Decodes d n r
  | .scalar line tag plain t, r, hr => by
    obtain rfl := result_injective hr
    exact .scalar line tag plain t
  | .sequence items, r, hr => by
    rw [decodeNode_sequence] at hr
    obtain ⟨e, hitems, rfl⟩ | ⟨vs, hitems, hvs⟩ := result_of_bind hr
    · exact .sequence (decodesAll_of_follow h items hitems)
    · obtain rfl := result_injective hvs
      exact .sequence (decodesAll_of_follow h items hitems)
  | .mapping line entries, r, hr => by
    obtain rfl := result_injective hr
    exact .mapping line entries
  | .alias name a, r, hr => by
    obtain ⟨target, ha, htarget⟩ := h a r hr
    exact .alias ha htarget

theorem decodesAll_of_follow (h : ∀ a r, go a = result r →
      ∃ target, d.anchored? a = some target ∧ Decodes d target r) :
    ∀ (items : List Node) {r : Except Error (List Value)},
      decodeNodes d go items = result r → DecodesAll d items r
  | [], r, hr => by
    obtain rfl := result_injective hr
    exact .nil
  | n :: rest, r, hr => by
    rw [decodeNodes_cons] at hr
    obtain ⟨e, hn, rfl⟩ | ⟨v, hn, hr⟩ := result_of_bind hr
    · exact .error (decodes_of_follow h n hn)
    have hn := decodes_of_follow h n hn
    obtain ⟨e, hrest, rfl⟩ | ⟨vs, hrest, hvs⟩ := result_of_bind hr
    · exact .cons hn (decodesAll_of_follow h rest hrest)
    · obtain rfl := result_injective hvs
      exact .cons hn (decodesAll_of_follow h rest hrest)

end

mutual

/-- Where aliases are followed further, nodes that have been decoded stay so. -/
theorem decodeNode_mono (h : ∀ a r, go a = result r → go' a = result r) :
    ∀ (n : Node) {r : Except Error Value},
      decodeNode d go n = result r → decodeNode d go' n = result r
  | .scalar .., _, hr => hr
  | .mapping .., _, hr => hr
  | .alias _ a, r, hr => h a r hr
  | .sequence items, r, hr => by
    rw [decodeNode_sequence] at hr ⊢
    obtain ⟨e, hitems, rfl⟩ | ⟨vs, hitems, hvs⟩ := result_of_bind hr
    · rw [decodeNodes_mono h items hitems, result_error_bind]
    · rw [decodeNodes_mono h items hitems, result_ok_bind, hvs]

theorem decodeNodes_mono (h : ∀ a r, go a = result r → go' a = result r) :
    ∀ (items : List Node) {r : Except Error (List Value)},
      decodeNodes d go items = result r → decodeNodes d go' items = result r
  | [], _, hr => hr
  | n :: rest, r, hr => by
    rw [decodeNodes_cons] at hr ⊢
    obtain ⟨e, hn, rfl⟩ | ⟨v, hn, hr⟩ := result_of_bind hr
    · rw [decodeNode_mono h n hn, result_error_bind]
    rw [decodeNode_mono h n hn, result_ok_bind]
    obtain ⟨e, hrest, rfl⟩ | ⟨vs, hrest, hvs⟩ := result_of_bind hr
    · rw [decodeNodes_mono h rest hrest, result_error_bind]
    · rw [decodeNodes_mono h rest hrest, result_ok_bind, hvs]

end

/-! ### How far aliases are followed -/

/-- What an alias is followed to where `fuel` of them may be followed inside of each other. -/
def follow (d : Document) : (fuel : Nat) → AnchorId → Decoding Value
  | 0, _ => endless
  | fuel + 1, a =>
    match d.anchored? a with
    | some target => decodeWithin d fuel target
    | none => endless

theorem decodeWithin_eq (d : Document) (fuel : Nat) (n : Node) :
    decodeWithin d fuel n = decodeNode d (follow d fuel) n := by
  cases fuel <;> rfl

theorem follow_zero {a : AnchorId} {r : Except Error Value} : follow d 0 a ≠ result r :=
  endless_ne_result

theorem follow_succ {fuel : Nat} {a : AnchorId} {r : Except Error Value} :
    follow d (fuel + 1) a = result r ↔
      ∃ target, d.anchored? a = some target ∧ decodeWithin d fuel target = result r := by
  cases ha : d.anchored? a with
  | none => simp [follow, ha, endless_ne_result]
  | some target => simp [follow, ha]

theorem decodes_of_within {fuel : Nat} {n : Node} {r : Except Error Value}
    (h : decodeWithin d fuel n = result r) : Decodes d n r := by
  rw [decodeWithin_eq] at h
  induction fuel generalizing n r with
  | zero => exact decodes_of_follow (fun a r ha => absurd ha follow_zero) n h
  | succ fuel ih =>
    refine decodes_of_follow (fun a r ha => ?_) n h
    obtain ⟨target, ha, htarget⟩ := follow_succ.1 ha
    exact ⟨target, ha, ih (by rwa [decodeWithin_eq] at htarget)⟩

theorem decodeWithin_succ {fuel : Nat} {n : Node} {r : Except Error Value}
    (h : decodeWithin d fuel n = result r) : decodeWithin d (fuel + 1) n = result r := by
  induction fuel generalizing n r with
  | zero =>
    rw [decodeWithin_eq] at h ⊢
    exact decodeNode_mono (fun a r ha => absurd ha follow_zero) n h
  | succ fuel ih =>
    rw [decodeWithin_eq] at h ⊢
    refine decodeNode_mono (fun a r ha => ?_) n h
    obtain ⟨target, ha, htarget⟩ := follow_succ.1 ha
    exact follow_succ.2 ⟨target, ha, ih htarget⟩

theorem decodeWithin_mono {fuel fuel' : Nat} (hle : fuel ≤ fuel') {n : Node}
    {r : Except Error Value} (h : decodeWithin d fuel n = result r) :
    decodeWithin d fuel' n = result r := by
  induction hle with
  | refl => exact h
  | step _ ih => exact decodeWithin_succ ih

mutual

/-- A node that is decoded is so whenever enough aliases may be followed. -/
theorem Decodes.exists_fuel : ∀ {n : Node} {r : Except Error Value}, Decodes d n r →
    ∃ k, ∀ fuel, k ≤ fuel → decodeNode d (follow d fuel) n = result r
  | _, _, .scalar .. => ⟨0, fun _ _ => rfl⟩
  | _, _, .mapping .. => ⟨0, fun _ _ => rfl⟩
  | _, _, .alias ha htarget => by
    obtain ⟨k, h⟩ := htarget.exists_fuel
    refine ⟨k + 1, fun fuel hle => ?_⟩
    obtain ⟨fuel, rfl⟩ : ∃ l, fuel = l + 1 := ⟨fuel - 1, by omega⟩
    exact follow_succ.2 ⟨_, ha, by rw [decodeWithin_eq, h fuel (by omega)]⟩
  | _, _, .sequence (r := r) hitems => by
    obtain ⟨k, h⟩ := hitems.exists_fuel
    refine ⟨k, fun fuel hle => ?_⟩
    rw [decodeNode_sequence, h fuel hle]
    cases r <;> rfl

theorem DecodesAll.exists_fuel : ∀ {items : List Node} {r : Except Error (List Value)},
    DecodesAll d items r → ∃ k, ∀ fuel, k ≤ fuel → decodeNodes d (follow d fuel) items = result r
  | _, _, .nil => ⟨0, fun _ _ => rfl⟩
  | _, _, .error hn => by
    obtain ⟨k, h⟩ := hn.exists_fuel
    exact ⟨k, fun fuel hle => by rw [decodeNodes_cons, h fuel hle, result_error_bind]⟩
  | _, _, .cons (r := r) hn hrest => by
    obtain ⟨k, hn⟩ := hn.exists_fuel
    obtain ⟨l, hrest⟩ := hrest.exists_fuel
    refine ⟨max k l, fun fuel hle => ?_⟩
    rw [decodeNodes_cons, hn fuel (by omega), result_ok_bind, hrest fuel (by omega)]
    cases r <;> rfl

end

theorem Decodes.unique {n : Node} {r r' : Except Error Value} (h : Decodes d n r)
    (h' : Decodes d n r') : r = r' := by
  obtain ⟨k, h⟩ := h.exists_fuel
  obtain ⟨l, h'⟩ := h'.exists_fuel
  exact result_injective ((h (max k l) (by omega)).symm.trans (h' (max k l) (by omega)))

/-! ### As many aliases as there are anchors are enough -/

/-- Decoding the node takes `k` aliases that are followed inside of each other, and no fewer. -/
def AliasDepth (d : Document) (k : Nat) (n : Node) : Prop :=
  (∃ r, decodeWithin d k n = result r) ∧ ∀ j < k, ∀ r, decodeWithin d j n ≠ result r

theorem AliasDepth.unique {n : Node} {j k : Nat} (hj : AliasDepth d j n)
    (hk : AliasDepth d k n) : j = k := by
  obtain ⟨⟨r, hr⟩, hj⟩ := hj
  obtain ⟨⟨s, hs⟩, hk⟩ := hk
  rcases Nat.lt_trichotomy j k with hlt | heq | hlt
  · exact absurd hr (hk j hlt r)
  · exact heq
  · exact absurd hs (hj k hlt s)

theorem Decodes.exists_aliasDepth {n : Node} {r : Except Error Value} (h : Decodes d n r) :
    ∃ k, AliasDepth d k n := by
  classical
  obtain ⟨l, hl⟩ := h.exists_fuel
  have hex : ∃ k, ∃ r, decodeWithin d k n = result r :=
    ⟨l, r, by rw [decodeWithin_eq, hl l le_rfl]⟩
  exact ⟨Nat.find hex, Nat.find_spec hex, fun j hj r hr => Nat.find_min hex hj ⟨r, hr⟩⟩

/-- If a node takes `k + 1` aliases, then the node of some anchor takes `k`. If none did, every
alias could be followed with fewer, and so the node be decoded with `k`. -/
theorem AliasDepth.exists_anchor {k : Nat} {n : Node} (h : AliasDepth d (k + 1) n) :
    ∃ a target, d.anchored? a = some target ∧ AliasDepth d k target := by
  obtain ⟨⟨r, hr⟩, hless⟩ := h
  by_contra hnone
  push Not at hnone
  refine hless k (by omega) r ?_
  rw [decodeWithin_eq] at hr ⊢
  refine decodeNode_mono (fun a s hfollow => ?_) n hr
  obtain ⟨target, ha, hs⟩ := follow_succ.1 hfollow
  have hfewer : ∃ j < k, ∃ r, decodeWithin d j target = result r := by
    by_contra hmin
    push Not at hmin
    exact hnone a target ha ⟨⟨s, hs⟩, hmin⟩
  obtain ⟨j, hj, r', hr'⟩ := hfewer
  obtain rfl : r' = s := result_injective ((decodeWithin_mono hj.le hr').symm.trans hs)
  obtain ⟨k, rfl⟩ : ∃ l, k = l + 1 := ⟨k - 1, by omega⟩
  exact follow_succ.2 ⟨target, ha, decodeWithin_mono (by omega) hr'⟩

/-- For every number below the one that a node takes, the node of some anchor takes as many. -/
theorem AliasDepth.exists_anchor_of_lt {k : Nat} {n : Node} (h : AliasDepth d k n) :
    ∀ j < k, ∃ a target, d.anchored? a = some target ∧ AliasDepth d j target := by
  induction k generalizing n with
  | zero => intro j hj; omega
  | succ k ih =>
    intro j hj
    obtain ⟨a, target, ha, htarget⟩ := h.exists_anchor
    rcases Nat.lt_or_ge j k with hlt | hge
    · exact ih htarget j hlt
    · obtain rfl : j = k := by omega
      exact ⟨a, target, ha, htarget⟩

/-- Nodes that take different numbers of aliases have different anchors, so no node takes more than
there are anchors. -/
theorem AliasDepth.le_length {k : Nat} {n : Node} (h : AliasDepth d k n) :
    k ≤ d.anchors.length := by
  choose! a target ha hdepth using h.exists_anchor_of_lt
  have hmaps : ∀ j ∈ Finset.range k, a j ∈ (d.anchors.map (·.1)).toFinset := fun j hj =>
    List.mem_toFinset.2 <|
      List.mem_map_of_mem (f := (·.1)) (mem_of_lookup (ha j (Finset.mem_range.1 hj)))
  have hinj : Set.InjOn a (Finset.range k) := by
    intro i hi j hj hij
    have hi := Finset.mem_range.1 hi
    have hj := Finset.mem_range.1 hj
    have heq : target i = target j := Option.some.inj ((ha i hi).symm.trans (hij ▸ ha j hj))
    exact (hdepth i hi).unique (heq ▸ hdepth j hj)
  calc k = (Finset.range k).card := (Finset.card_range k).symm
    _ ≤ (d.anchors.map (·.1)).toFinset.card := Finset.card_le_card_of_injOn a hmaps hinj
    _ ≤ (d.anchors.map (·.1)).length := List.toFinset_card_le _
    _ = d.anchors.length := List.length_map ..

/-- Decoding gives a result if and only if it ends, and it gives the one that it ends with. -/
theorem decode_eq_result {r : Except Error Value} : decode d = result r ↔ Decodes d d.root r := by
  refine ⟨decodes_of_within, fun h => ?_⟩
  obtain ⟨k, hk⟩ := h.exists_aliasDepth
  obtain ⟨s, hs⟩ := hk.1
  obtain rfl := h.unique (decodes_of_within hs)
  exact decodeWithin_mono hk.le_length hs

end Literal

end Reckoner
