import Reckoner.Proofs.Guarded
import Reckoner.Proofs.Token

/-!
# The grammar of tokens

A token is a sequence of items, each of which stands for one byte: a byte other than the backslash
for itself, a short escape, or an escape by two hexadecimal digits of either case. `unescape`
succeeds on these texts and on no others, and gives the bytes that the items stand for.

The reader of tokens goes over the text by places, one, two or four bytes at a time, and looks at
its length before it looks at what comes behind a backslash. With its partial operations it never
leaves the text and gives what `unescape` gives.
-/

namespace Reckoner

namespace Token

/-! ### Items -/

/-- The byte is the digit for `n` below 16, in lower case or in upper case. -/
def HexDigit (d : UInt8) (n : Nat) : Prop :=
  ("0123456789abcdef" : Text)[n]? = some d ∨ ("0123456789ABCDEF" : Text)[n]? = some d

/-- The bytes of an item, and the byte that it stands for. -/
inductive Item : Text → UInt8 → Prop where
  /-- A byte that stands for itself. -/
  | plain {b : UInt8} : b ≠ 92 → Item [b] b
  /-- Two backslashes. -/
  | backslash : Item [92, 92] 92
  /-- A backslash and an `n`. -/
  | lineFeed : Item [92, 110] 10
  /-- A backslash and an `r`. -/
  | carriageReturn : Item [92, 114] 13
  /-- A backslash and a `t`. -/
  | tab : Item [92, 116] 9
  /-- A backslash, an `x` and the digits of the byte, the high one first. -/
  | code {a b : UInt8} {x y : Nat} : HexDigit a x → HexDigit b y →
    Item [92, 120, a, b] (16 * x + y).toUInt8

/-- The token `t` is a sequence of items that stand for the bytes of `s`. -/
inductive Spells : Text → Text → Prop where
  | nil : Spells [] []
  /-- One item stands for one byte. -/
  | item {u t s : Text} {b : UInt8} : Item u b → Spells t s → Spells (u ++ t) (b :: s)

instance (d : UInt8) (n : Nat) : Decidable (HexDigit d n) :=
  inferInstanceAs (Decidable (_ ∨ _))

theorem hexDigit_of_hexValue {d : UInt8} {n : Nat} (h : Text.hexValue? d = some n) :
    HexDigit d n := by
  have hall : ∀ k < 256, ∀ m ∈ Text.hexValue? (UInt8.ofNat k), HexDigit (UInt8.ofNat k) m := by
    decide +kernel
  have hd := hall d.toNat d.toNat_lt n
  rw [UInt8.ofNat_toNat] at hd
  exact hd h

theorem HexDigit.hexValue {d : UInt8} {n : Nat} (h : HexDigit d n) :
    Text.hexValue? d = some n := by
  have hlower : ∀ m < 16, ∀ c ∈ ("0123456789abcdef" : Text)[m]?, Text.hexValue? c = some m := by
    decide +kernel
  have hupper : ∀ m < 16, ∀ c ∈ ("0123456789ABCDEF" : Text)[m]?, Text.hexValue? c = some m := by
    decide +kernel
  rcases h with h | h
  · exact hlower n (List.getElem?_eq_some_iff.mp h).1 d h
  · exact hupper n (List.getElem?_eq_some_iff.mp h).1 d h

/-! ### Reading items -/

theorem unescape_plain {b : UInt8} (h : b ≠ 92) (rest : Text) :
    unescape (b :: rest) = (unescape rest).map (b :: ·) := by
  simp [unescape, h]

/-- A token without a backslash is its own text. -/
theorem unescape_of_notMem {t : Text} (h : 92 ∉ t) : unescape t = .ok t := by
  induction t with
  | nil => rfl
  | cons b t ih =>
    rw [List.mem_cons, not_or] at h
    rw [unescape_plain (Ne.symm h.1), ih h.2]
    rfl

theorem unescape_unknown {b : UInt8} (hbackslash : b ≠ 92) (hn : b ≠ 110) (hr : b ≠ 114)
    (ht : b ≠ 116) (hx : b ≠ 120) (rest : Text) :
    unescape (92 :: b :: rest) = .error (.unknown [92, b]) := by
  simp [unescape, *]

/-- An item is read whatever follows it. -/
theorem Item.unescape {u : Text} {b : UInt8} (h : Item u b) (rest : Text) :
    Token.unescape (u ++ rest) = (Token.unescape rest).map (b :: ·) := by
  cases h with
  | plain hb => exact unescape_plain hb rest
  | backslash => simp [Token.unescape]
  | lineFeed => simp [Token.unescape]
  | carriageReturn => simp [Token.unescape]
  | tab => simp [Token.unescape]
  | code hx hy =>
    simp [Token.unescape, hx.hexValue, hy.hexValue]

theorem Spells.unescape {t s : Text} (h : Spells t s) : Token.unescape t = .ok s := by
  induction h with
  | nil => rfl
  | item hitem _ ih => rw [hitem.unescape, ih]; rfl

/-- An item in front of what is read as a sequence of items. -/
theorem spells_item {u rest s : Text} {b : UInt8} (hitem : Item u b)
    (ih : ∀ {s : Text}, unescape rest = .ok s → Spells rest s)
    (h : (unescape rest).map (b :: ·) = .ok s) : Spells (u ++ rest) s := by
  cases hrest : unescape rest with
  | error e =>
    rw [hrest] at h
    cases h
  | ok s' =>
    rw [hrest] at h
    cases h
    exact .item hitem (ih hrest)

/-- What is read is a sequence of items. The cases are those of the reader. -/
theorem spells_of_unescape {t s : Text} (h : unescape t = .ok s) : Spells t s := by
  fun_induction unescape t generalizing s with
  | case1 =>
    cases h
    exact .nil
  | case2 => cases h
  | case3 rest ih => exact spells_item .backslash ih h
  | case4 rest ih => exact spells_item .lineFeed ih h
  | case5 rest ih => exact spells_item .carriageReturn ih h
  | case6 rest ih => exact spells_item .tab ih h
  | case7 a b rest _ _ hy hx ih =>
    exact spells_item (.code (hexDigit_of_hexValue hx) (hexDigit_of_hexValue hy)) ih h
  | case8 => cases h
  | case9 => cases h
  | case10 => cases h
  | case11 b rest hnil _ _ _ _ _ _ hcons ih =>
    have hb : b ≠ 92 := by
      rintro rfl
      cases rest with
      | nil => exact hnil rfl rfl
      | cons c rest => exact hcons c rest rfl rfl
    exact spells_item (.plain hb) ih h

/-- **The texts that are tokens**, and what they stand for. -/
theorem unescape_eq_ok_iff {t s : Text} : unescape t = .ok s ↔ Spells t s :=
  ⟨spells_of_unescape, Spells.unescape⟩

/-- Digits of both cases, and an escaped backslash in front of what is no escape then. -/
example : unescape "\\x4a\\x4B\\\\n" = .ok "JK\\n" := by rfl

end Token

/-! ### Reading by places -/

namespace Guarded

/-- The part of a sequence from one place up to another one. -/
def slice {α : Type} (xs : List α) (i j : Nat) : Guarded (List α) :=
  if i ≤ j ∧ j ≤ xs.length then .ok ((xs.take j).drop i) else .error .index

open Token (Fault)

/-- The byte that two hexadecimal digits stand for. -/
def hexByte? : Text → Option UInt8
  | [a, b] =>
    match Text.hexValue? a, Text.hexValue? b with
    | some x, some y => some (16 * x + y).toUInt8
    | _, _ => none
  | _ => none

/-- Reads the numeric escape that begins at a place: the byte that it stands for, and how many bytes
it has behind the backslash. -/
def readCode (t : Text) (i : Nat) : Guarded (Except Fault (UInt8 × Nat)) :=
  if t.length ≤ i + 3 then return .error .short
  else do
    match hexByte? (← slice t (i + 2) (i + 4)) with
    | some b => return .ok (b, 3)
    | none => return .error (.badDigits (← slice t i (i + 4)))

/-- Reads the escape that begins at a place. -/
def readEscape (t : Text) (i : Nat) : Guarded (Except Fault (UInt8 × Nat)) :=
  if t.length ≤ i + 1 then return .error .trailing
  else do
    match ← read t (i + 1) with
    | 92 => return .ok (92, 1)
    | 110 => return .ok (10, 1)
    | 114 => return .ok (13, 1)
    | 116 => return .ok (9, 1)
    | 120 => readCode t i
    | _ => return .error (.unknown (← slice t i (i + 2)))

/-- Reads the item at a place. -/
def readItem (t : Text) (i : Nat) : Guarded (Except Fault (UInt8 × Nat)) := do
  let c ← read t i
  if c = 92 then readEscape t i else return .ok (c, 0)

/-- Reads the items from a place on, behind what they have been read as so far. -/
def readItems (t : Text) (i : Nat) (out : Text) : Guarded (Except Fault Text) :=
  if i < t.length then do
    match ← readItem t i with
    | .error f => return .error f
    | .ok (b, more) => readItems t (i + 1 + more) (out ++ [b])
  else return .ok out
termination_by t.length - i

/-- The text of a token. One without a backslash is its own text. -/
def unescape (t : Text) : Guarded (Except Fault Text) :=
  if 92 ∈ t then readItems t 0 [] else return .ok t

section Places

variable {α : Type} {xs u rest : List α} {x : α} {i : Nat}

theorem read_drop (h : xs.drop i = x :: rest) : read xs i = .ok x := by
  have hx : xs[i]? = some x := by rw [← List.head?_drop, h]; rfl
  rw [read, hx]

theorem drop_succ (h : xs.drop i = x :: rest) : xs.drop (i + 1) = rest := by
  rw [← List.drop_drop, h]
  rfl

theorem length_drop (h : xs.drop i = x :: rest) : xs.length = i + (rest.length + 1) := by
  have hlen : xs.length - i = rest.length + 1 := by rw [← List.length_drop, h, List.length_cons]
  omega

theorem slice_drop (u : List α) (h : xs.drop i = x :: (u ++ rest)) :
    slice xs i (i + (u.length + 1)) = .ok (x :: u) := by
  have hlen := length_drop h
  rw [List.length_append] at hlen
  rw [slice, if_pos (by omega), List.drop_take, h, Nat.add_sub_cancel_left, List.take_succ_cons,
    List.take_left]

end Places

variable {t rest : Text} {i : Nat}

/-- How one item is read: there is a fault, which `unescape` has too, or an item stands at the
place, and the reply is its byte. -/
inductive Replies (t : Text) (i : Nat) : Guarded (Except Fault (UInt8 × Nat)) → Prop where
  /-- Nothing that can be read stands there. -/
  | fault {f : Fault} : Token.unescape (t.drop i) = .error f → Replies t i (.ok (.error f))
  /-- An item stands there. -/
  | item {c b : UInt8} {u : Text} : Token.Item (c :: u) b →
    t.drop i = c :: u ++ t.drop (i + 1 + u.length) → Replies t i (.ok (.ok (b, u.length)))

theorem readCode_replies (h : t.drop i = 92 :: 120 :: rest) : Replies t i (readCode t i) := by
  have hlen := length_drop h
  have hrest := drop_succ (drop_succ h)
  unfold readCode
  rcases rest with _ | ⟨a, _ | ⟨b, rest⟩⟩
  · rw [if_pos (by simp at hlen; omega)]
    exact .fault (by rw [h]; rfl)
  · rw [if_pos (by simp at hlen; omega)]
    exact .fault (by rw [h]; rfl)
  · have hdigits : slice t (i + 2) (i + 4) = .ok [a, b] := slice_drop [b] hrest
    have hfound : slice t i (i + 4) = .ok [92, 120, a, b] := slice_drop [120, a, b] h
    rw [if_neg (by simp at hlen; omega), hdigits, ok_bind, hexByte?]
    cases hx : Text.hexValue? a with
    | none =>
      simp only [hfound, ok_bind]
      exact .fault (by simp [h, Token.unescape, hx])
    | some x =>
      cases hy : Text.hexValue? b with
      | none =>
        simp only [hfound, ok_bind]
        exact .fault (by simp [h, Token.unescape, hx, hy])
      | some y =>
        have hitem : Token.Item [92, 120, a, b] (16 * x + y).toUInt8 :=
          .code (Token.hexDigit_of_hexValue hx) (Token.hexDigit_of_hexValue hy)
        exact .item hitem (by rw [h, ← drop_succ (drop_succ hrest)]; rfl)

theorem readEscape_replies (h : t.drop i = 92 :: rest) : Replies t i (readEscape t i) := by
  have hlen := length_drop h
  unfold readEscape
  cases rest with
  | nil =>
    rw [if_pos (by simp at hlen; omega)]
    exact .fault (by rw [h]; rfl)
  | cons d rest =>
    have hd := drop_succ h
    have hafter : t.drop i = 92 :: d :: t.drop (i + 2) := by rw [h, drop_succ hd]
    rw [if_neg (by simp at hlen; omega), read_drop hd, ok_bind]
    split
    · exact .item .backslash hafter
    · exact .item .lineFeed hafter
    · exact .item .carriageReturn hafter
    · exact .item .tab hafter
    · exact readCode_replies h
    · next h92 h110 h114 h116 h120 =>
      have hfound : slice t i (i + 2) = .ok [92, d] := slice_drop [d] h
      rw [hfound, ok_bind]
      exact .fault (by rw [h, Token.unescape_unknown h92 h110 h114 h116 h120])

theorem readItem_replies {c : UInt8} (h : t.drop i = c :: rest) :
    Replies t i (readItem t i) := by
  rw [readItem, read_drop h, ok_bind]
  by_cases hc : c = 92
  · subst hc
    rw [if_pos rfl]
    exact readEscape_replies h
  · rw [if_neg hc]
    exact .item (.plain hc) (by rw [h, ← drop_succ h]; rfl)

/-- The items from a place on are read as the rest of the text is. The induction is on the number
of bytes that are left. -/
theorem readItems_eq (t : Text) (i : Nat) (out : Text) :
    readItems t i out = .ok ((Token.unescape (t.drop i)).map (out ++ ·)) := by
  induction hn : t.length - i using Nat.strong_induction_on generalizing i out with
  | _ n ih =>
    rw [readItems]
    rcases hrest : t.drop i with _ | ⟨c, rest⟩
    · have hend : ¬ i < t.length := by simpa using hrest
      rw [if_neg hend]
      simp [Token.unescape, Except.map]
    · have hlen := length_drop hrest
      have hreply := readItem_replies hrest
      rw [if_pos (by omega), ← hrest]
      generalize readItem t i = reply at hreply
      cases hreply with
      | fault hfault =>
        rw [hfault]
        rfl
      | @item c b u hitem hafter =>
        rw [hafter, hitem.unescape, ok_bind]
        dsimp only
        rw [ih _ (by omega) _ _ rfl]
        cases Token.unescape (t.drop (i + 1 + u.length)) with
        | error f => rfl
        | ok s => simp [Except.map]

/-- **Reading a token never leaves it**, and gives the text of the token or the fault in it. -/
theorem unescape_eq (t : Text) : unescape t = .ok (Token.unescape t) := by
  unfold unescape
  by_cases h : 92 ∈ t
  · rw [if_pos h, readItems_eq, List.drop_zero]
    cases Token.unescape t <;> rfl
  · rw [if_neg h, Token.unescape_of_notMem h]
    rfl

end Guarded

end Reckoner
