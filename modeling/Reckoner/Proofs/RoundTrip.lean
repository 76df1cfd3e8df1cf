import Mathlib.Tactic
import Reckoner.Proofs.Streams

/-!
# Streams round trip

Values that can be stored are written to a stream of any mode, and reading the finished stream
gives them back in order: the same kinds, items and variables, in new contexts. A packed stream
gives back every value as it was; in a text, every word for no number is read as the same one, and
a zone without distance as universal time.
-/

namespace Reckoner

namespace Writer

variable {h : Heap} {vs : List Value}

/-- Values that can be stored are written one after another. -/
theorem putAll_values (w : Writer) (hvs : ∀ v ∈ vs, h.Storable w.mode.layout v) :
    ∃ ss, List.Forall₂ (h.Shows fun _ => True) vs ss ∧
      (∀ s ∈ ss, s.Storable w.mode.layout) ∧
      w.putAll (vs.map fun v w => w.putValue h (some v))
        = ({ w with body := w.body ++ ss.flatMap (Snapshot.bytes w.mode.layout) },
          vs.map fun _ => .ok ()) := by
  induction vs generalizing w with
  | nil => exact ⟨[], .nil, fun _ hs => (by cases hs), by simp [putAll]⟩
  | cons v vs ih =>
    obtain ⟨s, hs, hstorable, hwrite⟩ := (hvs v List.mem_cons_self).written
    have hput : w.putValue h (some v)
        = ({ w with body := w.body ++ s.bytes w.mode.layout }, .ok ()) := by
      rw [putValue, put, hwrite]
    obtain ⟨ss, hss, hall, hrest⟩ := ih { w with body := w.body ++ s.bytes w.mode.layout }
      fun u hu => hvs u (List.mem_cons_of_mem v hu)
    refine ⟨s :: ss, .cons hs hss, List.forall_mem_cons.mpr ⟨hstorable, hall⟩, ?_⟩
    rw [List.map_cons, putAll, hput]
    simp only [hrest, List.flatMap_cons, List.append_assoc, List.map_cons]

theorem create_named {mode : Mode} (hmode : mode ∈ Mode.named) (name : Text) {level : Int}
    (hlevel : -2 ≤ level ∧ level ≤ 9) : create mode name level = .ok { mode, name } := by
  have hlow : ¬ level < -2 := by omega
  have hhigh : ¬ 9 < level := by omega
  cases mode with
  | other code => simp [Mode.named] at hmode
  | _ => simp [create, hlow, hhigh]

end Writer

/-- **Streams round trip.** Whatever storable values are written to a stream in one of the modes,
writing succeeds, the finished stream is opened in its mode with its version and name, and reading
gives the values in order and then the end. -/
theorem stream_roundTrip {h : Heap} {mode : Mode} {name : Text} {level : Int} {vs : List Value}
    (hmode : mode ∈ Mode.named) (hname : name.length ≤ 2 ^ 28) (hlevel : -2 ≤ level ∧ level ≤ 9)
    (hvs : ∀ v ∈ vs, h.Storable mode.layout v) :
    ∃ (ss : List Snapshot) (w w' : Writer) (r : Reader),
      List.Forall₂ (h.Shows fun _ => True) vs ss ∧ Writer.create mode name level = .ok w ∧
      w.putAll (vs.map fun v w => w.putValue h (some v)) = (w', vs.map fun _ => .ok ()) ∧
      Reader.start Catalog.values w'.finish = .ok r ∧
      (mode ≠ .raw ∨ vs ≠ [] → r.mode = mode) ∧ r.version = 1 ∧
      (mode = .binary ∨ mode = .compressed → r.name = name) ∧
      ∀ (h' : Heap) (limit : Nat), vs.length < limit → ∃ ws h'',
        Reader.nextAll Reader.nextValue false limit r h'
          = (ws.map (fun v => .ok (some v)) ++ [.ok none], h'') ∧
        h'.Grows h'' ∧ List.Forall₂ (h''.Shows (h''.Since h'.contexts.size)) ws
          (ss.map (Snapshot.normal mode.layout)) := by
  obtain ⟨ss, hss, hstorable, hput⟩ := Writer.putAll_values { mode, name } hvs
  obtain ⟨r, layout, hstart, hbefore, hlayout, hdetect, hheader⟩ :=
    Reader.start_assemble hmode hname ss
  have hempty : vs ≠ [] → ss ≠ [] := by
    rintro hne rfl
    cases hss
    exact hne rfl
  refine ⟨ss, { mode, name }, _, r, hss, Writer.create_named hmode name hlevel, hput, hstart,
    fun hm => hdetect (hm.imp_right hempty), hbefore.version, hheader, fun h' limit hlimit => ?_⟩
  have hcount : ss.length < limit := by rwa [← hss.length_eq]
  by_cases hne : ss = []
  · subst hne
    exact Reader.nextAll_back (fun _ hs => (by cases hs)) hbefore hcount
  · obtain rfl := hlayout hne
    exact Reader.nextAll_back hstorable hbefore hcount

/-- A heap with one context that has one variable. -/
def Heap.oneVariable : Heap := ⟨#[{ vars := [("n", .int 7)] }], #[]⟩

theorem Heap.storable_oneVariable : oneVariable.Storable .packed (.context 0) := by
  refine .of_parts ⟨by decide, by decide, ?_⟩ ?_
  · intro name hname
    obtain rfl : name = "n" := List.mem_singleton.mp hname
    decide
  · rintro _ ⟨⟩
    rename_i w name hw
    obtain ⟨rfl, rfl⟩ : name = "n" ∧ w = .int 7 := Prod.mk.inj (List.mem_singleton.mp hw)
    exact .of_parts trivial fun u hu => by cases hu

/-- The theorem applies to a compressed stream of a context and a text. -/
theorem oneVariable_roundTrip : ∃ (w' : Writer) (r : Reader),
    Writer.putAll { mode := .compressed, name := "v" }
      [fun w => w.putValue Heap.oneVariable (some (.context 0)),
        fun w => w.putValue Heap.oneVariable (some (.text "a"))] = (w', [.ok (), .ok ()]) ∧
      Reader.start Catalog.values w'.finish = .ok r ∧ r.mode = .compressed ∧ r.name = "v" := by
  have hmode : Mode.compressed ∈ Mode.named := by decide
  have hname : (Text.ofString "v").length ≤ 2 ^ 28 := by decide
  have hlevel : (-2 : Int) ≤ 9 ∧ (9 : Int) ≤ 9 := by decide
  have hvs : ∀ v ∈ [.context 0, .text "a"],
      Heap.oneVariable.Storable Mode.compressed.layout v := by
    intro v hv
    rcases List.mem_cons.mp hv with rfl | hv
    · exact Heap.storable_oneVariable
    · have hfits : (Text.ofString "a").length ≤ 2 ^ 28 := by decide
      rw [List.mem_singleton.mp hv]
      exact .of_parts hfits fun u hu => by cases hu
  obtain ⟨_, w, w', r, -, hcreate, hput, hstart, hdetect, -, hheader, -⟩ :=
    stream_roundTrip hmode hname hlevel hvs
  cases hcreate
  exact ⟨w', r, hput, hstart, hdetect (.inl (by decide)), hheader (.inr rfl)⟩

/-- An instant in a zone twenty-five hours to the east. -/
def DateTime.farEast : DateTime := ⟨0, 0, .offset 90000⟩

/-- Whole minutes are not enough: a zone of twenty-five hours is written to a text, whose reader
refuses it, and one of more minutes than sixteen bits hold has no packed form. -/
theorem farEast_not_roundTrip :
    DateTime.farEast.Timely ∧ DateTime.farEast.zone.seconds = 60 * 1500 ∧
      (let p := Writer.putValue { mode := .text, name := [] } {} (some (.dateTime .farEast))
      p.2.isOk = true ∧ (Reader.start Catalog.values p.1.finish).toOption.map
        (fun r => (r.nextValue {}).1.isOk) = some false) ∧
      (Writer.putValue { mode := .binary, name := [] } {}
        (some (.dateTime ⟨0, 0, .offset (60 * 32768)⟩))).2.isOk = false := by
  refine ⟨⟨by decide, by decide, by decide +kernel⟩, by decide, ?_, by decide +kernel⟩
  exact ⟨by decide +kernel, by decide +kernel⟩

end Reckoner
