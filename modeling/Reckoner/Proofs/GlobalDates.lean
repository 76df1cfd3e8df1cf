import Mathlib.Tactic
import Reckoner.Builtin
import Reckoner.Expr.Evaluate
import Reckoner.Proofs.Broadcast
import Reckoner.Proofs.GlobalRuns
import Reckoner.Proofs.Refusals

/-!
# Computed points in time in the global context

Every operation on the global context reads it whole, so a value that is stored but cannot be read
back blocks the store. Points in time are the values that this can happen to: the sum of a storable
one and a span may lie outside of the years of four digits, which a text is written with but not
read with. The writers of binary forms refuse what they cannot keep.

So what is stored with a sum in it is served to everybody who asks later, in all modes but one; in
texts it is served if and only if the sum can be read.
-/

namespace Reckoner

open Run

/-! ### Requests of a program -/

namespace Expr

/-- Sets a global variable to the value of an expression. -/
def setGlobal (name : Text) (e : Expr) : Expr := .call "setglobal" [.const (some (.text name)), e]

/-- The value of a global variable. -/
def getGlobal (name : Text) : Expr := .call "getglobal" [.const (some (.text name))]

variable {env : Environment} {g : Global} {w w' : World}

theorem setGlobal_exec (henv : env.global = some g) (name : Text) {e : Expr} {v : Value}
    (he : (e.eval builtins env).exec w = (.ok (some v), w')) :
    ((setGlobal name e).eval builtins env).exec w =
      (do g.setVariable name v; return some v : Run (Option Value)).exec
        { w' with log := w'.log ++ [.called "setglobal" 2] } := by
  have hfind : builtins.find? "setglobal" = some Builtin.setGlobal := rfl
  obtain ⟨context, precision, global⟩ := env
  obtain rfl : global = some g := henv
  have hvalue : (Builtin.setGlobal.bindOne ⟨context, precision, some g⟩ 1
      ⟨e, e.eval builtins⟩).exec w = (.ok { value := some v }, w') := by
    rw [Function.bindOne, if_neg (by decide), exec_bind_ok he]
    rfl
  have hbind : (Builtin.setGlobal.bind ⟨context, precision, some g⟩ 0
      (deferAll builtins [.const (some (.text name)), e])).exec w =
        (.ok [{ value := some (.text name) }, { value := some v }], w') := by
    have hname : (Builtin.setGlobal.bindOne ⟨context, precision, some g⟩ 0
        ⟨const (some (.text name)), (const (some (.text name))).eval builtins⟩).exec w =
          (.ok { value := some (.text name) }, w) := by
      simp only [eval]
      rfl
    simp only [deferAll, Function.bind, bind_assoc, Nat.zero_add]
    rw [exec_bind_ok hname, exec_bind_ok hvalue]
    rfl
  have hcount : (Run.result (Builtin.setGlobal.checkCount 2)).exec w = (.ok (), w) := rfl
  rw [setGlobal, eval, hfind]
  simp only
  rw [Function.call]
  refine (exec_bind_ok hcount).trans ?_
  rw [exec_bind_ok hbind]
  rfl

theorem getGlobal_exec (henv : env.global = some g) (name : Text) (w : World) :
    ((getGlobal name).eval builtins env).exec w =
      (do return some (← g.getVariable name) : Run (Option Value)).exec
        { w with log := w.log ++ [.called "getglobal" 1] } := by
  have hfind : builtins.find? "getglobal" = some Builtin.getGlobal := rfl
  obtain ⟨context, precision, global⟩ := env
  obtain rfl : global = some g := henv
  rw [getGlobal, eval, hfind]
  simp only [deferAll, eval]
  rfl

end Expr

namespace Global

variable {bound : Layout} {m : StoredMap} {place : Place} {g : Global} {w w₁ : World} {name : Text}
  {slot : Slot} {bytes : Option Text} {t : DateTime}

/-! ### Who is served -/

/-- A handle with the usual tags is on the slot, and these bytes are at its place. -/
structure Finds (g : Global) (w : World) (slot : Slot) (place : Place) (bytes : Option Text) :
    Prop where
  /-- It is on the slot. -/
  slot_eq : g.slot = slot
  /-- It knows the usual tags. -/
  catalog : g.catalog = Catalog.values
  /-- The slot keeps its bytes at the place. -/
  keeps : slot.KeepsAt w.storage.databases.size place
  /-- These are the bytes there. -/
  bytes_eq : w.storage.bytes? place = bytes

/-- Whoever finds these bytes is served: the context is loaded, each of the names has a value, and
that of `name` is the instant `t`. -/
def Serves (slot : Slot) (place : Place) (bytes : Option Text) (names : List Text) (name : Text)
    (t : DateTime) : Prop :=
  ∀ (g : Global) (w : World) (env : Environment), g.Finds w slot place bytes →
    env.global = some g →
    (∃ c w', g.load.exec w = (.ok c, w')) ∧
    (∀ k ∈ names, ∃ v w', ((Expr.getGlobal k).eval builtins env).exec w = (.ok (some v), w')) ∧
    ∃ u w', ((Expr.getGlobal name).eval builtins env).exec w = (.ok (some (.dateTime u)), w') ∧
      u.same t

/-- The variables of a map that is held are found. -/
theorem getVariable_held (hslot : g.slot.KeepsAt w.storage.databases.size place)
    (hcatalog : g.catalog = Catalog.values) (hm : m.HeldIn (w.storage.bytes? place)) {s : Snapshot}
    (hs : m.lookup name = some s) : ∃ v w', (g.getVariable name).exec w = (.ok v, w') ∧
      w'.heap.Shows (w'.heap.Since w.heap.contexts.size) v s := by
  obtain ⟨c, w', hload, -, hloaded⟩ := load_held hslot hcatalog hm
  have hlookup := hloaded.lookup name
  rw [hs] at hlookup
  cases hv : w'.heap.lookup c name with
  | none =>
    rw [hv] at hlookup
    cases hlookup
  | some v =>
    rw [hv] at hlookup
    cases hlookup with
    | some hshows =>
      refine ⟨v, w', ?_, hshows⟩
      rw [getVariable, exec_bind_ok hload, exec_bind_ok (exec_heap _), hv]
      rfl

/-- **A map that is held is served.** -/
theorem serves_of_held (hm : m.HeldIn bytes) {u : DateTime}
    (hu : m.lookup name = some (.leaf (.dateTime u))) (hsame : u.same t) :
    Serves slot place bytes (m.map (·.1)) name t := by
  rintro g w env ⟨rfl, hcatalog, hslot, rfl⟩ henv
  have hget : ∀ k s, m.lookup k = some s → ∃ v w',
      ((Expr.getGlobal k).eval builtins env).exec w = (.ok (some v), w') ∧
        w'.heap.Shows (w'.heap.Since w.heap.contexts.size) v s := by
    intro k s hs
    obtain ⟨v, w', hexec, hshows⟩ := getVariable_held
      (w := { w with log := w.log ++ [.called "getglobal" 1] }) hslot hcatalog hm hs
    exact ⟨v, w', by rw [Expr.getGlobal_exec henv, exec_bind_ok hexec]; rfl, hshows⟩
  refine ⟨?_, ?_, ?_⟩
  · obtain ⟨c, w', hload, -⟩ := load_held hslot hcatalog hm
    exact ⟨c, w', hload⟩
  · intro k hk
    obtain ⟨s, hs⟩ := Option.isSome_iff_exists.mp ((lookup_isSome_iff k m).mpr hk)
    obtain ⟨v, w', hexec, -⟩ := hget k s hs
    exact ⟨v, w', hexec⟩
  · obtain ⟨v, w', hexec, hshows⟩ := hget name _ hu
    obtain rfl := Heap.shows_leaf hshows
    exact ⟨u, w', hexec, hsame⟩

/-! ### Texts that nobody can load -/

/-- **A text with a point in time that is refused cannot be loaded**, whatever else is in it. -/
theorem load_misdated (hslot : g.slot.KeepsAt w.storage.databases.size place)
    (hcatalog : g.catalog = Catalog.values) {mode : Mode} (hmode : mode ∈ Mode.named)
    (hlayout : mode.layout = .lines)
    (hbytes : w.storage.bytes? place = some (Stream.assemble mode Stream.defaultName
      ((Snapshot.context m).bytes mode.layout)))
    (hlen : m.length < 2 ^ 63)
    (hm : ∀ b ∈ m, b.1.length ≤ 2 ^ 28 ∧ b.2.Kept .lines ∨ b.2.Misdated)
    (hstop : ∃ b ∈ m, b.2.Misdated) : ∃ e w', g.load.exec w = (.error e, w') := by
  have hname : Stream.defaultName.length ≤ 2 ^ 28 := by decide
  obtain ⟨r, layout, hstart, hbefore, hlayout', -, -⟩ :=
    Reader.start_assemble hmode hname [Snapshot.context m]
  obtain rfl := hlayout' (by simp)
  rw [hlayout] at hbefore
  have hpieces : [Snapshot.context m].flatMap Snapshot.pieces
      = (Snapshot.context m).pieces ++ [] := by simp
  rw [hpieces] at hbefore
  have hfuel : (Snapshot.context m).pieces.length ≤ r.decoder.size + 1 := by
    have hsize := Decoder.length_le_size hbefore.decoder
    rw [List.length_append] at hsize
    omega
  obtain ⟨e, cur, hexec⟩ := readRecord_context_refuses hlen hfuel hm hstop [] r.decoder w.heap
    hbefore.decoder
  have hrecord : r.record.exec ⟨r.decoder, w.heap⟩ = (.error e, cur) := by
    rw [Reader.record, hbefore.catalog, hbefore.version]
    exact hexec
  have hreader : g.reader (.ok (Stream.assemble mode Stream.defaultName
      ((Snapshot.context m).bytes mode.layout))) = .ok r := by
    have hbody : [Snapshot.context m].flatMap (Snapshot.bytes mode.layout)
        = (Snapshot.context m).bytes mode.layout := by simp
    rw [hbody] at hstart
    rw [reader, hcatalog]
    exact hstart
  rw [load_exec, hslot.openRead_some hbytes]
  dsimp only
  rw [hreader]
  dsimp only
  rw [Reader.next_exec, hrecord]
  exact ⟨_, _, rfl⟩

/-! ### Storing a point in time -/

section

variable (hmode : g.mode ∈ Mode.named) (hcatalog : g.catalog = Catalog.values)
  (hslot : g.slot.KeepsAt w.storage.databases.size place)
  (hm : m.IsIn bound (w.storage.bytes? place)) (hbound : bound.Narrower g.mode.layout)
  (hset : (g.setVariable name (.dateTime t)).exec w = (.ok (), w₁))

include hcatalog hslot hm hset

/-- What was stored is the stream of the map with the point in time, which can be written. -/
theorem setVariable_stored :
    w₁.storage.bytes? place = some (Stream.assemble g.mode Stream.defaultName
      ((Snapshot.context (m.put name (.leaf (.dateTime t)))).bytes g.mode.layout)) ∧
    (g.mode.layout = .packed → t.pack?.isSome) := by
  obtain ⟨c, w', hload, hstorage, hloaded⟩ := load_stored hslot hcatalog hm
  obtain ⟨-, hnodup, -⟩ := StoredMap.storable_iff.mp hm.storable
  have hnothing : ∀ u, ¬ w.heap.Holds (.dateTime t) u := by
    intro u hu
    cases hu
  have hold : ∀ d, w.heap.Reaches (.dateTime t) (.context d) → d < w.heap.contexts.size := by
    intro d hd
    rcases Relation.ReflTransGen.cases_head hd with heq | ⟨u, hu, -⟩
    · cases heq
    · exact absurd hu (hnothing u)
  have hshows : w.heap.Shows (fun _ => True) (.dateTime t) (.leaf (.dateTime t)) := .leaf rfl
  have hmap : (w'.heap.setVariable c name (.dateTime t)).HoldsMap c
      (m.put name (.leaf (.dateTime t))) := hloaded.set hnodup hshows hold
  rw [setVariable_exec hload] at hset
  obtain ⟨hbytes, hwritable⟩ := save_saved
    (w := { w' with heap := w'.heap.setVariable c name (.dateTime t) }) (hstorage ▸ hslot)
    hmap.shows hset
  refine ⟨hbytes, ?_⟩
  have hvars : ((w'.heap.setVariable c name (.dateTime t)).context c).vars
      = Context.setIn name (.dateTime t) (w'.heap.context c).vars := by
    rw [Heap.setVariable, Heap.context_update hloaded.since.2]
    rfl
  have hmem : (name, Value.dateTime t) ∈
      ((w'.heap.setVariable c name (.dateTime t)).context c).vars :=
    hvars ▸ Heap.mem_setIn_self name _ _
  exact hwritable (.dateTime t) (.single (.var hmem))

include hmode

/-- A point in time that no text is read with blocks the text that it was stored in: nobody can
load that, the handle itself to begin with. -/
theorem not_serves_misdated (hlines : g.mode.layout = .lines) (hroom : m.length + 1 < 2 ^ 63)
    (hothers : ∀ b ∈ m, b.1.length ≤ 2 ^ 28 ∧ b.2.Kept g.mode.layout)
    (hmisdated : Snapshot.Misdated (.leaf (.dateTime t))) {names : List Text} :
    ¬ Serves g.slot place (w₁.storage.bytes? place) names name t := by
  intro hserves
  obtain ⟨hbytes, -⟩ := setVariable_stored hcatalog hslot hm hset
  have hlen : (m.put name (.leaf (.dateTime t))).length < 2 ^ 63 :=
    (StoredMap.length_put_le m name _).trans_lt hroom
  have hdatabases : w₁.storage.databases.size = w.storage.databases.size := by
    have htouches := setVariable_touches hslot name (.dateTime t)
    rw [hset] at htouches
    exact htouches.only.databases
  have hslot' : g.slot.KeepsAt w₁.storage.databases.size place := by rwa [hdatabases]
  obtain ⟨⟨c, w', hload⟩, -, -⟩ := hserves g w₁ { context := 0, global := some g }
    ⟨rfl, hcatalog, hslot', rfl⟩ rfl
  obtain ⟨e', w'', hfail⟩ := load_misdated hslot' hcatalog hmode hlines hbytes hlen
    (fun b hb => by
      rcases StoredMap.mem_put hb with rfl | hb
      · exact .inr hmisdated
      · rw [← hlines]
        exact .inl (hothers b hb))
    ⟨_, StoredMap.mem_put_self m name _, hmisdated⟩
  rw [hload] at hfail
  cases hfail

/-- A point in time that the layout keeps is served from then on, with all other variables. -/
theorem serves_kept (hroom : m.length + 1 < 2 ^ 63) (hname : name.length ≤ 2 ^ 28)
    (hothers : ∀ b ∈ m, b.1.length ≤ 2 ^ 28 ∧ b.2.Kept g.mode.layout)
    (hkept : t.Kept g.mode.layout) :
    Serves g.slot place (w₁.storage.bytes? place)
      ((m.put name (.leaf (.dateTime t))).map (·.1)) name t := by
  obtain ⟨hbytes, -⟩ := setVariable_stored hcatalog hslot hm hset
  obtain ⟨-, hnodup, -⟩ := StoredMap.storable_iff.mp hm.storable
  have hlen : (m.put name (.leaf (.dateTime t))).length < 2 ^ 63 :=
    (StoredMap.length_put_le m name _).trans_lt hroom
  have hput : (Snapshot.context (m.put name (.leaf (.dateTime t)))).Kept g.mode.layout := by
    refine .context hlen (StoredMap.nodup_put hnodup name _) (fun b hb => ?_) fun b hb => ?_
    · rcases StoredMap.mem_put hb with rfl | hb
      · exact hname
      · exact (hothers b hb).1
    · rcases StoredMap.mem_put hb with rfl | hb
      · exact .leaf hkept
      · exact (hothers b hb).2
  have hheld : StoredMap.HeldIn (StoredMap.normal (m.put name (.leaf (.dateTime t)))
      g.mode.layout) (w₁.storage.bytes? place) := by
    rw [hbytes]
    exact .stream hmode hput rfl
  have hlookup : (StoredMap.normal (m.put name (.leaf (.dateTime t))) g.mode.layout).lookup name
      = some (.leaf (.dateTime (t.normal g.mode.layout))) := by
    refine (mem_iff_lookup ?_ (name, _)).mp ?_
    · rw [StoredMap.names_normal]
      exact StoredMap.nodup_put hnodup name _
    · exact List.mem_map.mpr ⟨_, StoredMap.mem_put_self m name _, rfl⟩
  rw [← StoredMap.names_normal _ g.mode.layout]
  exact serves_of_held hheld hlookup (DateTime.same_normal t g.mode.layout)

include hbound

/-- Where a point in time in its clock and in a zone of whole minutes was stored, everybody is
served from then on, but in a text only if it can be read. -/
theorem setVariable_dateTime (hroom : m.length + 1 < 2 ^ 63) (hname : name.length ≤ 2 ^ 28)
    (hseconds : -2 ^ 63 ≤ t.seconds ∧ t.seconds < 2 ^ 63) (hnanos : t.nanos < 10 ^ 9)
    (hzone : ∃ k : Int, t.zone.seconds = 60 * k) :
    Serves g.slot place (w₁.storage.bytes? place)
        ((m.put name (.leaf (.dateTime t))).map (·.1)) name t ↔
      (g.mode.layout = .lines → t.Recoverable) := by
  obtain ⟨-, hpack⟩ := setVariable_stored hcatalog hslot hm hset
  obtain ⟨k, hk⟩ := hzone
  obtain ⟨-, -, hall⟩ := StoredMap.storable_iff.mp hm.storable
  have hothers : ∀ b ∈ m, b.1.length ≤ 2 ^ 28 ∧ b.2.Kept g.mode.layout := by
    intro b hb
    obtain ⟨hbrief, hstorable⟩ := hall b hb
    exact ⟨hbrief, (hstorable.wider hbound).kept⟩
  constructor
  · intro hserves hlines
    by_contra hfar
    obtain ⟨e, hread⟩ := DateTime.read_unrecoverable hnanos hk hfar
    exact not_serves_misdated hmode hcatalog hslot hm hset hlines hroom hothers
      ⟨t, e, rfl, hread⟩ hserves
  · intro hread
    exact serves_kept hmode hcatalog hslot hm hset hroom hname hothers
      ((DateTime.kept_iff hseconds hnanos hk hpack).mpr hread)

end

end Global

/-! ### Sums -/

/-- **A sum of a point in time and a span that a program stores is served to everybody**, in a text
if and only if it can be read. Before, any values that the layout of the handle can hold may have
been stored, in any mode. -/
theorem Expr.setGlobal_sum {bound : Layout} {m : StoredMap} {place : Place} {g : Global}
    {env : Environment} {w w₁ : World} {name : Text} {d : DateTime} {s : Int64} {op : Operator}
    {r : Option Value} (henv : env.global = some g) (hmode : g.mode ∈ Mode.named)
    (hcatalog : g.catalog = Catalog.values)
    (hslot : g.slot.KeepsAt w.storage.databases.size place)
    (hm : m.IsIn bound (w.storage.bytes? place)) (hbound : bound.Narrower g.mode.layout)
    (hroom : m.length + 1 < 2 ^ 63) (hname : name.length ≤ 2 ^ 28) (hd : d.nanos < 10 ^ 9)
    (hzone : ∃ k : Int, d.zone.seconds = 60 * k) (hop : op = .plus ∨ op = .minus)
    (hset : ((setGlobal name (.binary op (.const (some (.dateTime d)))
      (.const (some (.timeSpan s))))).eval builtins env).exec w = (.ok r, w₁)) :
    ∃ t, r = some (.dateTime t) ∧
      (∀ names, op.outcome names (.dateTime d) (.timeSpan s) = .ok (.dateTime t)) ∧
      (Global.Serves g.slot place (w₁.storage.bytes? place)
          ((m.put name (.leaf (.dateTime t))).map (·.1)) name t ↔
        (g.mode.layout = .lines → t.Recoverable)) := by
  obtain ⟨span, houtcome, heval⟩ : ∃ span,
      (∀ names, op.outcome names (.dateTime d) (.timeSpan s) = .ok (.dateTime (d.add span))) ∧
      ((Expr.binary op (.const (some (.dateTime d))) (.const (some (.timeSpan s)))).eval builtins
        env).exec w = (.ok (some (.dateTime (d.add span))), { w with log := w.log ++ [] }) := by
    rcases hop with rfl | rfl
    · exact ⟨s, fun _ => rfl, by simp only [eval]; rfl⟩
    · exact ⟨-s, fun _ => rfl, by simp only [eval]; rfl⟩
  rw [setGlobal_exec henv name heval, exec_bind] at hset
  rcases hexec : (g.setVariable name (.dateTime (d.add span))).exec
    { w with log := w.log ++ [] ++ [.called "setglobal" 2] } with ⟨_ | ⟨⟩, w'⟩
  · rw [hexec] at hset
    cases hset
  · rw [hexec] at hset
    cases hset
    refine ⟨d.add span, rfl, houtcome, ?_⟩
    exact Global.setVariable_dateTime
      (w := { w with log := w.log ++ [] ++ [.called "setglobal" 2] }) hmode hcatalog hslot hm hbound
      hexec hroom hname (d.seconds_add_range span) (DateTime.nanos_add_lt hd span) hzone

/-- One hour before the year 10000. -/
def DateTime.lastHour : DateTime := .ofCivil ⟨9999, 12, 31⟩ 82800 0 .utc

/-- A program whose global context is a text in memory. -/
def Environment.inText : Environment :=
  { context := 0, global := some { slot := .memory 0, mode := .text } }

namespace Expr

/-- Stores what comes so many nanoseconds after the last hour. -/
def storeLater (span : Int64) : Expr :=
  setGlobal "a"
    (.binary .plus (.const (some (.dateTime .lastHour))) (.const (some (.timeSpan span))))

/-- Half an hour later is still in a year of four digits. -/
theorem halfHour_served : ∃ t w,
    ((storeLater 1800000000000).eval builtins .inText).exec {} = (.ok (some (.dateTime t)), w) ∧
      Global.Serves (.memory 0) (.cell 0) (w.storage.bytes? (.cell 0)) ["a"] "a" t := by
  obtain ⟨r, hr⟩ : ∃ r, (((storeLater 1800000000000).eval builtins .inText).exec {}).1 = .ok r :=
    ⟨_, rfl⟩
  have hnothing : StoredMap.IsIn [] .lines (({} : World).storage.bytes? (.cell 0)) := .nothing rfl
  obtain ⟨t, rfl, houtcome, hserves⟩ := setGlobal_sum rfl (by decide) rfl (.memory 0) hnothing
    (.inr rfl) (by decide) (by decide) (by decide) ⟨0, rfl⟩ (.inl rfl) (Prod.ext hr rfl)
  have hsum : Except.ok (Value.dateTime (DateTime.lastHour.add 1800000000000)) =
      (.ok (.dateTime t) : Except Error Value) := houtcome fun _ => []
  obtain rfl : DateTime.lastHour.add 1800000000000 = t := by
    injection hsum with hsum
    injection hsum
  exact ⟨_, _, Prod.ext hr rfl, hserves.mpr fun _ => by decide +kernel⟩

/-- Two hours later is stored, too, but then nobody can load what is stored. -/
theorem twoHours_not_served :
    DateTime.lastHour.Timely ∧ DateTime.lastHour.zone.seconds = 0 ∧
      (((storeLater 7200000000000).eval builtins .inText).exec {}).1.isOk = true ∧
      (((getGlobal "a").eval builtins .inText).exec
        (((storeLater 7200000000000).eval builtins .inText).exec {}).2).1.isOk = false :=
  ⟨⟨by decide, by decide, by decide +kernel⟩, by decide, by decide +kernel, by decide +kernel⟩

end Expr

end Reckoner
