import Pingweave.Collector
import Pingweave.Library.LastWriter

/-!
# Reports in any order

Sequential calls of `process_collected_message` on well-formed lines. The store is a family of
registers in which the greatest `ts_end` wins, so what it holds in the end does not depend on the
order of the lines, on the batches or on repetitions.
-/

namespace Pingweave
namespace Collector
open LastWriter
set_option autoImplicit false

section Ingestion
variable (strptime : Text → Option DateTime)

def ingest (r : Redis) (call : Text × List Text) : Redis := processCollectedMessage strptime r call.1 call.2

/-- Calls with one protocol, one after the other. -/
def ingestAll (protocol : Text) (r : Redis) (batches : List (List Text)) : Redis :=
  Runs.run (ingest strptime) r (batches.map fun results => (protocol, results))

/-- A store that calls have made, whatever their lines and protocols were. -/
def Ingested (r : Redis) : Prop := ∃ calls, r = Runs.run (ingest strptime) emptyRedis calls

def turn (protocol : Text) (r : Redis) (line : Text) : Redis := (processLine strptime r protocol line).1

/-- Every stored value has a time stamp that parses. -/
def StampsParse (r : Redis) : Prop := ∀ key, (currTsEnd strptime (r.store key)).isSome

/-- The stored time stamps parse before and after, and none has decreased. -/
def StampsGrow (r r' : Redis) : Prop :=
  ∀ key, ∃ cur cur', currTsEnd strptime (r.store key) = some cur ∧
    currTsEnd strptime (r'.store key) = some cur' ∧ cur ≤ cur'

/-- What `key` holds after the lines of `L`: the value of its line with the greatest `ts_end`, or
what it held before if no line is newer than that. -/
inductive Newest (protocol : Text) (L : Set Text) (before : Option Text) (key : Text) : Option Text → Prop
  | kept (cur : DateTime) (parsed : currTsEnd strptime before = some cur)
      (noneNewer : ∀ line ∈ L, lineKey protocol (fields line) = key → ∀ ts,
        newTsEnd strptime (fields line) = some ts → ts ≤ cur) : Newest protocol L before key before
  | stored (cur ts : DateTime) (line : Text) (parsed : currTsEnd strptime before = some cur) (mem : line ∈ L)
      (ofKey : lineKey protocol (fields line) = key) (stamp : newTsEnd strptime (fields line) = some ts)
      (newer : cur < ts)
      (greatest : ∀ line' ∈ L, lineKey protocol (fields line') = key → ∀ ts',
        newTsEnd strptime (fields line') = some ts' → ts' ≤ ts) :
      Newest protocol L before key (some (lineValue (fields line)))

variable {strptime} {protocol : Text} {r : Redis}

/-- A turn leaves everything alone, or it compares the time stamps, stores the line if it is newer and
adds it to the stream if it is to be. -/
theorem turn_cases (strptime : Text → Option DateTime) (protocol : Text) (r : Redis) (line : Text) :
    turn strptime protocol r line = r ∨
    ∃ cur ts, currTsEnd strptime (r.store (lineKey protocol (fields line))) = some cur ∧
      newTsEnd strptime (fields line) = some ts ∧ turn strptime protocol r line =
        ⟨if cur < ts then Function.update r.store (lineKey protocol (fields line)) (some (lineValue (fields line)))
          else r.store,
        if checkStream protocol (fields line) = some true then r.streams ++ [(streamName protocol, line)]
          else r.streams⟩ := by
  unfold turn
  by_cases hlen : (fields line).length < 3
  · rw [processLine_short hlen]
    exact Or.inl rfl
  · cases hnewer : isNewer strptime (r.store (lineKey protocol (fields line))) (fields line) with
    | none =>
      rw [processLine_raised hlen hnewer]
      exact Or.inl rfl
    | some newer =>
      obtain ⟨cur, ts, hcur, hts, hlt⟩ := isNewer_eq_some hnewer
      refine Or.inr ⟨cur, ts, hcur, hts, ?_⟩
      simp only [processLine_compared hlen hnewer, hlt, decide_eq_true_eq]

/-- A turn leaves the store alone or sets one key to a newer value. -/
theorem turn_store (strptime : Text → Option DateTime) (protocol : Text) (r : Redis) (line : Text) :
    (turn strptime protocol r line).store = r.store ∨
    ∃ cur ts, currTsEnd strptime (r.store (lineKey protocol (fields line))) = some cur ∧
      newTsEnd strptime (fields line) = some ts ∧ cur < ts ∧ (turn strptime protocol r line).store =
        Function.update r.store (lineKey protocol (fields line)) (some (lineValue (fields line))) := by
  rcases turn_cases strptime protocol r line with hsame | ⟨cur, ts, hcur, hts, hturn⟩
  · rw [hsame]
    exact Or.inl rfl
  · rw [hturn]
    by_cases hlt : cur < ts
    · exact Or.inr ⟨cur, ts, hcur, hts, hlt, if_pos hlt⟩
    · exact Or.inl (if_neg hlt)

theorem turn_stamp {key : Text} {cur : DateTime} (hcur : currTsEnd strptime (r.store key) = some cur)
    (protocol line : Text) :
    ∃ cur', currTsEnd strptime ((turn strptime protocol r line).store key) = some cur' ∧ cur ≤ cur' := by
  rcases turn_store strptime protocol r line with hsame | ⟨old, ts, hold, hts, hlt, hset⟩
  · rw [hsame]
    exact ⟨cur, hcur, Nat.le_refl cur⟩
  · rw [hset]
    by_cases hkey : key = lineKey protocol (fields line)
    · subst hkey
      rw [Function.update_self, currTsEnd_lineValue strptime (comma_not_mem_fields line) hts]
      rw [hold] at hcur
      cases hcur
      exact ⟨ts, rfl, Nat.le_of_lt hlt⟩
    · rw [Function.update_of_ne hkey]
      exact ⟨cur, hcur, Nat.le_refl cur⟩

theorem StampsParse.turn (h : StampsParse strptime r) (protocol line : Text) :
    StampsGrow strptime r (turn strptime protocol r line) := by
  intro key
  obtain ⟨cur, hcur⟩ := Option.isSome_iff_exists.mp (h key)
  obtain ⟨cur', hcur', hle⟩ := turn_stamp hcur protocol line
  exact ⟨cur, cur', hcur, hcur', hle⟩

theorem StampsGrow.parse {r' : Redis} (h : StampsGrow strptime r r') : StampsParse strptime r' := by
  intro key
  obtain ⟨_, cur', -, hcur', -⟩ := h key
  exact Option.isSome_iff_exists.mpr ⟨cur', hcur'⟩

theorem StampsParse.process (h : StampsParse strptime r) (protocol : Text) (results : List Text) :
    StampsParse strptime (processCollectedMessage strptime r protocol results) := by
  induction results generalizing r with
  | nil => exact h
  | cons line results ih =>
    have hturn := (h.turn protocol line).parse
    rw [processCollectedMessage_cons]
    split
    · exact ih hturn
    · exact hturn

theorem Ingested.parse (h : Ingested strptime r) : StampsParse strptime r := by
  obtain ⟨calls, rfl⟩ := h
  have hempty : StampsParse strptime emptyRedis := fun _ => rfl
  exact Runs.run_invariant (fun _ call hr => hr.process call.1 call.2) hempty calls

/-- The key and the time stamp of a line, as an item of the registers. -/
def itemKey (protocol line : Text) : Text := lineKey protocol (fields line)

def itemStamp (strptime : Text → Option DateTime) (line : Text) : DateTime :=
  (newTsEnd strptime (fields line)).getD 0

/-- The registers hold what the store does, which had `before` in it at the start. -/
def Represents (strptime : Text → Option DateTime) (before : Text → Option Text) (r : Redis)
    (regs : Registers Text Text DateTime) : Prop :=
  ∀ key, currTsEnd strptime (r.store key) = some (regs key).1 ∧
    r.store key = match (regs key).2 with
      | none => before key
      | some line => some (lineValue (fields line))

/-- A turn for a well-formed line is a write to its register. -/
theorem Represents.turn {before : Text → Option Text} {regs : Registers Text Text DateTime}
    (h : Represents strptime before r regs) {line : Text} (htaken : ∃ ts, Taken strptime protocol line ts) :
    Represents strptime before (turn strptime protocol r line)
      (write (itemKey protocol) (itemStamp strptime) regs line) := by
  obtain ⟨ts, htaken⟩ := htaken
  have hstamp : itemStamp strptime line = ts := by
    rw [itemStamp, htaken.stamp, Option.getD_some]
  have hstore := (processLine_of_taken htaken (h (lineKey protocol (fields line))).1).2
  intro key
  by_cases hkey : lineKey protocol (fields line) = key
  · subst hkey
    have hwrite := write_self (itemKey protocol) (itemStamp strptime) regs line
    rw [hstamp] at hwrite
    rw [Collector.turn, hstore, ← itemKey, hwrite]
    split
    · rw [Function.update_self]
      exact ⟨currTsEnd_lineValue strptime (comma_not_mem_fields line) htaken.stamp, rfl⟩
    · exact h _
  · have hother : itemKey protocol line ≠ key := hkey
    rw [write_of_ne (itemKey protocol) (itemStamp strptime) hother, Collector.turn, hstore]
    have hold : (if (regs (lineKey protocol (fields line))).1 < ts then
        Function.update r.store (lineKey protocol (fields line)) (some (lineValue (fields line)))
        else r.store) key = r.store key := by
      split
      · exact Function.update_of_ne (Ne.symm hkey) _ _
      · rfl
    rw [hold]
    exact h key

def registers (strptime : Text → Option DateTime) (r : Redis) : Registers Text Text DateTime :=
  fun key => ((currTsEnd strptime (r.store key)).getD 0, none)

theorem represents_registers (h : StampsParse strptime r) :
    Represents strptime r.store r (registers strptime r) := by
  intro key
  obtain ⟨cur, hcur⟩ := Option.isSome_iff_exists.mp (h key)
  simp only [registers, hcur, Option.getD_some, and_self]

/-- On well-formed lines a call is its turns, one after the other. -/
theorem processCollectedMessage_eq_run {results : List Text} {before : Text → Option Text}
    {regs : Registers Text Text DateTime} (h : Represents strptime before r regs)
    (htaken : ∀ line ∈ results, ∃ ts, Taken strptime protocol line ts) :
    processCollectedMessage strptime r protocol results = Runs.run (turn strptime protocol) r results := by
  induction results generalizing r regs with
  | nil => rfl
  | cons line results ih =>
    obtain ⟨ts, hline⟩ := htaken line List.mem_cons_self
    have hgo := (processLine_of_taken hline (h (lineKey protocol (fields line))).1).1
    rw [processCollectedMessage_cons, if_pos hgo]
    exact ih (h.turn ⟨ts, hline⟩) fun l hl => htaken l (List.mem_cons_of_mem line hl)

theorem Represents.run {lines : List Text} {before : Text → Option Text} {regs : Registers Text Text DateTime}
    (h : Represents strptime before r regs) (htaken : ∀ line ∈ lines, ∃ ts, Taken strptime protocol line ts) :
    Represents strptime before (Runs.run (Collector.turn strptime protocol) r lines)
      (Runs.run (write (itemKey protocol) (itemStamp strptime)) regs lines) := by
  induction lines generalizing r regs with
  | nil => exact h
  | cons line lines ih =>
    exact ih (h.turn (htaken line List.mem_cons_self)) fun l hl => htaken l (List.mem_cons_of_mem line hl)

theorem ingestAll_eq_run {batches : List (List Text)} {before : Text → Option Text}
    {regs : Registers Text Text DateTime} (h : Represents strptime before r regs)
    (htaken : ∀ line ∈ batches.flatten, ∃ ts, Taken strptime protocol line ts) :
    ingestAll strptime protocol r batches = Runs.run (turn strptime protocol) r batches.flatten := by
  induction batches generalizing r regs with
  | nil => rfl
  | cons results batches ih =>
    rw [List.flatten_cons] at htaken ⊢
    have hfirst : ∀ line ∈ results, ∃ ts, Taken strptime protocol line ts :=
      fun line hl => htaken line (List.mem_append_left _ hl)
    have hcall := processCollectedMessage_eq_run h hfirst
    have hrest := ih (h.run hfirst) fun line hl => htaken line (List.mem_append_right _ hl)
    rw [← hcall] at hrest
    rw [Runs.run_append, ← hcall]
    exact hrest

theorem newest_of_latest {L : Set Text} {r₀ : Redis} (hparse : StampsParse strptime r₀)
    (hwell : ∀ line ∈ L, ∃ ts, Taken strptime protocol line ts) {regs : Registers Text Text DateTime}
    (h : Represents strptime r₀.store r regs) {key : Text}
    (hlatest : Latest (itemKey protocol) (itemStamp strptime) (registers strptime r₀ key) (· ∈ L) key (regs key)) :
    Newest strptime protocol L (r₀.store key) key (r.store key) := by
  obtain ⟨cur, hcur⟩ := Option.isSome_iff_exists.mp (hparse key)
  have hfirst : (registers strptime r₀ key).1 = cur := by
    rw [registers, hcur, Option.getD_some]
  have hstamp : ∀ line ts, newTsEnd strptime (fields line) = some ts → itemStamp strptime line = ts := by
    intro line ts hts
    rw [itemStamp, hts, Option.getD_some]
  have hstore := (h key).2
  generalize hx : regs key = x at hlatest hstore
  cases hlatest with
  | kept noneNewer =>
    rw [hstore]
    refine .kept cur hcur ?_
    intro line hl hkey ts hts
    have hle := noneNewer line hl hkey
    rwa [hfirst, hstamp line ts hts] at hle
  | taken line mem ofKey newer greatest =>
    obtain ⟨ts, htaken⟩ := hwell line mem
    rw [hstore]
    refine .stored cur ts line hcur mem ofKey htaken.stamp ?_ ?_
    · rwa [hfirst, hstamp line ts htaken.stamp] at newer
    · intro line' hl hkey ts' hts'
      have hle := greatest line' hl hkey
      rwa [hstamp line' ts' hts', hstamp line ts htaken.stamp] at hle

/-- Well-formed lines with time stamps of their own leave the same store in any order, any split
into batches and with any repetitions: the value of the newest line under each key. On the way no
stored time stamp decreases. -/
theorem ingestion_order_insensitive (strptime : Text → Option DateTime) (protocol : Text) (r₀ : Redis)
    (hr : Ingested strptime r₀) (L : Set Text) (hwell : ∀ line ∈ L, ∃ ts, Taken strptime protocol line ts)
    (hdistinct : ∀ line ∈ L, ∀ line' ∈ L, lineKey protocol (fields line) = lineKey protocol (fields line') →
      newTsEnd strptime (fields line) = newTsEnd strptime (fields line') → line = line')
    (batches : List (List Text)) (hall : ∀ line, line ∈ batches.flatten ↔ line ∈ L) :
    (∀ key, Newest strptime protocol L (r₀.store key) key ((ingestAll strptime protocol r₀ batches).store key)) ∧
    (∀ batches' : List (List Text), (∀ line, line ∈ batches'.flatten ↔ line ∈ L) →
      (ingestAll strptime protocol r₀ batches').store = (ingestAll strptime protocol r₀ batches).store) ∧
    ingestAll strptime protocol r₀ batches = Runs.run (turn strptime protocol) r₀ batches.flatten ∧
    Runs.Along (turn strptime protocol) (fun r line => StampsGrow strptime r (turn strptime protocol r line)) r₀
      batches.flatten := by
  have hparse := hr.parse
  have hstart := represents_registers hparse
  have hrun : ∀ bs : List (List Text), (∀ line, line ∈ bs.flatten ↔ line ∈ L) →
      ingestAll strptime protocol r₀ bs = Runs.run (turn strptime protocol) r₀ bs.flatten ∧
      Represents strptime r₀.store (ingestAll strptime protocol r₀ bs)
        (Runs.run (write (itemKey protocol) (itemStamp strptime)) (registers strptime r₀) bs.flatten) := by
    intro bs hbs
    have htaken : ∀ line ∈ bs.flatten, ∃ ts, Taken strptime protocol line ts :=
      fun line hl => hwell line ((hbs line).mp hl)
    have heq := ingestAll_eq_run hstart htaken
    refine ⟨heq, ?_⟩
    rw [heq]
    exact hstart.run htaken
  have hlatest : ∀ bs : List (List Text), (∀ line, line ∈ bs.flatten ↔ line ∈ L) → ∀ key,
      Latest (itemKey protocol) (itemStamp strptime) (registers strptime r₀ key) (· ∈ L) key
        (Runs.run (write (itemKey protocol) (itemStamp strptime)) (registers strptime r₀) bs.flatten key) := by
    intro bs hbs key
    have hset : (fun line => line ∈ bs.flatten) = (· ∈ L) := funext fun line => propext (hbs line)
    rw [← hset]
    exact latest_run _ _ key
  have hunique : ∀ line line', line ∈ L → line' ∈ L → itemKey protocol line = itemKey protocol line' →
      itemStamp strptime line = itemStamp strptime line' → line = line' := by
    intro line line' hl hl' hkey hstamp
    obtain ⟨ts, hts⟩ := hwell line hl
    obtain ⟨ts', hts'⟩ := hwell line' hl'
    rw [itemStamp, itemStamp, hts.stamp, hts'.stamp, Option.getD_some, Option.getD_some] at hstamp
    exact hdistinct line hl line' hl' hkey (by rw [hts.stamp, hts'.stamp, hstamp])
  refine ⟨?_, ?_, (hrun batches hall).1, ?_⟩
  · intro key
    exact newest_of_latest hparse hwell (hrun batches hall).2 (hlatest batches hall key)
  · intro batches' hall'
    funext key
    have hsame := (hlatest batches' hall' key).unique hunique (hlatest batches hall key)
    rw [((hrun batches' hall').2 key).2, ((hrun batches hall).2 key).2, hsame]
  · exact Runs.along_of_invariant (P := StampsParse strptime) (G := fun _ _ => True)
      (fun _ line hs _ => (hs.turn protocol line).parse) (fun _ line hs _ => hs.turn protocol line) hparse
      (Runs.along_of_forall_mem fun _ _ _ => trivial)

end Ingestion

/-- A TCP report for `b` that ends within a given second. -/
def secondLine (second : Char) : Text :=
  ['a', ',', 'b', ',', 's', ',', '2', '0', '2', '4', '-', '1', '2', '-', '0', '1', ' ', '1', '0', ':', '0', '0', ':',
    '0', second, '.', '0', '0', '0', '0', '0', '1', '0', '0', '0', ',', '1', ',', '0', ',', '0', ',', 'n', ',', '5']

theorem ingestion_order_insensitive_twoLines :
    (ingestAll strptimeMicros ['t', 'c', 'p'] emptyRedis [[secondLine '2', secondLine '1'], [secondLine '2']]).store =
      (ingestAll strptimeMicros ['t', 'c', 'p'] emptyRedis [[secondLine '1'], [secondLine '2']]).store := by
  have h1 : newTsEnd strptimeMicros (fields (secondLine '1')) = some 63868644001000001 := by decide +kernel
  have h2 : newTsEnd strptimeMicros (fields (secondLine '2')) = some 63868644002000001 := by decide +kernel
  let L : Set Text := {line | line = secondLine '1' ∨ line = secondLine '2'}
  have hL : ∀ line, line ∈ L ↔ line = secondLine '1' ∨ line = secondLine '2' := fun _ => Iff.rfl
  have hwell : ∀ line ∈ L, ∃ ts, Taken strptimeMicros ['t', 'c', 'p'] line ts := by
    intro line hline
    rcases hline with rfl | rfl
    · exact ⟨_, h1, by decide +kernel⟩
    · exact ⟨_, h2, by decide +kernel⟩
  have hdistinct : ∀ line ∈ L, ∀ line' ∈ L,
      lineKey ['t', 'c', 'p'] (fields line) = lineKey ['t', 'c', 'p'] (fields line') →
      newTsEnd strptimeMicros (fields line) = newTsEnd strptimeMicros (fields line') → line = line' := by
    intro line hline line' hline' _ hts
    rcases hline with rfl | rfl <;> rcases hline' with rfl | rfl
    · rfl
    · rw [h1, h2] at hts
      exact absurd (Option.some.inj hts) (by decide)
    · rw [h1, h2] at hts
      exact absurd (Option.some.inj hts) (by decide)
    · rfl
  refine (ingestion_order_insensitive strptimeMicros ['t', 'c', 'p'] emptyRedis ⟨[], rfl⟩ L hwell hdistinct
    [[secondLine '1'], [secondLine '2']] ?_).2.1 _ ?_
  · intro line
    rw [hL]
    simp
  · intro line
    rw [hL]
    simp
    grind

end Collector
end Pingweave
