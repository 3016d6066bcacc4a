import Mathlib.Data.Fintype.Basic
import Pingweave.Collector

/-!
# Collector workers on one Redis server

The HTTP collector and the ZeroMQ worker threads each run `process_collected_message` on their own
messages. Their steps are the single calls of the server; between two calls a worker computes on
its own.
-/

namespace Pingweave
namespace Collector
set_option autoImplicit false

/-- A worker before its next `get`, `set` or `xadd`. -/
inductive Worker where
  | idle
  | lines (protocol : Text) (results : List Text)
  | setting (protocol line : Text) (results : List Text)
  | checking (protocol line : Text) (results : List Text)
  deriving DecidableEq, Repr

/-- `ok` says whether the call of the server succeeds. -/
inductive Op where
  | receive (protocol : Text) (results : List Text)
  | get (ok : Bool)
  | set (ok : Bool)
  | xadd (ok : Bool)
  deriving DecidableEq, Repr

structure System (ι : Type) where
  redis : Redis
  workers : ι → Worker

def putLine (r : Redis) (protocol line : Text) : Redis where
  store := Function.update r.store (lineKey protocol (fields line)) (some (lineValue (fields line)))
  streams := r.streams

section Steps
variable (strptime : Text → Option DateTime)

def workerStep (r : Redis) : Worker → Op → Redis × Worker
  | .idle, .receive protocol results => (r, .lines protocol results)
  | .lines _ [], .get _ => (r, .idle)
  | .lines protocol (line :: results), .get ok =>
    if (fields line).length < 3 then (r, .lines protocol results)
    else if ok then
      match isNewer strptime (r.store (lineKey protocol (fields line))) (fields line) with
      | none => (r, .idle)
      | some true => (r, .setting protocol line results)
      | some false => (r, .checking protocol line results)
    else (r, .idle)
  | .setting protocol line results, .set ok =>
    if ok then (putLine r protocol line, .checking protocol line results) else (r, .idle)
  | .checking protocol line results, .xadd ok =>
    match checkStream protocol (fields line) with
    | none => (r, .idle)
    | some false => (r, .lines protocol results)
    | some true =>
      if ok then
        ({ r with streams := r.streams ++ [(streamName protocol, line)] }, .lines protocol results)
      else (r, .idle)
  | w, _ => (r, w)

variable {ι : Type} [DecidableEq ι]

def System.step (s : System ι) (a : ι × Op) : System ι :=
  let t := workerStep strptime s.redis (s.workers a.1) a.2
  ⟨t.1, Function.update s.workers a.1 t.2⟩

def System.init : System ι := ⟨emptyRedis, fun _ => .idle⟩

/-- The time stamps stored do not go back in this step. -/
def Forward (s : System ι) (a : ι × Op) : Prop :=
  ∀ key, ∃ before after, currTsEnd strptime (s.redis.store key) = some before ∧
    currTsEnd strptime ((s.step strptime a).redis.store key) = some after ∧ before ≤ after

/-- The key that a worker is about to set, and the time stamp that it found to be new. -/
def Worker.aboutToSet : Worker → Option (Text × DateTime)
  | .setting protocol line _ =>
    (newTsEnd strptime (fields line)).map fun ts => (lineKey protocol (fields line), ts)
  | _ => none

/-- A worker does not set a key to a newer time stamp than another worker is about to. -/
def NotOvertaking (s : System ι) (a : ι × Op) : Prop :=
  a.2 = .set true → ∀ p ∈ (s.workers a.1).aboutToSet strptime, ∀ w, w ≠ a.1 →
    ∀ q ∈ (s.workers w).aboutToSet strptime, q.1 = p.1 → p.2 ≤ q.2

instance [Fintype ι] (s : System ι) (a : ι × Op) : Decidable (NotOvertaking strptime s a) :=
  inferInstanceAs (Decidable (_ → ∀ p ∈ (s.workers a.1).aboutToSet strptime, ∀ w, w ≠ a.1 →
    ∀ q ∈ (s.workers w).aboutToSet strptime, _ → _))

/-- Stored values have time stamps, and a worker about to set a key has not been overtaken. -/
structure Ordered (s : System ι) : Prop where
  stored : ∀ key, ∃ cur, currTsEnd strptime (s.redis.store key) = some cur
  setting : ∀ w protocol line results, s.workers w = .setting protocol line results →
    ∃ cur new, currTsEnd strptime (s.redis.store (lineKey protocol (fields line))) = some cur ∧
      newTsEnd strptime (fields line) = some new ∧ cur ≤ new

end Steps

section Results
variable {strptime : Text → Option DateTime} {ι : Type}

theorem ordered_init : Ordered strptime (System.init : System ι) where
  stored := fun _ => ⟨0, rfl⟩
  setting := by
    intro w protocol line results h
    cases h

/-- A worker goes on to set a key only after it has found an older time stamp there. -/
theorem isNewer_eq_true {curr : Option Text} {data : List Text}
    (h : isNewer strptime curr data = some true) :
    ∃ cur new, currTsEnd strptime curr = some cur ∧ newTsEnd strptime data = some new ∧ cur < new := by
  obtain ⟨cur, new, hcur, hnew, hlt⟩ := isNewer_eq_some h
  exact ⟨cur, new, hcur, hnew, of_decide_eq_true hlt.symm⟩

theorem workerStep_cases (r : Redis) (wk : Worker) (op : Op) :
    (∃ protocol line results, wk = .setting protocol line results ∧ op = .set true ∧
      workerStep strptime r wk op = (putLine r protocol line, .checking protocol line results)) ∨
    ((workerStep strptime r wk op).1.store = r.store ∧
      ∀ protocol line results, (workerStep strptime r wk op).2 = .setting protocol line results →
        wk = .setting protocol line results ∨
          isNewer strptime (r.store (lineKey protocol (fields line))) (fields line) = some true) := by
  cases wk with
  | idle =>
    refine Or.inr ?_
    cases op <;> exact ⟨rfl, fun _ _ _ h => by cases h⟩
  | lines protocol results =>
    refine Or.inr ?_
    cases results with
    | nil => cases op <;> exact ⟨rfl, fun _ _ _ h => by cases h⟩
    | cons line results =>
      cases op with
      | get ok =>
        by_cases hlen : (fields line).length < 3
        · simp only [workerStep, if_pos hlen]
          exact ⟨trivial, fun _ _ _ h => by cases h⟩
        · cases ok with
          | false =>
            simp only [workerStep, if_neg hlen, Bool.false_eq_true, if_false]
            exact ⟨trivial, fun _ _ _ h => by cases h⟩
          | true =>
            cases hn : isNewer strptime (r.store (lineKey protocol (fields line))) (fields line) with
            | none =>
              simp only [workerStep, if_neg hlen, if_true, hn]
              exact ⟨trivial, fun _ _ _ h => by cases h⟩
            | some newer =>
              cases newer with
              | false =>
                simp only [workerStep, if_neg hlen, if_true, hn]
                exact ⟨trivial, fun _ _ _ h => by cases h⟩
              | true =>
                simp only [workerStep, if_neg hlen, if_true, hn]
                refine ⟨trivial, fun _ _ _ h => ?_⟩
                cases h
                exact Or.inr hn
      | _ => exact ⟨rfl, fun _ _ _ h => by cases h⟩
  | setting protocol line results =>
    cases op with
    | set ok =>
      cases ok with
      | true => exact Or.inl ⟨protocol, line, results, rfl, rfl, rfl⟩
      | false => exact Or.inr ⟨rfl, fun _ _ _ h => by cases h⟩
    | _ => exact Or.inr ⟨rfl, fun _ _ _ h => Or.inl h⟩
  | checking protocol line results =>
    refine Or.inr ?_
    cases op with
    | xadd ok =>
      cases hc : checkStream protocol (fields line) with
      | none =>
        simp only [workerStep, hc]
        exact ⟨trivial, fun _ _ _ h => by cases h⟩
      | some xadd =>
        cases xadd <;> cases ok <;> simp [workerStep, hc]
    | _ => exact ⟨rfl, fun _ _ _ h => by cases h⟩

variable [DecidableEq ι]

/-- A step that leaves the entries alone and lets a worker at most reach a set that is in order. -/
theorem Ordered.of_store {s : System ι} (h : Ordered strptime s) (w : ι) {r : Redis} {wk : Worker}
    (hstore : r.store = s.redis.store)
    (hwk : ∀ protocol line results, wk = .setting protocol line results →
      ∃ cur new, currTsEnd strptime (s.redis.store (lineKey protocol (fields line))) = some cur ∧
        newTsEnd strptime (fields line) = some new ∧ cur ≤ new) :
    Ordered strptime ⟨r, Function.update s.workers w wk⟩ := by
  refine ⟨fun key => hstore ▸ h.stored key, ?_⟩
  intro v protocol line results hv
  simp only [hstore]
  by_cases hvw : v = w
  · subst hvw
    exact hwk protocol line results ((Function.update_self _ _ _).symm.trans hv)
  · exact h.setting v protocol line results ((Function.update_of_ne hvw _ _).symm.trans hv)

theorem Ordered.step {s : System ι} (h : Ordered strptime s) {a : ι × Op}
    (hno : NotOvertaking strptime s a) : Ordered strptime (s.step strptime a) := by
  obtain ⟨w, op⟩ := a
  rcases @workerStep_cases strptime s.redis (s.workers w) op with
    ⟨protocol, line, results, hwk, rfl, hstep⟩ | ⟨hstore, hsetting⟩
  · obtain ⟨cur, new, hcur, hnew, -⟩ := h.setting w protocol line results hwk
    have hput := currTsEnd_lineValue strptime (comma_not_mem_fields line) hnew
    have hself : ∀ key, lineKey protocol (fields line) = key →
        (putLine s.redis protocol line).store key = some (lineValue (fields line)) := by
      rintro key rfl
      exact Function.update_self _ _ _
    have hother : ∀ key, lineKey protocol (fields line) ≠ key →
        (putLine s.redis protocol line).store key = s.redis.store key :=
      fun key hne => Function.update_of_ne (Ne.symm hne) _ _
    unfold System.step
    rw [hstep]
    refine ⟨?_, ?_⟩
    · intro key
      simp only []
      by_cases hkey : lineKey protocol (fields line) = key
      · exact ⟨new, by rw [hself key hkey, hput]⟩
      · rw [hother key hkey]
        exact h.stored key
    · intro v protocol' line' results' hv
      simp only [] at hv ⊢
      by_cases hvw : v = w
      · subst hvw
        rw [Function.update_self] at hv
        cases hv
      · rw [Function.update_of_ne hvw] at hv
        obtain ⟨cur', new', hcur', hnew', hle⟩ := h.setting v protocol' line' results' hv
        by_cases hkey : lineKey protocol (fields line) = lineKey protocol' (fields line')
        · refine ⟨new, new', by rw [hself _ hkey, hput], hnew', ?_⟩
          have hp : (lineKey protocol (fields line), new) ∈ (s.workers w).aboutToSet strptime := by
            simp [hwk, Worker.aboutToSet, hnew]
          have hq : (lineKey protocol' (fields line'), new') ∈ (s.workers v).aboutToSet strptime := by
            simp [hv, Worker.aboutToSet, hnew']
          exact hno rfl _ hp v hvw _ hq hkey.symm
        · exact ⟨cur', new', by rw [hother _ hkey, hcur'], hnew', hle⟩
  · refine h.of_store w hstore ?_
    intro protocol line results hwk
    rcases hsetting protocol line results hwk with hold | hnewer
    · exact h.setting w protocol line results hold
    · obtain ⟨cur, new, hcur, hnew, hlt⟩ := isNewer_eq_true hnewer
      exact ⟨cur, new, hcur, hnew, Nat.le_of_lt hlt⟩

theorem Ordered.forward {s : System ι} (h : Ordered strptime s) (a : ι × Op) :
    Forward strptime s a := by
  obtain ⟨w, op⟩ := a
  intro key
  obtain ⟨before, hbefore⟩ := h.stored key
  rcases @workerStep_cases strptime s.redis (s.workers w) op with
    ⟨protocol, line, results, hwk, rfl, hstep⟩ | ⟨hstore, -⟩
  · by_cases hkey : key = lineKey protocol (fields line)
    · obtain ⟨cur, new, hcur, hnew, hle⟩ := h.setting w protocol line results hwk
      have hput := currTsEnd_lineValue strptime (comma_not_mem_fields line) hnew
      refine ⟨cur, new, hkey ▸ hcur, ?_, hle⟩
      unfold System.step
      rw [hstep, hkey]
      simp only [putLine, Function.update_self]
      exact hput
    · refine ⟨before, before, hbefore, ?_, Nat.le_refl before⟩
      unfold System.step
      rw [hstep]
      simp only [putLine, Function.update_of_ne hkey]
      exact hbefore
  · refine ⟨before, before, hbefore, ?_, Nat.le_refl before⟩
    have hs : (s.step strptime (w, op)).redis.store = s.redis.store := hstore
    rw [hs, hbefore]

theorem run_line (s : System ι) (w : ι) {protocol line : Text} {results : List Text}
    (hw : s.workers w = .lines protocol (line :: results)) :
    ∃ ops : List Op,
      (Runs.run (System.step strptime) s (ops.map fun op => (w, op))).redis =
          (processLine strptime s.redis protocol line).1 ∧
        (Runs.run (System.step strptime) s (ops.map fun op => (w, op))).workers w =
          if (processLine strptime s.redis protocol line).2 then .lines protocol results else .idle := by
  by_cases hlen : (fields line).length < 3
  · exact ⟨[.get true], by simp [System.step, workerStep, hw, processLine, hlen],
      by simp [System.step, workerStep, hw, processLine, hlen]⟩
  cases hn : isNewer strptime (s.redis.store (lineKey protocol (fields line))) (fields line) with
  | none =>
    exact ⟨[.get true], by simp [System.step, workerStep, hw, processLine, hlen, hn],
      by simp [System.step, workerStep, hw, processLine, hlen, hn]⟩
  | some newer =>
    refine ⟨.get true :: (if newer then [.set true] else []) ++ [.xadd true], ?_⟩
    cases newer <;> cases hc : checkStream protocol (fields line) with
    | none => simp [System.step, workerStep, hw, processLine, hlen, hn, hc, putLine]
    | some xadd => cases xadd <;> simp [System.step, workerStep, hw, processLine, hlen, hn, hc, putLine]

/-- A worker that is alone on the server does what `processCollectedMessage` does. -/
theorem run_alone (s : System ι) (w : ι) (protocol : Text) (results : List Text)
    (hw : s.workers w = .lines protocol results) :
    ∃ ops : List Op,
      (Runs.run (System.step strptime) s (ops.map fun op => (w, op))).redis =
        processCollectedMessage strptime s.redis protocol results := by
  induction results generalizing s with
  | nil => exact ⟨[], rfl⟩
  | cons line results ih =>
    obtain ⟨ops, hredis, hworker⟩ := @run_line strptime _ _ s w _ _ _ hw
    rcases hline : processLine strptime s.redis protocol line with ⟨r, more⟩
    rw [hline] at hredis hworker
    cases more with
    | false => exact ⟨ops, by rw [hredis, processCollectedMessage, hline]⟩
    | true =>
      obtain ⟨ops', hredis'⟩ := ih _ hworker
      refine ⟨ops ++ ops', ?_⟩
      rw [List.map_append, Runs.run_append, hredis', hredis, processCollectedMessage, hline]

end Results

/-- In a run in which no worker overtakes another on a key, no step takes a time stamp back. -/
theorem store_forward (strptime : Text → Option DateTime) {ι : Type} [DecidableEq ι]
    (as : List (ι × Op)) (hno : Runs.Along (System.step strptime) (NotOvertaking strptime) System.init as) :
    Runs.Along (System.step strptime) (Forward strptime) System.init as := by
  have hstep : ∀ (s : System ι) a, Ordered strptime s → NotOvertaking strptime s a →
      Ordered strptime (s.step strptime a) := fun _ _ h ha => h.step ha
  exact Runs.along_of_invariant hstep (fun _ a h _ => h.forward a) ordered_init hno

/-- A line that ends at the given second. -/
def lineAt (second : Char) : Text :=
  "10.0.0.1,10.0.0.2,2024-05-01 12:34:00.000000,2024-05-01 12:35:0".toList ++
    second :: ".000000,5,0,0,network,1,2,3,4,5".toList

/-- Worker `w` receives a message of one line and asks for its key. -/
def fetch (w : Bool) (second : Char) : List (Bool × Op) :=
  [(w, .receive "udp".toList [lineAt second]), (w, .get true)]

def inOrder : List (Bool × Op) :=
  fetch false '1' ++ fetch true '2' ++ [(false, .set true), (true, .set true)]

theorem store_forward_inOrder :
    currTsEnd strptimeMicros ((Runs.run (System.step strptimeMicros) System.init inOrder).redis.store
      "udp,10.0.0.1,10.0.0.2".toList) = some 63850163702000000 ∧
      Runs.Along (System.step strptimeMicros) (Forward strptimeMicros) System.init inOrder :=
  ⟨by decide +kernel, store_forward strptimeMicros inOrder (by decide +kernel)⟩

/-- The worker with the older line sets the key last. -/
def outOfOrder : List (Bool × Op) :=
  fetch false '1' ++ fetch true '2' ++ [(true, .set true), (false, .set true)]

theorem not_store_forward : ¬ ∀ as : List (Bool × Op),
    Runs.Along (System.step strptimeMicros) (Forward strptimeMicros) System.init as := by
  intro h
  have hlast := Runs.along_iff.mp (h outOfOrder) 5 (false, .set true) rfl
  obtain ⟨before, after, hbefore, hafter, hle⟩ := hlast "udp,10.0.0.1,10.0.0.2".toList
  have hnewer : currTsEnd strptimeMicros ((Runs.run (System.step strptimeMicros) System.init
      (outOfOrder.take 5)).redis.store "udp,10.0.0.1,10.0.0.2".toList) = some 63850163702000000 := by
    decide +kernel
  have holder : currTsEnd strptimeMicros ((Runs.run (System.step strptimeMicros) System.init
      outOfOrder).redis.store "udp,10.0.0.1,10.0.0.2".toList) = some 63850163701000000 := by
    decide +kernel
  have hb := Option.some.inj (hbefore.symm.trans hnewer)
  have ha := Option.some.inj (hafter.symm.trans holder)
  rw [hb, ha] at hle
  exact absurd hle (by decide)

end Collector
end Pingweave
