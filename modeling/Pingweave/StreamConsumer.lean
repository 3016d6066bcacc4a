import Mathlib.Data.Prod.Lex
import Pingweave.CollectorWorkers
import Pingweave.PinglistServers

/-!
# The stream of conspicuous results

`process_collected_message` adds the lines with failures or delays to a Redis stream per protocol,
and `ctrl_consumer.py` reads each stream in a thread of its own, which its monitor starts again
whenever it has died. The collectors, the threads and the monitor run side by side on one server.
-/

namespace Pingweave
open Collector
set_option autoImplicit false

/-- The id of a stream entry: milliseconds and a sequence number. -/
abbrev StreamId := Nat ×ₗ Nat

/-- `last_id` of the consumer before it has read anything. -/
def StreamId.zero : StreamId := toLex (0, 0)

/-- A stream of the server, with the ids that it has given out. -/
structure RedisStream where
  entries : List (StreamId × Text)
  last_generated_id : StreamId
  sorted : (entries.map Prod.fst).Pairwise (· < ·)
  positive : ∀ e ∈ entries, StreamId.zero < e.1
  generated : ∀ e ∈ entries, e.1 ≤ last_generated_id

namespace RedisStream

def empty : RedisStream where
  entries := []
  last_generated_id := StreamId.zero
  sorted := List.Pairwise.nil
  positive := fun _ he => absurd he List.not_mem_nil
  generated := fun _ he => absurd he List.not_mem_nil

/-- The id that the server gives out at the time `now_ms`. -/
def nextId (last : StreamId) (now_ms : Nat) : StreamId :=
  if (ofLex last).1 < now_ms then toLex (now_ms, 0) else toLex ((ofLex last).1, (ofLex last).2 + 1)

theorem lt_nextId (last : StreamId) (now_ms : Nat) : last < nextId last now_ms := by
  rw [nextId]
  split
  · rename_i h
    exact Prod.Lex.lt_iff.mpr (Or.inl h)
  · exact Prod.Lex.lt_iff.mpr (Or.inr ⟨rfl, Nat.lt_succ_self _⟩)

theorem zero_le (id : StreamId) : StreamId.zero ≤ id := by
  rcases Nat.eq_zero_or_pos (ofLex id).1 with hz | hpos
  · exact Prod.Lex.le_iff.mpr (Or.inr ⟨hz.symm, Nat.zero_le _⟩)
  · exact Prod.Lex.le_iff.mpr (Or.inl hpos)

def xadd (s : RedisStream) (now_ms : Nat) (message : Text) : RedisStream where
  entries := s.entries ++ [(nextId s.last_generated_id now_ms, message)]
  last_generated_id := nextId s.last_generated_id now_ms
  sorted := by
    rw [List.map_append, List.map_singleton, List.pairwise_append]
    refine ⟨s.sorted, List.pairwise_singleton _ _, ?_⟩
    intro id hid new hnew
    obtain ⟨e, he, rfl⟩ := List.mem_map.mp hid
    rw [List.mem_singleton.mp hnew]
    exact lt_of_le_of_lt (s.generated e he) (lt_nextId _ _)
  positive := by
    intro e he
    rcases List.mem_append.mp he with hold | hnew
    · exact s.positive e hold
    · rw [List.mem_singleton.mp hnew]
      exact lt_of_le_of_lt (zero_le s.last_generated_id) (lt_nextId _ _)
  generated := by
    intro e he
    rcases List.mem_append.mp he with hold | hnew
    · exact le_of_lt (lt_of_le_of_lt (s.generated e hold) (lt_nextId _ _))
    · rw [List.mem_singleton.mp hnew]

theorem xadd_entries (s : RedisStream) (now_ms : Nat) (message : Text) :
    (s.xadd now_ms message).entries = s.entries ++ [(nextId s.last_generated_id now_ms, message)] := rfl

/-- The first `count` entries behind `last_id`. -/
def xread (s : RedisStream) (last_id : StreamId) (count : Nat) : List (StreamId × Text) :=
  (s.entries.filter fun e => last_id < e.1).take count

end RedisStream

namespace StreamConsumer

/-- A consumer thread: before its connection, before its next `xread`, or in the loop over the
messages of one. -/
inductive Thread where
  | connecting
  | polling
  | handling (msgs : List (StreamId × Text))
  | dead

/-- `ok` says whether the call goes through or raises. -/
inductive Action (ι : Type) where
  | collect (i : ι) (op : Op) (now_ms : Nat)
  | connect (protocol : Text) (ok : Bool)
  | xread (protocol : Text) (ok : Bool)
  | handle (protocol : Text) (ok : Bool)
  | monitor (protocol : Text)

end StreamConsumer

/-- The collectors, the streams, and the consumer's threads with what they have received. The
`streams` of the collectors' server are the messages without their ids. -/
structure StreamConsumer (ι : Type) where
  collectors : System ι
  streams : Text → RedisStream
  last_id : Text → StreamId
  threads : Text → StreamConsumer.Thread
  received : Text → List (StreamId × Text)

namespace StreamConsumer
variable {ι : Type}

def init : StreamConsumer ι where
  collectors := System.init
  streams := fun _ => RedisStream.empty
  last_id := fun _ => StreamId.zero
  threads := fun protocol => if protocol ∈ TARGET_PROTOCOLS then .connecting else .dead
  received := fun _ => []

section Steps
variable (strptime : Text → Option DateTime) [DecidableEq ι]

/-- The messages that a step of the collectors has added, one at most. -/
def xaddAll (streams : Text → RedisStream) (now_ms : Nat) (added : List (Text × Text)) : Text → RedisStream :=
  added.foldl (fun streams m => Function.update streams m.1 ((streams m.1).xadd now_ms m.2)) streams

def step (s : StreamConsumer ι) : Action ι → StreamConsumer ι
  | .collect i op now_ms =>
    let collectors := s.collectors.step strptime (i, op)
    { s with
      collectors := collectors
      streams := xaddAll s.streams now_ms
        (collectors.redis.streams.drop s.collectors.redis.streams.length) }
  | .connect protocol ok =>
    match s.threads protocol with
    | .connecting =>
      { s with threads := Function.update s.threads protocol (if ok then .polling else .dead) }
    | _ => s
  | .xread protocol ok =>
    match s.threads protocol with
    | .polling =>
      if ok then
        match (s.streams (streamName protocol)).xread (s.last_id protocol) 100 with
        | [] => s
        | messages => { s with threads := Function.update s.threads protocol (.handling messages) }
      else { s with threads := Function.update s.threads protocol .dead }
    | _ => s
  | .handle protocol ok =>
    match s.threads protocol with
    | .handling [] => { s with threads := Function.update s.threads protocol .polling }
    | .handling (msg :: msgs) =>
      if ok then
        { s with
          last_id := Function.update s.last_id protocol msg.1
          threads := Function.update s.threads protocol (.handling msgs)
          received := Function.update s.received protocol (s.received protocol ++ [msg]) }
      else { s with threads := Function.update s.threads protocol .dead }
    | _ => s
  | .monitor protocol =>
    match s.threads protocol with
    | .dead =>
      if protocol ∈ TARGET_PROTOCOLS then
        { s with threads := Function.update s.threads protocol .connecting }
      else s
    | _ => s

abbrev run (s : StreamConsumer ι) (as : List (Action ι)) : StreamConsumer ι := Runs.run (step strptime) s as

end Steps

/-- What the thread of a protocol has received, and what it has still to read. -/
structure Reads (stream : RedisStream) (last_id : StreamId) (received : List (StreamId × Text))
    (thread : Thread) : Prop where
  rest : ∃ rest, stream.entries = received ++ rest ∧ (∀ e ∈ rest, last_id < e.1) ∧
    (∀ e ∈ received, e.1 ≤ last_id) ∧ ∀ msgs, thread = .handling msgs → msgs <+: rest
  generated : last_id ≤ stream.last_generated_id

namespace Reads
variable {stream : RedisStream} {last_id : StreamId} {received : List (StreamId × Text)} {thread : Thread}

theorem init (thread : Thread) (h : ∀ msgs, thread ≠ .handling msgs) :
    Reads RedisStream.empty StreamId.zero [] thread :=
  ⟨⟨[], rfl, nofun, nofun, fun msgs hmsgs => absurd hmsgs (h msgs)⟩, le_refl _⟩

theorem xadd (h : Reads stream last_id received thread) (now_ms : Nat) (message : Text) :
    Reads (stream.xadd now_ms message) last_id received thread := by
  obtain ⟨rest, hentries, hlater, hearlier, hmsgs⟩ := h.rest
  have hnew : last_id < RedisStream.nextId stream.last_generated_id now_ms :=
    lt_of_le_of_lt h.generated (RedisStream.lt_nextId _ _)
  refine ⟨⟨rest ++ [(RedisStream.nextId stream.last_generated_id now_ms, message)], ?_, ?_, hearlier, ?_⟩,
    le_of_lt hnew⟩
  · rw [RedisStream.xadd_entries, hentries, List.append_assoc]
  · intro e he
    rcases List.mem_append.mp he with hold | hlast
    · exact hlater e hold
    · rw [List.mem_singleton.mp hlast]
      exact hnew
  · intro msgs ht
    exact (hmsgs msgs ht).trans (List.prefix_append _ _)

/-- `xread` finds what has not been received. -/
theorem xread (h : Reads stream last_id received thread) (count : Nat) {rest : List (StreamId × Text)}
    (hentries : stream.entries = received ++ rest) : stream.xread last_id count = rest.take count := by
  obtain ⟨rest', hentries', hlater, hearlier, -⟩ := h.rest
  have hrest : rest' = rest := List.append_cancel_left (hentries'.symm.trans hentries)
  subst hrest
  rw [RedisStream.xread, hentries, List.filter_append, List.filter_eq_nil_iff.mpr, List.nil_append,
    List.filter_eq_self.mpr]
  · exact fun e he => decide_eq_true (hlater e he)
  · intro e he hlt
    exact not_lt_of_ge (hearlier e he) (of_decide_eq_true hlt)

theorem changeThread (h : Reads stream last_id received thread) {thread' : Thread}
    (hmsgs : ∀ msgs, thread' = .handling msgs → msgs = stream.xread last_id 100) :
    Reads stream last_id received thread' := by
  obtain ⟨rest, hentries, hlater, hearlier, -⟩ := h.rest
  refine ⟨⟨rest, hentries, hlater, hearlier, fun msgs ht => ?_⟩, h.generated⟩
  rw [hmsgs msgs ht, h.xread 100 hentries]
  exact List.take_prefix 100 rest

theorem handle {msg : StreamId × Text} {msgs : List (StreamId × Text)}
    (h : Reads stream last_id received (.handling (msg :: msgs))) :
    Reads stream msg.1 (received ++ [msg]) (.handling msgs) := by
  obtain ⟨rest, hentries, hlater, hearlier, hmsgs⟩ := h.rest
  obtain ⟨later, hrest⟩ := hmsgs _ rfl
  have hmem : msg ∈ stream.entries := by
    rw [hentries, ← hrest]
    exact List.mem_append_right _ List.mem_cons_self
  have hsorted := stream.sorted
  rw [hentries, ← hrest, List.cons_append, List.map_append, List.map_cons, List.pairwise_append,
    List.pairwise_cons] at hsorted
  obtain ⟨-, ⟨hafter, -⟩, hbefore⟩ := hsorted
  refine ⟨⟨msgs ++ later, ?_, ?_, ?_, ?_⟩, stream.generated msg hmem⟩
  · rw [hentries, ← hrest, List.append_assoc, List.cons_append, List.singleton_append]
  · exact fun e he => hafter e.1 (List.mem_map_of_mem he)
  · intro e he
    rcases List.mem_append.mp he with hold | hlast
    · exact le_of_lt (hbefore e.1 (List.mem_map_of_mem hold) msg.1 List.mem_cons_self)
    · rw [List.mem_singleton.mp hlast]
  · intro msgs' ht
    cases ht
    exact List.prefix_append _ _

end Reads

structure Inv (s : StreamConsumer ι) : Prop where
  reads : ∀ protocol, Reads (s.streams (streamName protocol)) (s.last_id protocol) (s.received protocol)
    (s.threads protocol)
  recorded : ∀ name, (s.streams name).entries.map Prod.snd =
    (s.collectors.redis.streams.filter fun m => m.1 = name).map Prod.snd
  conspicuous : ∀ m ∈ s.collectors.redis.streams, ∃ protocol, m.1 = streamName protocol ∧
    checkStream protocol (fields m.2) = some true

theorem init_inv : (init : StreamConsumer ι).Inv where
  reads := by
    intro protocol
    refine Reads.init _ fun msgs => ?_
    dsimp only [init]
    split
    · exact nofun
    · exact nofun
  recorded := fun _ => rfl
  conspicuous := fun _ hm => absurd hm List.not_mem_nil

section Preservation
variable {strptime : Text → Option DateTime}

/-- A step of a collector adds at most one message, a conspicuous one of its protocol. -/
theorem workerStep_streams (r : Redis) (wk : Worker) (op : Op) :
    (workerStep strptime r wk op).1.streams = r.streams ∨
      ∃ protocol line, checkStream protocol (fields line) = some true ∧
        (workerStep strptime r wk op).1.streams = r.streams ++ [(streamName protocol, line)] := by
  cases wk with
  | idle => cases op <;> exact Or.inl rfl
  | lines protocol results =>
    cases results with
    | nil => cases op <;> exact Or.inl rfl
    | cons line results =>
      cases op with
      | get ok =>
        left
        rw [workerStep]
        split
        · rfl
        · split
          · split <;> rfl
          · rfl
      | _ => exact Or.inl rfl
  | setting protocol line results =>
    cases op with
    | set ok =>
      left
      rw [workerStep]
      split <;> rfl
    | _ => exact Or.inl rfl
  | checking protocol line results =>
    cases op with
    | xadd ok =>
      rw [workerStep]
      split
      · exact Or.inl rfl
      · exact Or.inl rfl
      · rename_i hcheck
        split
        · exact Or.inr ⟨protocol, line, hcheck, rfl⟩
        · exact Or.inl rfl
    | _ => exact Or.inl rfl

theorem streamName_inj {p q : Text} (h : streamName p = streamName q) : p = q := List.append_cancel_left h

variable {s : StreamConsumer ι}

/-- A step of one thread. -/
theorem Inv.update (h : s.Inv) (protocol : Text) (last_id : StreamId) (thread : Thread)
    (received : List (StreamId × Text))
    (hreads : Reads (s.streams (streamName protocol)) last_id received thread) :
    Inv { s with
      last_id := Function.update s.last_id protocol last_id
      threads := Function.update s.threads protocol thread
      received := Function.update s.received protocol received } := by
  refine ⟨?_, h.recorded, h.conspicuous⟩
  intro q
  dsimp only
  by_cases hq : q = protocol
  · rw [hq, Function.update_self, Function.update_self, Function.update_self]
    exact hreads
  · rw [Function.update_of_ne hq, Function.update_of_ne hq, Function.update_of_ne hq]
    exact h.reads q

theorem Inv.goto (h : s.Inv) (protocol : Text) {thread : Thread}
    (hmsgs : ∀ msgs, thread = .handling msgs →
      msgs = (s.streams (streamName protocol)).xread (s.last_id protocol) 100) :
    Inv { s with threads := Function.update s.threads protocol thread } := by
  have hstep := h.update protocol (s.last_id protocol) thread (s.received protocol)
    ((h.reads protocol).changeThread hmsgs)
  rw [Function.update_eq_self, Function.update_eq_self] at hstep
  exact hstep

variable [DecidableEq ι]

theorem Inv.collect (h : s.Inv) (i : ι) (op : Op) (now_ms : Nat) :
    (s.step strptime (.collect i op now_ms)).Inv := by
  have hadded : ∀ added : List (Text × Text), (s.collectors.step strptime (i, op)).redis.streams =
      s.collectors.redis.streams ++ added →
      s.step strptime (.collect i op now_ms) = { s with
        collectors := s.collectors.step strptime (i, op)
        streams := xaddAll s.streams now_ms added } := by
    intro added hstreams
    rw [step, hstreams, List.drop_left]
  rcases @workerStep_streams strptime s.collectors.redis (s.collectors.workers i) op with
    hsame | ⟨protocol, line, hcheck, hnew⟩
  · rw [hadded [] (hsame.trans (List.append_nil _).symm)]
    refine ⟨h.reads, ?_, ?_⟩
    · intro name
      exact (h.recorded name).trans (by rw [← hsame]; rfl)
    · intro m hm
      exact h.conspicuous m (hsame ▸ hm)
  · rw [hadded [(streamName protocol, line)] hnew]
    have hstreams : (s.collectors.step strptime (i, op)).redis.streams =
        s.collectors.redis.streams ++ [(streamName protocol, line)] := hnew
    refine ⟨?_, ?_, ?_⟩
    · intro q
      dsimp only [xaddAll, List.foldl_cons, List.foldl_nil]
      by_cases hq : streamName q = streamName protocol
      · rw [hq, Function.update_self, ← hq]
        exact (h.reads q).xadd now_ms line
      · rw [Function.update_of_ne hq]
        exact h.reads q
    · intro name
      dsimp only [xaddAll, List.foldl_cons, List.foldl_nil]
      rw [hstreams, List.filter_append, List.map_append, ← h.recorded name]
      by_cases hname : name = streamName protocol
      · rw [hname, Function.update_self, RedisStream.xadd_entries, List.map_append,
          List.filter_cons_of_pos (by simp)]
        rfl
      · rw [Function.update_of_ne hname, List.filter_cons_of_neg (by simpa using Ne.symm hname)]
        exact (List.append_nil _).symm
    · intro m hm
      dsimp only at hm
      rw [hstreams] at hm
      rcases List.mem_append.mp hm with hold | hlast
      · exact h.conspicuous m hold
      · rw [List.mem_singleton.mp hlast]
        exact ⟨protocol, rfl, hcheck⟩

theorem Inv.step (h : s.Inv) (a : Action ι) : (s.step strptime a).Inv := by
  cases a with
  | collect i op now_ms => exact h.collect i op now_ms
  | connect protocol ok =>
    rw [StreamConsumer.step]
    split
    · cases ok with
      | true => exact h.goto protocol nofun
      | false => exact h.goto protocol nofun
    · exact h
  | xread protocol ok =>
    rw [StreamConsumer.step]
    split
    · split
      · split
        · exact h
        · exact h.goto protocol fun msgs hmsgs => (Thread.handling.inj hmsgs).symm
      · exact h.goto protocol nofun
    · exact h
  | handle protocol ok =>
    have hreads := h.reads protocol
    rw [StreamConsumer.step]
    split
    · exact h.goto protocol nofun
    · rename_i msg msgs ht
      rw [ht] at hreads
      split
      · exact h.update protocol msg.1 (.handling msgs) (s.received protocol ++ [msg]) hreads.handle
      · exact h.goto protocol nofun
    · exact h
  | monitor protocol =>
    rw [StreamConsumer.step]
    split
    · split
      · exact h.goto protocol nofun
      · exact h
    · exact h

end Preservation

/-- What the consumer makes of the streams. -/
structure Delivered (s : StreamConsumer ι) : Prop where
  /-- The stream of a protocol holds its conspicuous lines in the order in which they were added. -/
  recorded : ∀ protocol, (s.streams (streamName protocol)).entries.map Prod.snd =
    (s.collectors.redis.streams.filter fun m => m.1 = streamName protocol).map Prod.snd
  conspicuous : ∀ protocol, ∀ e ∈ (s.streams (streamName protocol)).entries,
    checkStream protocol (fields e.2) = some true
  /-- Its thread has received the first of them, each once, whatever threads died on the way. -/
  inOrder : ∀ protocol, s.received protocol <+: (s.streams (streamName protocol)).entries
  once : ∀ protocol, ((s.received protocol).map Prod.fst).Nodup
  /-- An `xread` finds the next hundred, and nothing only where nothing is missing. -/
  next : ∀ protocol, (s.streams (streamName protocol)).xread (s.last_id protocol) 100 =
    ((s.streams (streamName protocol)).entries.drop (s.received protocol).length).take 100

theorem Inv.delivered {s : StreamConsumer ι} (h : s.Inv) : s.Delivered where
  recorded := fun protocol => h.recorded (streamName protocol)
  conspicuous := by
    intro protocol e he
    have hmem : e.2 ∈ (s.collectors.redis.streams.filter fun m => m.1 = streamName protocol).map Prod.snd :=
      h.recorded (streamName protocol) ▸ List.mem_map_of_mem he
    obtain ⟨m, hm, hline⟩ := List.mem_map.mp hmem
    obtain ⟨hold, hname⟩ := List.mem_filter.mp hm
    obtain ⟨q, hq, hcheck⟩ := h.conspicuous m hold
    have hpq : protocol = q := streamName_inj ((of_decide_eq_true hname).symm.trans hq)
    rw [hpq, ← hline]
    exact hcheck
  inOrder := by
    intro protocol
    obtain ⟨rest, hentries, -⟩ := (h.reads protocol).rest
    exact ⟨rest, hentries.symm⟩
  once := by
    intro protocol
    obtain ⟨rest, hentries, -⟩ := (h.reads protocol).rest
    have hsorted := (s.streams (streamName protocol)).sorted
    rw [hentries, List.map_append, List.pairwise_append] at hsorted
    exact hsorted.1.imp fun hlt => ne_of_lt hlt
  next := by
    intro protocol
    obtain ⟨rest, hentries, -⟩ := (h.reads protocol).rest
    rw [(h.reads protocol).xread 100 hentries, hentries, List.drop_left]

end StreamConsumer
end Pingweave
