import Pingweave.RdmaClient
import Pingweave.RdmaEventOrder

/-!
# Delays under software time stamps

Without RNIC time stamps the scheduler thread reads the completion time of a PING itself, after
`post_send` has returned, and the rx thread reads the time of the PONG. When the rx thread gets
there first the network time is the wrapped negative difference.
-/

namespace Pingweave
open RdmaPinginfoMap
set_option autoImplicit false

namespace RdmaClient

/-- The readings of the steady clock that a step takes, in order. -/
def Action.readings : Action → List TimePoint
  | .insert _ now steady_now _ => [now, steady_now]
  | .stamp now => [now]
  | .receive _ now _ => [now]
  | _ => []

/-- The steps read one clock that never runs back and fits into 64 bits. -/
structure Clocked (as : List Action) : Prop where
  monotone : (as.flatMap Action.readings).Pairwise (· ≤ ·)
  fits : ∀ t ∈ as.flatMap Action.readings, t < 2 ^ 64

/-- What the readings up to `clock` say about the lives of a client without RNIC time stamps. -/
structure Stamped (clock : TimePoint) (c : RdmaClient) : Prop where
  started : ∀ l ∈ c.book.lives, l.first.client_delay.toNat ≤ clock
  cqe : ∀ l ∈ c.book.lives, ∀ x, .cqe x ∈ l.events → l.first.client_delay.toNat ≤ x.toNat
  pong : ∀ l ∈ c.book.lives, ∀ recv_time cqe_time,
    .pong recv_time cqe_time ∈ l.events → recv_time = cqe_time
  pending : ∀ pingid x, c.txSched = .stamped pingid x →
    ∀ l ∈ c.book.lives, l.first.client_delay.toNat ≤ x.toNat
  arrived : ∀ msg recv_time cqe_time, c.rx = .received msg recv_time cqe_time →
    recv_time = cqe_time

theorem stamped_init (clock : TimePoint) : Stamped clock init where
  started := by
    intro l hl
    cases hl
  cqe := by
    intro l hl
    cases hl
  pong := by
    intro l hl
    cases hl
  pending := by
    intro pingid x hx
    cases hx
  arrived := by
    intro msg recv_time cqe_time h
    cases h

theorem toNat_convertClockToNs {t : TimePoint} (h : t < 2 ^ 64) : (convertClockToNs t).toNat = t :=
  UInt64.toNat_ofNat_of_lt' h

namespace Stamped
variable {clock clock' : TimePoint} {c : RdmaClient}

theorem mono (h : Stamped clock c) (hle : clock ≤ clock') : Stamped clock' c :=
  { h with started := fun l hl => Nat.le_trans (h.started l hl) hle }

/-- The lives after an update, with the event that may have been added to them. -/
theorem update_lives {c : RdmaClient} {key : UInt64} {event : Event} {l' : Life}
    (hl' : l' ∈ (c.call (.update key event)).book.lives) :
    ∃ l ∈ c.book.lives, l'.first = l.first ∧ ∀ e ∈ l'.events, e ∈ l.events ∨ e = event := by
  rw [book_call] at hl'
  rcases Book.mem_step_cases hl' with ⟨l, hl, hfirst, hev | hev⟩ | hopened
  · exact ⟨l, hl, hfirst, fun e he => Or.inl (hev ▸ he)⟩
  · refine ⟨l, hl, hfirst, ?_⟩
    intro e he
    rw [hev] at he
    rcases List.mem_append.mp he with he | he
    · exact Or.inl he
    · have hop := mem_eventFor.mp he
      cases hop
      exact Or.inr rfl
  · cases hopened

theorem update (h : Stamped clock c) {key : UInt64} {event : Event}
    (hcqe : ∀ x, event = .cqe x → ∀ l ∈ c.book.lives, l.first.client_delay.toNat ≤ x.toNat)
    (hpong : ∀ recv_time cqe_time, event = .pong recv_time cqe_time → recv_time = cqe_time) :
    Stamped clock (c.call (.update key event)) where
  started := by
    intro l' hl'
    obtain ⟨l, hl, hfirst, -⟩ := update_lives hl'
    rw [hfirst]
    exact h.started l hl
  cqe := by
    intro l' hl' x hx
    obtain ⟨l, hl, hfirst, hev⟩ := update_lives hl'
    rw [hfirst]
    rcases hev _ hx with hold | hnew
    · exact h.cqe l hl x hold
    · exact hcqe x hnew.symm l hl
  pong := by
    intro l' hl' recv_time cqe_time hp
    obtain ⟨l, hl, -, hev⟩ := update_lives hl'
    rcases hev _ hp with hold | hnew
    · exact h.pong l hl _ _ hold
    · exact hpong _ _ hnew.symm
  pending := by
    intro pingid x hx l' hl'
    obtain ⟨l, hl, hfirst, -⟩ := update_lives hl'
    rw [hfirst]
    exact h.pending pingid x hx l hl
  arrived := h.arrived

theorem insert (h : Stamped clock c) (idle : c.txSched = .idle) {msg : RdmaPingmsg} {dst_ip : Text}
    {now steady_now : TimePoint} {system_ns : UInt64} (hfit : steady_now < 2 ^ 64)
    (hle : clock ≤ steady_now) :
    Stamped steady_now (c.call (.insert msg dst_ip now steady_now system_ns)) := by
  have hcases : ∀ l' ∈ (c.call (.insert msg dst_ip now steady_now system_ns)).book.lives,
      (∃ l ∈ c.book.lives, l'.first = l.first ∧ l'.events = l.events) ∨
      (l'.first.client_delay.toNat = steady_now ∧ l'.events = []) := by
    intro l' hl'
    rw [book_call] at hl'
    rcases Book.mem_step_cases hl' with ⟨l, hl, hfirst, hev | hev⟩ | hopened
    · exact Or.inl ⟨l, hl, hfirst, hev⟩
    · refine Or.inl ⟨l, hl, hfirst, ?_⟩
      rw [hev]
      exact List.append_nil l.events
    · simp only [Book.opened] at hopened
      split at hopened
      · rw [List.mem_singleton] at hopened
        subst hopened
        exact Or.inr ⟨toNat_convertClockToNs hfit, rfl⟩
      · cases hopened
  refine ⟨?_, ?_, ?_, ?_, h.arrived⟩
  · intro l' hl'
    rcases hcases l' hl' with ⟨l, hl, hfirst, -⟩ | ⟨hstart, -⟩
    · rw [hfirst]
      exact Nat.le_trans (h.started l hl) hle
    · exact Nat.le_of_eq hstart
  · intro l' hl' x hx
    rcases hcases l' hl' with ⟨l, hl, hfirst, hev⟩ | ⟨-, hev⟩
    · rw [hfirst]
      exact h.cqe l hl x (hev ▸ hx)
    · rw [hev] at hx
      cases hx
  · intro l' hl' recv_time cqe_time hp
    rcases hcases l' hl' with ⟨l, hl, -, hev⟩ | ⟨-, hev⟩
    · exact h.pong l hl _ _ (hev ▸ hp)
    · rw [hev] at hp
      cases hp
  · intro pingid x hx
    cases idle.symm.trans hx

theorem step (h : Stamped clock c) {cfg : RdmaClientConfig} (hsw : cfg.rnic_hw_ts = false)
    (hle : clock ≤ clock') {a : Action}
    (hread : ∀ t ∈ a.readings, clock ≤ t ∧ t ≤ clock' ∧ t < 2 ^ 64) :
    Stamped clock' (RdmaClient.step cfg c a) := by
  rcases step_cases cfg c a with heq | hstep
  · rw [heq]
    exact h.mono hle
  generalize RdmaClient.step cfg c a = c' at hstep
  cases hstep with
  | insert dst_ip now steady_now system_ns idle =>
    obtain ⟨h1, h2, h3⟩ := hread steady_now (by simp [Action.readings])
    have hins : Stamped clock' (c.call (.insert (nextPing cfg c) dst_ip now steady_now system_ns)) :=
      (h.insert idle h3 h1).mono h2
    exact ⟨hins.started, hins.cqe, hins.pong, (fun _ _ hx => by cases hx), hins.arrived⟩
  | sent msg inserted =>
    have hm := h.mono hle
    refine ⟨hm.started, hm.cqe, hm.pong, ?_, hm.arrived⟩
    intro pingid x hx
    simp only [hsw, Bool.false_eq_true, if_false] at hx
    cases hx
  | sendFailed msg inserted =>
    have hm := h.mono hle
    exact ⟨hm.started, hm.cqe, hm.pong, (fun _ _ hx => by cases hx), hm.arrived⟩
  | stamp now pingid posted =>
    have hm := h.mono hle
    obtain ⟨h1, -, h3⟩ := hread now (by simp [Action.readings])
    refine ⟨hm.started, hm.cqe, hm.pong, ?_, hm.arrived⟩
    intro p x hx l hl
    cases hx
    rw [toNat_convertClockToNs h3]
    exact Nat.le_trans (h.started l hl) h1
  | updatePingCqe pingid cqe_time stamped =>
    have hup : Stamped clock' (c.call (.update pingid (.cqe cqe_time))) := (h.mono hle).update
      (by
        intro x hx l hl
        cases hx
        exact h.pending pingid _ stamped l hl)
      (by
        intro _ _ hp
        cases hp)
    exact ⟨hup.started, hup.cqe, hup.pong, (fun _ _ hx => by cases hx), hup.arrived⟩
  | transmit ok msg rest queued =>
    have hm := h.mono hle
    exact ⟨hm.started, hm.cqe, hm.pong, hm.pending, hm.arrived⟩
  | pollHw cqe_time wr_id rest hw completed =>
    rw [hsw] at hw
    cases hw
  | pollSw cqe_time wr_id rest sw completed =>
    have hm := h.mono hle
    exact ⟨hm.started, hm.cqe, hm.pong, hm.pending, hm.arrived⟩
  | receive msg now completion_ts idle =>
    have hm := h.mono hle
    refine ⟨hm.started, hm.cqe, hm.pong, hm.pending, ?_⟩
    intro m recv_time cqe_time hr
    simp only [hsw, Bool.false_eq_true, if_false] at hr
    cases hr
    rfl
  | pong msg recv_time cqe_time received isPong =>
    have hup : Stamped clock' (c.call (.update msg.pingid (.pong recv_time cqe_time))) :=
      (h.mono hle).update (by
        intro x hx
        cases hx)
      (by
        intro r c hp
        cases hp
        exact h.arrived msg _ _ received)
    exact ⟨hup.started, hup.cqe, hup.pong, hup.pending, fun _ _ _ hr => by cases hr⟩
  | ack msg recv_time cqe_time received isAck =>
    have hup : Stamped clock' (c.call (.update msg.pingid (.ack msg.server_delay))) :=
      (h.mono hle).update (by
        intro x hx
        cases hx)
      (by
        intro r c hp
        cases hp)
    exact ⟨hup.started, hup.cqe, hup.pong, hup.pending, fun _ _ _ hr => by cases hr⟩
  | unknown msg recv_time cqe_time received =>
    have hm := h.mono hle
    exact ⟨hm.started, hm.cqe, hm.pong, hm.pending, fun _ _ _ hr => by cases hr⟩

/-- The last reading of a step separates the readings before it from those behind it. -/
theorem exists_last_reading {a : Action} {rest : List TimePoint} {clock : TimePoint}
    (hpair : a.readings.Pairwise (· ≤ ·)) (hlow : ∀ t ∈ a.readings ++ rest, clock ≤ t)
    (hcross : ∀ t ∈ a.readings, ∀ u ∈ rest, t ≤ u) :
    ∃ clock', clock ≤ clock' ∧ (∀ t ∈ a.readings, t ≤ clock') ∧ ∀ t ∈ rest, clock' ≤ t := by
  cases a with
  | insert dst_ip now steady_now system_ns =>
    have h1 : now ≤ steady_now := by simpa [Action.readings] using hpair
    refine ⟨steady_now, hlow _ (by simp [Action.readings]), ?_, hcross _ (by simp [Action.readings])⟩
    intro t ht
    simp only [Action.readings, List.mem_cons, List.not_mem_nil, or_false] at ht
    rcases ht with rfl | rfl
    · exact h1
    · exact Nat.le_refl t
  | stamp now =>
    refine ⟨now, hlow _ (by simp [Action.readings]), ?_, hcross _ (by simp [Action.readings])⟩
    intro t ht
    exact Nat.le_of_eq (List.mem_singleton.mp ht)
  | receive msg now completion_ts =>
    refine ⟨now, hlow _ (by simp [Action.readings]), ?_, hcross _ (by simp [Action.readings])⟩
    intro t ht
    exact Nat.le_of_eq (List.mem_singleton.mp ht)
  | _ =>
    refine ⟨clock, Nat.le_refl clock, ?_, fun t ht => hlow t (List.mem_append_right _ ht)⟩
    intro t ht
    cases ht

theorem run (h : Stamped clock c) {cfg : RdmaClientConfig} (hsw : cfg.rnic_hw_ts = false)
    {as : List Action} (hclock : Clocked as) (hlow : ∀ t ∈ as.flatMap Action.readings, clock ≤ t) :
    ∃ clock', Stamped clock' (Runs.run (RdmaClient.step cfg) c as) := by
  induction as generalizing clock c with
  | nil => exact ⟨clock, h⟩
  | cons a as ih =>
    obtain ⟨hmono, hfit⟩ := hclock
    rw [List.flatMap_cons] at hmono hfit hlow
    obtain ⟨-, hrest, hcross⟩ := List.pairwise_append.mp hmono
    have hpair := (List.pairwise_append.mp hmono).1
    obtain ⟨clock', hle, hupper, hafter⟩ := exists_last_reading hpair hlow hcross
    have hstep : Stamped clock' (RdmaClient.step cfg c a) := h.step hsw hle fun t ht =>
      ⟨hlow t (List.mem_append_left _ ht), hupper t ht, hfit t (List.mem_append_left _ ht)⟩
    exact ih hstep ⟨hrest, fun t ht => hfit t (List.mem_append_right _ ht)⟩ hafter

end Stamped

def run (cfg : RdmaClientConfig) (as : List Action) : RdmaClient := Runs.run (step cfg) init as

/-- The delays of a completed ping, read at `c` after an insert at the client's `client_delay` of
then, do not wrap around. -/
structure NoUnderflow (l : Life) (c : UInt64) : Prop where
  network_le : l.value.network_delay ≤ l.value.client_delay
  client_eq : l.first.client_delay.toNat + l.value.client_delay.toNat = c.toNat
  process : l.value.report.client_delay.toNat + l.value.network_delay.toNat =
    l.value.client_delay.toNat
  success : l.value.report.result = .success →
    l.value.report.client_delay.toNat + l.value.report.network_delay.toNat +
      l.value.report.server_delay.toNat = l.value.client_delay.toNat
  weird : l.value.report.result = .weird →
    l.value.report.client_delay.toNat + l.value.report.network_delay.toNat =
      l.value.client_delay.toNat

def Within (l : Life) (t : UInt64) : Prop := t.toNat < l.first.client_delay.toNat + 2 ^ 32

/-- Network and client time in terms of the three readings. -/
theorem network_le_client_iff (b : Bool) {t0 x c : UInt64} (hx : t0.toNat ≤ x.toNat)
    (hxw : x.toNat < t0.toNat + 2 ^ 32) (hcw : c.toNat < t0.toNat + 2 ^ 32) :
    (networkAfter b x c ≤ (c - t0) % 4294967296 ∧
      t0.toNat + ((c - t0) % 4294967296).toNat = c.toNat) ↔ x ≤ c := by
  have h0 := t0.toNat_lt
  have h1 := x.toNat_lt
  have h2 := c.toNat_lt
  have hC : ((c - t0) % 4294967296).toNat = (2 ^ 64 - t0.toNat + c.toNat) % 2 ^ 64 % 4294967296 := by
    rw [toNat_modulo, UInt64.toNat_sub]
  have hN : ((c - x) % 4294967296).toNat = (2 ^ 64 - x.toNat + c.toNat) % 2 ^ 64 % 4294967296 := by
    rw [toNat_modulo, UInt64.toNat_sub]
  rw [UInt64.le_iff_toNat_le, UInt64.le_iff_toNat_le, hC]
  unfold networkAfter
  cases b with
  | true =>
    by_cases hz : x = 0
    · rw [if_pos rfl, if_pos hz]
      rw [hz] at hx hxw
      have hzero : (0 : UInt64).toNat = 0 := rfl
      rw [hz, hzero]
      rw [hzero] at hx hxw
      omega
    · rw [if_pos rfl, if_neg hz, hN]
      omega
  | false =>
    by_cases hz : c = 0
    · rw [if_neg Bool.false_ne_true, if_pos hz]
      have hzero : c.toNat = 0 := by rw [hz]; rfl
      omega
    · rw [if_neg Bool.false_ne_true, if_neg hz, hN]
      omega

theorem noUnderflow_iff {l : Life} (hnet : l.first.network_delay = 0) {x c s : UInt64}
    (hperm : l.events.Perm [.cqe x, .pong c c, .ack s])
    (hx : l.first.client_delay.toNat ≤ x.toNat) (hxw : Within l x) (hcw : Within l c) :
    NoUnderflow l c ↔ x ≤ c := by
  obtain ⟨hclient, hnetwork, hserver⟩ := value_of_triple hnet hperm
  change l.value.client_delay = _ at hclient
  change l.value.network_delay = _ at hnetwork
  change l.value.server_delay = _ at hserver
  have hiff := network_le_client_iff (cqeFirst l.events) hx hxw hcw
  rw [← hclient, ← hnetwork] at hiff
  constructor
  · intro h
    exact hiff.mp ⟨h.network_le, h.client_eq⟩
  · intro hxc
    obtain ⟨hle, heq⟩ := hiff.mpr hxc
    have hclientLe := UInt64.le_iff_toNat_le.mp hle
    have hprocess : l.value.report.client_delay.toNat =
        l.value.client_delay.toNat - l.value.network_delay.toNat :=
      UInt64.toNat_sub_of_le _ _ hle
    refine ⟨hle, heq, by omega, ?_, ?_⟩
    · intro hres
      by_cases hws : l.value.network_delay ≤ l.value.server_delay
      · rw [Life.report_result, if_pos hws] at hres
        cases hres
      · have hgt : l.value.network_delay > l.value.server_delay := UInt64.not_le.mp hws
        have hnet' : l.value.report.network_delay =
            l.value.network_delay - l.value.server_delay := if_pos hgt
        have hserver' : l.value.report.server_delay = l.value.server_delay := rfl
        have hlt := UInt64.lt_iff_toNat_lt.mp hgt
        rw [hnet', hserver', UInt64.toNat_sub_of_le _ _ (UInt64.le_of_lt hgt)]
        omega
    · intro hres
      by_cases hws : l.value.network_delay ≤ l.value.server_delay
      · have hnet' : l.value.report.network_delay = l.value.network_delay :=
          if_neg (UInt64.not_lt.mpr hws)
        rw [hnet']
        omega
      · rw [Life.report_result, if_neg hws] at hres
        cases hres

theorem exists_triple {l : Life} (hdone : ∀ k, l.times k = 1) :
    ∃ x r c s, l.events.Perm [.cqe x, .pong r c, .ack s] := by
  have hmem : ∀ k, ∃ e ∈ l.events, e.kind = k := by
    intro k
    have hpos : 0 < (l.events.map Event.kind).count k := by
      rw [show (l.events.map Event.kind).count k = 1 from hdone k]
      exact Nat.one_pos
    obtain ⟨e, he, hk⟩ := List.mem_map.mp (List.count_pos_iff.mp hpos)
    exact ⟨e, he, hk⟩
  obtain ⟨e1, he1, hk1⟩ := hmem .cqe
  obtain ⟨e2, he2, hk2⟩ := hmem .pong
  obtain ⟨e3, he3, hk3⟩ := hmem .ack
  cases e1 with
  | cqe x =>
    cases e2 with
    | pong r c =>
      cases e3 with
      | ack s =>
        have hlen := ((Life.each_once_iff l).mp hdone).2
        have hsub : [Event.cqe x, .pong r c, .ack s] ⊆ l.events := by
          intro e he
          simp only [List.mem_cons, List.not_mem_nil, or_false] at he
          rcases he with rfl | rfl | rfl
          · exact he1
          · exact he2
          · exact he3
        have hnodup : [Event.cqe x, .pong r c, .ack s].Nodup := by simp
        have hperm := (List.subperm_of_subset hnodup hsub).perm_of_length_le (Nat.le_of_eq hlen)
        exact ⟨x, r, c, s, hperm.symm⟩
      | _ => cases hk3
    | _ => cases hk2
  | _ => cases hk1

theorem run_booked (cfg : RdmaClientConfig) (as : List Action) : (run cfg as).Booked :=
  Runs.run_invariant (fun _ a h => h.step a) booked_init as

/-- In every run without RNIC time stamps, a ping that received each of its events once was
stamped after its insert, has one result, and its delays wrap around exactly when the rx thread
read the clock for the PONG before the scheduler thread read it for the PING. -/
theorem softwareStamps_iff (cfg : RdmaClientConfig) (hsw : cfg.rnic_hw_ts = false)
    (as : List Action) (hclock : Clocked as) (i : Nat) (l : Life)
    (hl : (run cfg as).book.lives[i]? = some l) (hdone : ∀ k, l.times k = 1) :
    ∃ x c s, l.events.Perm [.cqe x, .pong c c, .ack s] ∧ l.results = [l.value.report] ∧
      l.value.report ∈ (run cfg as).enqueued ∧
      (Within l x → Within l c → (NoUnderflow l c ↔ x ≤ c)) := by
  obtain ⟨clock, hst⟩ := (stamped_init 0).run hsw hclock fun t _ => Nat.zero_le t
  have hmem := List.mem_of_getElem? hl
  have hok : (run cfg as).book.Ok := Book.run_ok _ _
  have hres := hok.results_of_each_once hl hdone
  obtain ⟨x, r, c, s, hperm⟩ := exists_triple hdone
  have hrc : r = c := hst.pong l hmem r c (hperm.mem_iff.mpr (by simp))
  subst hrc
  have hx := hst.cqe l hmem x (hperm.mem_iff.mpr (by simp))
  refine ⟨x, r, s, hperm, hres, ?_, fun hxw hcw =>
    noUnderflow_iff (hok.fresh l hmem).network_delay hperm hx hxw hcw⟩
  rw [(run_booked cfg as).enqueued]
  refine (Book.enqueued_perm _ _).mem_iff.mpr (List.mem_flatMap.mpr ⟨l, hmem, ?_⟩)
  rw [hres]
  exact List.mem_singleton_self _

def exampleConfig : RdmaClientConfig :=
  ⟨['1', '0', '.', '0', '.', '0', '.', '1'], ⟨17, default, 0⟩, false⟩

/-- The pingid of the first PING that `exampleConfig` sends. -/
def examplePingid : UInt64 := 72057636987600896

def exampleDstip : Text := ['1', '0', '.', '0', '.', '0', '.', '2']

/-- The life of that PING, inserted at 1000. -/
def exampleLife (events : List Event) (result : RdmaResultMsg) : Life :=
  ⟨newPinginfo ⟨examplePingid, 17, default, 0, 0⟩ exampleDstip 5 1000, events, [result], false⟩

/-- The PING is stamped at 1200, before the PONG at 2000. -/
def inOrderActions : List Action :=
  [.insert exampleDstip 1000 1000 5, .postSend true, .stamp 1200, .updatePingCqe, .transmit true,
    .receive ⟨PINGWEAVE_OPCODE_PONG, examplePingid, 0⟩ 2000 0, .handle,
    .receive ⟨PINGWEAVE_OPCODE_ACK, examplePingid, 300⟩ 3000 0, .handle]

def inOrderLife : Life :=
  exampleLife [.cqe 1200, .pong 2000 2000, .ack 300]
    ⟨examplePingid, 33554442, 5, 200, 500, 300, .success⟩

theorem softwareStamps_inOrder :
    ∃ x c s, inOrderLife.events.Perm [.cqe x, .pong c c, .ack s] ∧
      inOrderLife.results = [inOrderLife.value.report] ∧
      inOrderLife.value.report ∈ (run exampleConfig inOrderActions).enqueued ∧
      (Within inOrderLife x → Within inOrderLife c → (NoUnderflow inOrderLife c ↔ x ≤ c)) :=
  softwareStamps_iff exampleConfig rfl inOrderActions ⟨by decide, by decide⟩ 0 inOrderLife
    (by decide +kernel) (by intro k; cases k <;> decide)

/-- Delays of completed pings never wrap around under software time stamps. -/
def SoftwareStampsSound : Prop :=
  ∀ (cfg : RdmaClientConfig) (as : List Action) (i : Nat) (l : Life) (x c s : UInt64),
    cfg.rnic_hw_ts = false → Clocked as → (run cfg as).book.lives[i]? = some l →
    l.events.Perm [.cqe x, .pong c c, .ack s] → Within l x → Within l c → NoUnderflow l c

/-- The rx thread gets to the PONG before the scheduler thread stamps the PING. -/
def overtakenActions : List Action :=
  [.insert exampleDstip 1000 1000 5, .postSend true, .transmit true,
    .receive ⟨PINGWEAVE_OPCODE_PONG, examplePingid, 0⟩ 2000 0, .handle, .stamp 2500, .updatePingCqe,
    .receive ⟨PINGWEAVE_OPCODE_ACK, examplePingid, 300⟩ 3000 0, .handle]

theorem not_softwareStampsSound : ¬ SoftwareStampsSound := by
  intro h
  have hlife : (run exampleConfig overtakenActions).book.lives[0]? =
      some (exampleLife [.pong 2000 2000, .cqe 2500, .ack 300]
        ⟨examplePingid, 33554442, 5, 18446744069414585820, 4294966496, 300, .success⟩) := by
    decide +kernel
  have hle := (h exampleConfig overtakenActions 0 _ 2500 2000 300 rfl ⟨by decide, by decide⟩ hlife
    (List.Perm.swap _ _ _) (by unfold Within; decide) (by unfold Within; decide)).network_le
  revert hle
  decide

end RdmaClient
end Pingweave
