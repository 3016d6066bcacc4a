import Pingweave.IpcRing

/-!
# Messages that do not fit

What `read_messages` makes of an accepted message. A slot keeps `IPC_MESSAGE_SIZE - 1` bytes, and
`writeMessage` accepts a longer message all the same.
-/

namespace Pingweave
set_option autoImplicit false

def utf8Encode (s : Text) : Bytes := s.flatMap String.utf8EncodeChar

theorem utf8Encode_cons (c : Char) (s : Text) : utf8Encode (c :: s) = String.utf8EncodeChar c ++ utf8Encode s :=
  List.flatMap_cons

theorem utf8Encode_append (s t : Text) : utf8Encode (s ++ t) = utf8Encode s ++ utf8Encode t :=
  List.flatMap_append

theorem decodeUtf8_utf8Encode (s : Text) : decodeUtf8 (utf8Encode s) = s := by
  induction s with
  | nil => rw [utf8Encode, List.flatMap_nil, decodeUtf8]
  | cons c s ih => rw [utf8Encode_cons, decodeUtf8_append, ih]

/-- Decoding drops bytes and adds none. -/
theorem length_utf8Encode_decodeUtf8 (bs : Bytes) : (utf8Encode (decodeUtf8 bs)).length ≤ bs.length := by
  induction hn : bs.length using Nat.strong_induction_on generalizing bs with
  | h n ih =>
    cases bs with
    | nil =>
      rw [decodeUtf8]
      exact Nat.zero_le n
    | cons b rest =>
      cases hd : decodeChar (b :: rest) with
      | some c =>
        obtain ⟨tail, htail⟩ := eq_append_of_decodeChar hd
        have hpos := c.utf8Size_pos
        have hlen : n = c.utf8Size + tail.length := by
          rw [← hn, htail, List.length_append, String.length_utf8EncodeChar]
        have hrest := ih tail.length (by omega) tail rfl
        rw [htail, decodeUtf8_append, utf8Encode_cons, List.length_append, String.length_utf8EncodeChar]
        omega
      | none =>
        rw [List.length_cons] at hn
        have hrest := ih rest.length (by omega) rest rfl
        rw [decodeUtf8_of_none hd]
        omega

theorem zero_not_mem_utf8Encode {s : Text} (h : '\x00' ∉ s) : (0 : UInt8) ∉ utf8Encode s := by
  intro hmem
  obtain ⟨c, hc, hzero⟩ := List.mem_flatMap.mp hmem
  exact h (eq_nul_of_zero_mem hzero ▸ hc)

theorem length_utf8Encode_rstripNul (s : Text) : (utf8Encode (rstripNul s)).length ≤ (utf8Encode s).length := by
  obtain ⟨t, ht⟩ := List.rdropWhile_prefix (fun c => c = '\x00') s
  calc (utf8Encode (rstripNul s)).length
      ≤ (utf8Encode (rstripNul s ++ t)).length := by
        rw [utf8Encode_append, List.length_append]
        exact Nat.le_add_right _ _
    _ = (utf8Encode s).length := congrArg (fun s => (utf8Encode s).length) ht

theorem rstripNul_eq_self {s : Text} (h : '\x00' ∉ s) : rstripNul s = s := by
  rw [rstripNul, List.rdropWhile_eq_self_iff]
  intro hne hlast
  exact h (of_decide_eq_true hlast ▸ List.getLast_mem hne)

theorem utf8Encode_ne_nil {s : Text} (h : s ≠ []) : utf8Encode s ≠ [] := by
  cases s with
  | nil => exact absurd rfl h
  | cons c s =>
    rw [utf8Encode_cons]
    exact List.append_ne_nil_of_left_ne_nil (List.ne_nil_of_length_pos
      (by rw [String.length_utf8EncodeChar]; exact c.utf8Size_pos)) _

namespace IpcRing

theorem truncated_utf8Encode {s : Text} (h : '\x00' ∉ s) :
    truncated (utf8Encode s) = (utf8Encode s).take (IPC_MESSAGE_SIZE - 1) := by
  rw [truncated, List.takeWhile_eq_self_iff.mpr]
  intro b hb
  apply decide_eq_true
  rintro rfl
  exact zero_not_mem_utf8Encode h hb

/-- A message comes back as it was sent if and only if it fits into a slot with the final NUL. -/
theorem delivered_eq_iff {s : Text} (h : '\x00' ∉ s) :
    delivered (utf8Encode s) = s ↔ (utf8Encode s).length < IPC_MESSAGE_SIZE := by
  constructor
  · intro heq
    have hstrip := length_utf8Encode_rstripNul (decodeUtf8 (truncated (utf8Encode s)))
    have hdecode := length_utf8Encode_decodeUtf8 (truncated (utf8Encode s))
    have htruncated := length_truncated (utf8Encode s)
    rw [← delivered, heq] at hstrip
    omega
  · intro hlt
    have hfits : (utf8Encode s).length ≤ IPC_MESSAGE_SIZE - 1 := Nat.le_sub_one_of_lt hlt
    rw [delivered, truncated_utf8Encode h, List.take_of_length_le hfits, decodeUtf8_utf8Encode,
      rstripNul_eq_self h]

/-- One accepted message and one read of it. -/
def roundTrip (message : Bytes) : List Action :=
  .writeMessage message :: List.replicate 4 .producer ++ List.replicate 8 .consumer

theorem run_roundTrip {message : Bytes} (hne : message ≠ []) :
    (run (roundTrip message)).writes = [⟨message, true, 0⟩] ∧
      (run (roundTrip message)).returned = [delivered message] := by
  have hfirst : init.step (.writeMessage message) = { init with producer := .loadHead message } := if_neg hne
  rw [← decodeSlot_slotOf, roundTrip, run, List.cons_append, Runs.run_cons, hfirst]
  exact ⟨rfl, rfl⟩

/-- What is said of the ring for one message: wherever it was accepted, `read_messages` returns it
as it is, and a call that accepts it is one that delivers it. -/
def Intact (m : Text) : Prop :=
  ∀ as : List Action,
    (∀ (k : Nat) (t : Text), (run as).written[k]? = some (utf8Encode m) → (run as).returned[k]? = some t → t = m) ∧
      ∀ w ∈ (run as).writes, w.message = utf8Encode m → delivered w.message ≠ m → w.ret = false

theorem returned_eq_delivered (as : List Action) {k : Nat} {message : Bytes} {t : Text}
    (hwritten : (run as).written[k]? = some message) (hreturned : (run as).returned[k]? = some t) :
    t = delivered message := by
  obtain ⟨rest, hrest⟩ := (run_fifo as).inOrder
  have hk : k < (run as).returned.length := (List.getElem?_eq_some_iff.mp hreturned).1
  have hget : ((run as).written.map delivered)[k]? = some t := by
    rw [← hrest, List.append_assoc, List.getElem?_append_left hk]
    exact hreturned
  rw [List.getElem?_map, hwritten] at hget
  exact (Option.some.inj hget).symm

theorem Intact.delivered_eq {m : Text} (h : Intact m) (hne : m ≠ []) : delivered (utf8Encode m) = m := by
  obtain ⟨hwrites, hreturned⟩ := run_roundTrip (utf8Encode_ne_nil hne)
  refine (h (roundTrip (utf8Encode m))).1 0 _ ?_ ?_
  · rw [written, hwrites]
    rfl
  · rw [hreturned]
    rfl

/-- The ring keeps a message whole if and only if its encoding is shorter than a slot. -/
theorem intact_iff (m : Text) (hne : m ≠ []) (hnul : '\x00' ∉ m) :
    Intact m ↔ (utf8Encode m).length < IPC_MESSAGE_SIZE := by
  constructor
  · intro h
    exact (delivered_eq_iff hnul).mp (h.delivered_eq hne)
  · intro hlt as
    have heq := (delivered_eq_iff hnul).mpr hlt
    constructor
    · intro k t hwritten hreturned
      rw [returned_eq_delivered as hwritten hreturned, heq]
    · intro w _ hw hcut
      rw [hw] at hcut
      exact absurd heq hcut

theorem intact_iff_ping : Intact ['p', 'i', 'n', 'g'] ↔ (utf8Encode ['p', 'i', 'n', 'g']).length < IPC_MESSAGE_SIZE :=
  intact_iff ['p', 'i', 'n', 'g'] (by decide) (by decide)

/-- A message of exactly the size of a slot is accepted and loses its last byte. -/
theorem not_intact : ¬ ∀ m : Text, m ≠ [] → '\x00' ∉ m → Intact m := by
  intro h
  have hnul : '\x00' ∉ List.replicate IPC_MESSAGE_SIZE 'a' := by
    intro hmem
    exact absurd (List.eq_of_mem_replicate hmem) (by decide)
  have hne : List.replicate IPC_MESSAGE_SIZE 'a' ≠ [] :=
    List.ne_nil_of_length_pos (by rw [List.length_replicate]; decide)
  have hlt := (delivered_eq_iff hnul).mp ((h _ hne hnul).delivered_eq hne)
  have hlength : ∀ n, (utf8Encode (List.replicate n 'a')).length = n := by
    intro n
    induction n with
    | zero => rfl
    | succ n ih =>
      rw [List.replicate_succ, utf8Encode_cons, List.length_append, ih, String.length_utf8EncodeChar]
      exact Nat.add_comm 1 n
  rw [hlength] at hlt
  exact Nat.lt_irrefl _ hlt

end IpcRing
end Pingweave
