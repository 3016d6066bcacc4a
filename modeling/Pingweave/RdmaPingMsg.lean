import Pingweave.Common
import Pingweave.Library.ExpiryTable

/-!
# The table of PINGs that a server is answering

`PingMsgMap` of `rdma_ping_msg.hpp`, one step for each public operation.
-/

namespace Pingweave
open ExpiryTable
set_option autoImplicit false

structure PingMsgMap where
  table : Table UInt64 RdmaPingmsg
  threshold_ms : Nat

namespace PingMsgMap

def init (threshold_ms : Nat) : PingMsgMap := ⟨Table.empty, threshold_ms⟩

def find (t : PingMsgMap) (key : UInt64) : Option (Entry RdmaPingmsg) := t.table.find key

def expireEntries (t : PingMsgMap) (now : TimePoint) : PingMsgMap :=
  { t with table := (t.table.expire fun e => decide (t.threshold_ms ≤ elapsedMs now e.timestamp)).1 }

def insert (t : PingMsgMap) (key : UInt64) (value : RdmaPingmsg) (now steady_now : TimePoint) :
    PingMsgMap × Bool :=
  let t := t.expireEntries now
  match t.find key with
  | some _ => (t, false)
  | none => ({ t with table := t.table.emplace key value steady_now }, true)

def get (t : PingMsgMap) (key : UInt64) : Option RdmaPingmsg := (t.find key).map Entry.value

def remove (t : PingMsgMap) (key : UInt64) : PingMsgMap × Bool :=
  ({ t with table := (t.table.remove key).1 }, (t.table.remove key).2)

/-- `P` holds of every key with its message. -/
def All (P : UInt64 → RdmaPingmsg → Prop) (t : PingMsgMap) : Prop :=
  ∀ key e, t.find key = some e → P key e.value

variable {P : UInt64 → RdmaPingmsg → Prop} {t : PingMsgMap}

theorem all_init (threshold_ms : Nat) : (init threshold_ms).All P := by
  intro key e he
  cases (Table.find_empty key).symm.trans he

theorem All.expireEntries (h : t.All P) (now : TimePoint) : (t.expireEntries now).All P :=
  fun key e he => h key e (Table.find_of_find_expire he)

theorem All.insert (h : t.All P) {key : UInt64} {value : RdmaPingmsg} (hv : P key value)
    (now steady_now : TimePoint) : (t.insert key value now steady_now).1.All P := by
  have hx := h.expireEntries now
  unfold PingMsgMap.insert
  simp only []
  split
  · exact hx
  · intro k e he
    by_cases hk : k = key
    · subst hk
      have hfind : e.value = value := by
        have hself := Table.find_emplace_self (t.expireEntries now).table k value steady_now
        cases hself.symm.trans he
        rfl
      rw [hfind]
      exact hv
    · exact hx k e ((Table.find_emplace_ne _ _ _ hk).symm.trans he)

theorem All.remove (h : t.All P) (key : UInt64) : (t.remove key).1.All P := by
  intro k e he
  by_cases hk : k = key
  · subst hk
    cases (Table.find_remove_self t.table k).symm.trans he
  · exact h k e ((Table.find_remove_ne t.table hk).symm.trans he)

theorem All.get (h : t.All P) {key : UInt64} {value : RdmaPingmsg} (hg : t.get key = some value) :
    P key value := by
  obtain ⟨e, he, rfl⟩ := Option.map_eq_some_iff.mp hg
  exact h key e he

theorem All.mono {Q : UInt64 → RdmaPingmsg → Prop} (h : t.All P) (hPQ : ∀ key value, P key value → Q key value) :
    t.All Q := fun key e he => hPQ key e.value (h key e he)

end PingMsgMap
end Pingweave
