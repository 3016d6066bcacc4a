import Pingweave.Format

/-!
# Addresses as text and as numbers

`ip2uint` and `uint2ip` of `common.cpp` on a little-endian host: the number has the first
octet of the dotted quad in its low byte, since `inet_pton` writes network byte order. For GIDs
there is the text of those that `inet_ntop` does not abbreviate.
-/

namespace Pingweave
set_option autoImplicit false

/-- One octet as `inet_pton` reads it: digits, no leading zero, at most 255. -/
def inetOctet (s : Text) : Option UInt32 :=
  if s ≠ [] ∧ s.all Char.isDigit ∧ (s.head? = some '0' → s.length = 1) ∧
      Nat.ofDigitChars 10 s 0 ≤ 255 then
    some (UInt32.ofNat (Nat.ofDigitChars 10 s 0))
  else none

def quad (a b c d : UInt32) : UInt32 := a + (b <<< 8) + (c <<< 16) + (d <<< 24)

/-- `inet_pton(AF_INET, ..)`; `none` where it reports a malformed address. -/
def inetPton (ip : Text) : Option UInt32 :=
  match (ip.splitOn '.').map inetOctet with
  | [some a, some b, some c, some d] => some (quad a b c d)
  | _ => none

/-- The callers pass well-formed addresses; on others the source returns an unset variable. -/
def ip2uint (ip : Text) : UInt32 := (inetPton ip).getD 0

def ipOctets (ip : UInt32) : List UInt8 :=
  [ip.toUInt8, (ip >>> 8).toUInt8, (ip >>> 16).toUInt8, (ip >>> 24).toUInt8]

def octetText (b : UInt8) : Text := Nat.toDigits 10 b.toNat

/-- `inet_ntop(AF_INET, ..)` -/
def uint2ip (ip : UInt32) : Text := List.intercalate ['.'] ((ipOctets ip).map octetText)

theorem isDigit_of_mem_octetText {b : UInt8} {c : Char} (h : c ∈ octetText b) : c.isDigit :=
  Nat.isDigit_of_mem_toDigits (by decide) (by decide) h

theorem octetText_head : ∀ n < 256,
    (Nat.toDigits 10 n).head? = some '0' → (Nat.toDigits 10 n).length = 1 := by
  decide +kernel

theorem inetOctet_octetText (b : UInt8) : inetOctet (octetText b) = some b.toUInt32 := by
  have hall : (octetText b).all Char.isDigit := List.all_eq_true.mpr fun _ => isDigit_of_mem_octetText
  have hhead := octetText_head b.toNat b.toNat_lt
  have hlt := b.toNat_lt
  unfold inetOctet
  rw [if_pos]
  · rw [octetText, Nat.ofDigitChars_ten_toDigits]
    exact congrArg some (UInt32.toNat_inj.mp (by simp))
  · refine ⟨Nat.toDigits_ne_nil, hall, hhead, ?_⟩
    rw [octetText, Nat.ofDigitChars_ten_toDigits]
    omega

theorem dot_not_mem_octetText (b : UInt8) : '.' ∉ octetText b := by
  intro h
  exact absurd (isDigit_of_mem_octetText h) (by decide)

theorem splitOn_uint2ip (ip : UInt32) : (uint2ip ip).splitOn '.' = (ipOctets ip).map octetText := by
  apply List.splitOn_intercalate
  · intro l hl
    obtain ⟨b, _, rfl⟩ := List.mem_map.mp hl
    exact dot_not_mem_octetText b
  · simp [ipOctets]

theorem quad_octets (ip : UInt32) :
    quad ip.toUInt8.toUInt32 (ip >>> 8).toUInt8.toUInt32 (ip >>> 16).toUInt8.toUInt32
      (ip >>> 24).toUInt8.toUInt32 = ip := by
  have hip := ip.toNat_lt
  apply UInt32.toNat_inj.mp
  simp only [quad, UInt32.toNat_add, UInt32.toNat_shiftLeft, UInt8.toNat_toUInt32, UInt32.toNat_toUInt8,
    UInt32.toNat_shiftRight, UInt32.reduceToNat, Nat.shiftLeft_eq, Nat.shiftRight_eq_div_pow,
    Nat.reduceMod, Nat.reducePow]
  omega

/-- Printing an address and reading it back gives the address. -/
theorem inetPton_uint2ip (ip : UInt32) : inetPton (uint2ip ip) = some ip := by
  have hparts : ((uint2ip ip).splitOn '.').map inetOctet =
      (ipOctets ip).map fun b => some b.toUInt32 := by
    rw [splitOn_uint2ip, List.map_map]
    exact List.map_congr_left fun b _ => inetOctet_octetText b
  simp only [inetPton, hparts, ipOctets, List.map_cons, List.map_nil]
  exact congrArg some (quad_octets ip)

theorem ip2uint_uint2ip (ip : UInt32) : ip2uint (uint2ip ip) = ip := by
  rw [ip2uint, inetPton_uint2ip, Option.getD_some]

theorem uint2ip_inj {a b : UInt32} (h : uint2ip a = uint2ip b) : a = b := by
  rw [← ip2uint_uint2ip a, h, ip2uint_uint2ip]

def gidGroups (gid : IbvGid) : List UInt16 :=
  let groups (half : UInt64) : List UInt16 :=
    [(half >>> 48).toUInt16, (half >>> 32).toUInt16, (half >>> 16).toUInt16, half.toUInt16]
  groups gid.subnet_prefix ++ groups gid.interface_id

def groupText (g : UInt16) : Text := Nat.toDigits 16 g.toNat

/-- `inet_ntop(AF_INET6, ..)` on addresses without two zero groups in a row. -/
def plainNtop (gid : IbvGid) : Text := List.intercalate [':'] ((gidGroups gid).map groupText)

theorem digitChar_inj : ∀ m < 16, ∀ n < 16, Nat.digitChar m = Nat.digitChar n → m = n := by
  decide

theorem digitChar_ne_colon : ∀ n < 16, ':' ≠ Nat.digitChar n := by decide

theorem toDigits_inj (m : Nat) : ∀ n, Nat.toDigits 16 m = Nat.toDigits 16 n → m = n := by
  induction m using Nat.strongRecOn with
  | ind m ih =>
    intro n h
    rw [Nat.toDigits_eq_if (n := m) (by decide), Nat.toDigits_eq_if (n := n) (by decide)] at h
    have hm : 0 < (Nat.toDigits 16 (m / 16)).length := Nat.length_toDigits_pos
    have hn : 0 < (Nat.toDigits 16 (n / 16)).length := Nat.length_toDigits_pos
    split at h <;> split at h
    · rename_i hm' hn'
      exact digitChar_inj m hm' n hn' (List.cons.inj h).1
    · have hlen := congrArg List.length h
      simp only [List.length_singleton, List.length_append] at hlen
      omega
    · have hlen := congrArg List.length h
      simp only [List.length_singleton, List.length_append] at hlen
      omega
    · obtain ⟨hdiv, hlast⟩ := List.append_inj' h rfl
      have hq := ih (m / 16) (by omega) (n / 16) hdiv
      have hr := digitChar_inj (m % 16) (Nat.mod_lt m (by decide)) (n % 16) (Nat.mod_lt n (by decide))
        (List.cons.inj hlast).1
      omega

theorem colon_not_mem_toDigits (n : Nat) : ':' ∉ Nat.toDigits 16 n := by
  induction n using Nat.strongRecOn with
  | ind n ih =>
    rw [Nat.toDigits_eq_if (by decide)]
    split
    · rename_i hn
      rw [List.mem_singleton]
      exact digitChar_ne_colon n hn
    · rw [List.mem_append, List.mem_singleton, not_or]
      exact ⟨ih (n / 16) (by omega), digitChar_ne_colon (n % 16) (Nat.mod_lt n (by decide))⟩

theorem splitOn_plainNtop (gid : IbvGid) : (plainNtop gid).splitOn ':' = (gidGroups gid).map groupText := by
  apply List.splitOn_intercalate
  · intro l hl
    obtain ⟨g, -, rfl⟩ := List.mem_map.mp hl
    exact colon_not_mem_toDigits g.toNat
  · simp [gidGroups]

theorem half_inj {a b : UInt64} (h3 : (a >>> 48).toUInt16 = (b >>> 48).toUInt16)
    (h2 : (a >>> 32).toUInt16 = (b >>> 32).toUInt16) (h1 : (a >>> 16).toUInt16 = (b >>> 16).toUInt16)
    (h0 : a.toUInt16 = b.toUInt16) : a = b := by
  have ha := a.toNat_lt
  have hb := b.toNat_lt
  have n3 := congrArg UInt16.toNat h3
  have n2 := congrArg UInt16.toNat h2
  have n1 := congrArg UInt16.toNat h1
  have n0 := congrArg UInt16.toNat h0
  apply UInt64.toNat_inj.mp
  simp only [UInt64.toNat_toUInt16, UInt64.toNat_shiftRight, UInt64.reduceToNat,
    Nat.shiftRight_eq_div_pow, Nat.reduceMod, Nat.reducePow] at n3 n2 n1 n0
  omega

theorem plainNtop_injective : Function.Injective plainNtop := by
  intro a b h
  have htexts : (gidGroups a).map groupText = (gidGroups b).map groupText := by
    rw [← splitOn_plainNtop, h, splitOn_plainNtop]
  have hgroups : gidGroups a = gidGroups b :=
    List.map_injective_iff.mpr (fun g g' hg => UInt16.toNat_inj.mp (toDigits_inj _ _ hg)) htexts
  simp only [gidGroups, List.cons_append, List.nil_append, List.cons.injEq, and_true] at hgroups
  obtain ⟨p3, p2, p1, p0, i3, i2, i1, i0⟩ := hgroups
  cases a
  cases b
  exact congrArg₂ IbvGid.mk (half_inj p3 p2 p1 p0) (half_inj i3 i2 i1 i0)

end Pingweave
