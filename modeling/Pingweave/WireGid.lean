import Mathlib.Data.List.TakeWhile
import Pingweave.Library.HexDigits
import Pingweave.Address

/-!
# GIDs as hexadecimal text

`gid_to_wire_gid` and `wire_gid_to_gid` on a little-endian host. The union keeps its two halves in
network byte order, `memcpy` takes its bytes as four `uint32_t`, and `htobe32` and `be32toh`
reverse the bytes of each.
-/

namespace Pingweave
open HexDigits
set_option autoImplicit false

/-- The bytes of one half of the union. -/
def halfBytes (half : UInt64) : List UInt8 :=
  [(half >>> 56).toUInt8, (half >>> 48).toUInt8, (half >>> 40).toUInt8, (half >>> 32).toUInt8,
    (half >>> 24).toUInt8, (half >>> 16).toUInt8, (half >>> 8).toUInt8, half.toUInt8]

/-- `gid->raw` -/
def rawGid (gid : IbvGid) : List UInt8 := halfBytes gid.subnet_prefix ++ halfBytes gid.interface_id

def halfOfBytes (raw : List UInt8) : UInt64 := raw.foldl (fun half b => half * 256 + b.toUInt64) 0

/-- `memcpy` into the union, from 16 bytes. -/
def gidOfRaw (raw : List UInt8) : IbvGid := ⟨halfOfBytes (raw.take 8), halfOfBytes (raw.drop 8)⟩

/-- `memcpy` into an array of `uint32_t`. -/
def wordsOfRaw : List UInt8 → List UInt32
  | b0 :: b1 :: b2 :: b3 :: raw =>
    quad b0.toUInt32 b1.toUInt32 b2.toUInt32 b3.toUInt32 :: wordsOfRaw raw
  | _ => []

def rawOfWords (words : List UInt32) : List UInt8 := words.flatMap ipOctets

/-- `htobe32` and `be32toh` -/
def swapBytes (word : UInt32) : UInt32 :=
  quad (word >>> 24).toUInt8.toUInt32 (word >>> 16).toUInt8.toUInt32 (word >>> 8).toUInt8.toUInt32
    word.toUInt8.toUInt32

/-- `sprintf(.., "%08x", word)` -/
def sprintfHex (word : UInt32) : Text := List.leftpad 8 '0' (Nat.toDigits 16 word.toNat)

def gidToWireGid (gid : IbvGid) : Text := ((wordsOfRaw (rawGid gid)).map swapBytes).flatMap sprintfHex

/-- `isspace` in the C locale. -/
def isCSpace (c : Char) : Bool := c = ' ' || ('\t' ≤ c && c ≤ '\r')

/-- The digits that `%x` reads after the sign, with or without `0x`. -/
def hexDigits : Text → Text
  | '0' :: x :: rest => if x = 'x' ∨ x = 'X' then rest.takeWhile isHex else ('0' :: x :: rest).takeWhile isHex
  | s => s.takeWhile isHex

/-- The number that `sscanf(s, "%x", ..)` stores, if it stores one. -/
def sscanfHex (s : Text) : Option UInt32 :=
  let number (s : Text) : Option UInt32 :=
    if hexDigits s = [] then none else some (UInt32.ofNat (value (hexDigits s)))
  match s.dropWhile isCSpace with
  | '-' :: rest => (number rest).map fun n => -n
  | '+' :: rest => number rest
  | rest => number rest

/-- The loop over the next `n` words of the text; `v32` keeps its value where `sscanf` stores none. -/
def scanWords (v32 : UInt32) : Nat → Text → List UInt32
  | 0, _ => []
  | n + 1, wgid =>
    let v32 := (sscanfHex (wgid.take 8)).getD v32
    swapBytes v32 :: scanWords v32 n (wgid.drop 8)

/-- `v32` is what the variable of this name holds on entry, which the source does not set. The text
has 32 characters. -/
def wireGidToGid (v32 : UInt32) (wgid : Text) : IbvGid := gidOfRaw (rawOfWords (scanWords v32 4 wgid))

theorem ipOctets_quad (b0 b1 b2 b3 : UInt8) :
    ipOctets (quad b0.toUInt32 b1.toUInt32 b2.toUInt32 b3.toUInt32) = [b0, b1, b2, b3] := by
  have h0 := b0.toNat_lt
  have h1 := b1.toNat_lt
  have h2 := b2.toNat_lt
  have h3 := b3.toNat_lt
  have hquad : (quad b0.toUInt32 b1.toUInt32 b2.toUInt32 b3.toUInt32).toNat =
      b0.toNat + b1.toNat * 256 + b2.toNat * 65536 + b3.toNat * 16777216 := by
    simp only [quad, UInt32.toNat_add, UInt32.toNat_shiftLeft, UInt8.toNat_toUInt32, UInt32.reduceToNat,
      Nat.shiftLeft_eq, Nat.reduceMod, Nat.reducePow]
    omega
  simp only [ipOctets, List.cons.injEq, and_true]
  refine ⟨?_, ?_, ?_, ?_⟩ <;> apply UInt8.toNat_inj.mp <;>
    simp only [UInt32.toNat_toUInt8, UInt32.toNat_shiftRight, hquad, UInt32.reduceToNat,
      Nat.shiftRight_eq_div_pow, Nat.reduceMod, Nat.reducePow] <;> omega

theorem swapBytes_swapBytes (word : UInt32) : swapBytes (swapBytes word) = word := by
  have hoctets := ipOctets_quad (word >>> 24).toUInt8 (word >>> 16).toUInt8 (word >>> 8).toUInt8 word.toUInt8
  simp only [ipOctets, List.cons.injEq, and_true] at hoctets
  obtain ⟨h0, h1, h2, h3⟩ := hoctets
  rw [swapBytes, swapBytes, h0, h1, h2, h3]
  exact quad_octets word

theorem map_swapBytes (words : List UInt32) : (words.map swapBytes).map swapBytes = words := by
  rw [List.map_map]
  exact (List.map_congr_left fun word _ => swapBytes_swapBytes word).trans (List.map_id words)

theorem wordsOfRaw_rawOfWords (words : List UInt32) : wordsOfRaw (rawOfWords words) = words := by
  induction words with
  | nil => rfl
  | cons word words ih =>
    have hraw : rawOfWords (word :: words) = word.toUInt8 :: (word >>> 8).toUInt8 :: (word >>> 16).toUInt8 ::
        (word >>> 24).toUInt8 :: rawOfWords words := rfl
    rw [hraw, wordsOfRaw, quad_octets, ih]

theorem rawOfWords_wordsOfRaw (k : Nat) (raw : List UInt8) (h : raw.length = 4 * k) :
    rawOfWords (wordsOfRaw raw) = raw := by
  induction k generalizing raw with
  | zero =>
    rw [List.length_eq_zero_iff.mp h]
    rfl
  | succ k ih =>
    match raw, h with
    | b0 :: b1 :: b2 :: b3 :: raw, h =>
      simp only [List.length_cons] at h
      have hrest : raw.length = 4 * k := by omega
      have hraw : rawOfWords (wordsOfRaw (b0 :: b1 :: b2 :: b3 :: raw)) =
          ipOctets (quad b0.toUInt32 b1.toUInt32 b2.toUInt32 b3.toUInt32) ++ rawOfWords (wordsOfRaw raw) := rfl
      rw [hraw, ipOctets_quad, ih raw hrest]
      rfl

theorem length_wordsOfRaw (k : Nat) (raw : List UInt8) (h : raw.length = 4 * k) :
    (wordsOfRaw raw).length = k := by
  have hlen := congrArg List.length (rawOfWords_wordsOfRaw k raw h)
  have hfour : ∀ words : List UInt32, (rawOfWords words).length = 4 * words.length := by
    intro words
    induction words with
    | nil => rfl
    | cons word words ih =>
      rw [rawOfWords, List.flatMap_cons, List.length_append, List.length_cons, ← rawOfWords, ih]
      have hoctets : (ipOctets word).length = 4 := rfl
      omega
  rw [hfour] at hlen
  omega

/-- The next byte of a number behind the bytes above it. -/
theorem push_byte {n d e : Nat} (hn : n < 18446744073709551616) (he : e = d * 256) :
    (n / e * 256 % 18446744073709551616 + n / d % 256) % 18446744073709551616 = n / d := by
  have hdiv : n / e = n / d / 256 := by rw [he, Nat.div_div_eq_div_mul]
  have hle : n / d ≤ n := Nat.div_le_self n d
  rw [hdiv]
  omega

theorem halfOfBytes_halfBytes (half : UInt64) : halfOfBytes (halfBytes half) = half := by
  have hhalf : half.toNat < 18446744073709551616 := half.toNat_lt
  apply UInt64.toNat_inj.mp
  simp only [halfOfBytes, halfBytes, List.foldl_cons, List.foldl_nil, UInt64.toNat_add, UInt64.toNat_mul,
    UInt8.toNat_toUInt64, UInt64.toNat_toUInt8, UInt64.toNat_shiftRight, UInt64.reduceToNat,
    Nat.shiftRight_eq_div_pow, Nat.reduceMod, Nat.reducePow]
  generalize half.toNat = n at hhalf ⊢
  have h7 : (0 * 256 % 18446744073709551616 + n / 72057594037927936 % 256) % 18446744073709551616 =
      n / 72057594037927936 := by omega
  have h6 : (n / 72057594037927936 * 256 % 18446744073709551616 + n / 281474976710656 % 256) %
      18446744073709551616 = n / 281474976710656 := push_byte hhalf rfl
  have h5 : (n / 281474976710656 * 256 % 18446744073709551616 + n / 1099511627776 % 256) %
      18446744073709551616 = n / 1099511627776 := push_byte hhalf rfl
  have h4 : (n / 1099511627776 * 256 % 18446744073709551616 + n / 4294967296 % 256) %
      18446744073709551616 = n / 4294967296 := push_byte hhalf rfl
  have h3 : (n / 4294967296 * 256 % 18446744073709551616 + n / 16777216 % 256) %
      18446744073709551616 = n / 16777216 := push_byte hhalf rfl
  have h2 : (n / 16777216 * 256 % 18446744073709551616 + n / 65536 % 256) %
      18446744073709551616 = n / 65536 := push_byte hhalf rfl
  have h1 : (n / 65536 * 256 % 18446744073709551616 + n / 256 % 256) % 18446744073709551616 = n / 256 :=
    push_byte hhalf rfl
  have h0 : (n / 256 * 256 % 18446744073709551616 + n / 1 % 256) % 18446744073709551616 = n / 1 :=
    push_byte hhalf rfl
  rw [Nat.div_one] at h0
  rw [h7, h6, h5, h4, h3, h2, h1, h0]

theorem gidOfRaw_rawGid (gid : IbvGid) : gidOfRaw (rawGid gid) = gid :=
  congrArg₂ IbvGid.mk (halfOfBytes_halfBytes gid.subnet_prefix) (halfOfBytes_halfBytes gid.interface_id)

theorem halfBytes_halfOfBytes {raw : List UInt8} (h : raw.length = 8) : halfBytes (halfOfBytes raw) = raw := by
  match raw, h with
  | [b7, b6, b5, b4, b3, b2, b1, b0], _ =>
    have h0 := b0.toNat_lt
    have h1 := b1.toNat_lt
    have h2 := b2.toNat_lt
    have h3 := b3.toNat_lt
    have h4 := b4.toNat_lt
    have h5 := b5.toNat_lt
    have h6 := b6.toNat_lt
    have h7 := b7.toNat_lt
    have hnat : (halfOfBytes [b7, b6, b5, b4, b3, b2, b1, b0]).toNat =
        ((((((b7.toNat * 256 + b6.toNat) * 256 + b5.toNat) * 256 + b4.toNat) * 256 + b3.toNat) * 256 +
          b2.toNat) * 256 + b1.toNat) * 256 + b0.toNat := by
      simp only [halfOfBytes, List.foldl_cons, List.foldl_nil, UInt64.toNat_add, UInt64.toNat_mul,
        UInt8.toNat_toUInt64, UInt64.reduceToNat, Nat.reducePow]
      omega
    simp only [halfBytes, List.cons.injEq, and_true]
    refine ⟨?_, ?_, ?_, ?_, ?_, ?_, ?_, ?_⟩ <;> apply UInt8.toNat_inj.mp <;>
      simp only [UInt64.toNat_toUInt8, UInt64.toNat_shiftRight, hnat, UInt64.reduceToNat,
        Nat.shiftRight_eq_div_pow, Nat.reduceMod, Nat.reducePow] <;> omega

theorem rawGid_gidOfRaw {raw : List UInt8} (h : raw.length = 16) : rawGid (gidOfRaw raw) = raw := by
  have htake : (raw.take 8).length = 8 := by
    rw [List.length_take]
    omega
  have hdrop : (raw.drop 8).length = 8 := by
    rw [List.length_drop]
    omega
  rw [rawGid, gidOfRaw, halfBytes_halfOfBytes htake, halfBytes_halfOfBytes hdrop, List.take_append_drop]

theorem sprintfHex_eq (word : UInt32) : sprintfHex word = padded 8 word.toNat :=
  leftpad_toDigits (by decide) word.toNat_lt

theorem length_sprintfHex (word : UInt32) : (sprintfHex word).length = 8 := by
  rw [sprintfHex_eq, length_padded]

theorem isLower_ne {c d : Char} (h : isLower c = true) (hd : isLower d = false) : c ≠ d := by
  rintro rfl
  rw [h] at hd
  cases hd

theorem sscanfHex_lower {s : Text} (hne : s ≠ []) (h : ∀ c ∈ s, isLower c = true) :
    sscanfHex s = some (UInt32.ofNat (value s)) := by
  have hall : ∀ {t : Text}, (∀ c ∈ t, isLower c = true) → t.takeWhile isHex = t := fun ht =>
    List.takeWhile_eq_self_iff.mpr fun c hc => isHex_of_isLower (ht c hc)
  have hdigits : hexDigits s = s := by
    unfold hexDigits
    split
    · rename_i x rest
      have hx : ¬ (x = 'x' ∨ x = 'X') := by
        have hlower : isLower x = true := h x (by simp)
        rintro (rfl | rfl) <;> exact absurd hlower (by decide)
      rw [if_neg hx]
      exact hall h
    · exact hall h
  obtain ⟨c, rest, rfl⟩ := List.exists_cons_of_ne_nil hne
  have hc : isLower c = true := h c List.mem_cons_self
  have hspace : isCSpace c = false := by
    cases hspace : isCSpace c with
    | false => rfl
    | true =>
      exfalso
      simp [isLower, isCSpace, Char.le_def, UInt32.le_iff_toNat_le] at hc hspace
      rcases hspace with rfl | hspace
      · exact absurd hc (by decide)
      · omega
  have hdrop : (c :: rest).dropWhile isCSpace = c :: rest := List.dropWhile_cons_of_neg (by simp [hspace])
  have hminus : c ≠ '-' := isLower_ne hc (by decide)
  have hplus : c ≠ '+' := isLower_ne hc (by decide)
  unfold sscanfHex
  rw [hdrop]
  split
  · rename_i heq
    exact absurd (List.cons.inj heq).1 hminus
  · rename_i heq
    exact absurd (List.cons.inj heq).1 hplus
  · simp only [hdigits, if_neg hne]

theorem sscanfHex_sprintfHex (word : UInt32) : sscanfHex (sprintfHex word) = some word := by
  have hne : sprintfHex word ≠ [] := by
    intro hnil
    have hlen := length_sprintfHex word
    rw [hnil] at hlen
    cases hlen
  rw [sscanfHex_lower hne, sprintfHex_eq, value_padded word.toNat_lt, UInt32.ofNat_toNat]
  intro c hc
  rw [sprintfHex_eq] at hc
  exact isLower_of_mem_padded hc

theorem scanWords_flatMap (v32 : UInt32) (words : List UInt32) :
    scanWords v32 words.length (words.flatMap sprintfHex) = words.map swapBytes := by
  induction words generalizing v32 with
  | nil => rfl
  | cons word words ih =>
    rw [List.flatMap_cons, List.length_cons, scanWords, List.take_left' (length_sprintfHex word),
      List.drop_left' (length_sprintfHex word), sscanfHex_sprintfHex, Option.getD_some, ih, List.map_cons]

/-- The client gets back the GID that the server wrote. -/
theorem wireGidToGid_gidToWireGid (v32 : UInt32) (gid : IbvGid) :
    wireGidToGid v32 (gidToWireGid gid) = gid := by
  have hlen : (rawGid gid).length = 4 * 4 := rfl
  have hscan := scanWords_flatMap v32 ((wordsOfRaw (rawGid gid)).map swapBytes)
  rw [List.length_map, length_wordsOfRaw 4 _ hlen, map_swapBytes] at hscan
  rw [wireGidToGid, gidToWireGid, hscan, rawOfWords_wordsOfRaw 4 _ hlen, gidOfRaw_rawGid]

/-- The words that the loop reads from lower-case digits print as these digits. -/
theorem flatMap_scanWords (v32 : UInt32) (n : Nat) (wgid : Text) (hlen : wgid.length = 8 * n)
    (h : ∀ c ∈ wgid, isLower c = true) :
    ((scanWords v32 n wgid).map swapBytes).flatMap sprintfHex = wgid ∧ (scanWords v32 n wgid).length = n := by
  induction n generalizing v32 wgid with
  | zero =>
    rw [List.length_eq_zero_iff.mp hlen]
    exact ⟨rfl, rfl⟩
  | succ n ih =>
    have htake : (wgid.take 8).length = 8 := by
      rw [List.length_take]
      omega
    have hdrop : (wgid.drop 8).length = 8 * n := by
      rw [List.length_drop]
      omega
    have hlower : ∀ c ∈ wgid.take 8, isLower c = true := fun c hc => h c (List.mem_of_mem_take hc)
    have hne : wgid.take 8 ≠ [] := by
      intro hnil
      rw [hnil] at htake
      cases htake
    have hlt : value (wgid.take 8) < 2 ^ 32 := by
      have hlt := value_lt hlower
      rw [htake] at hlt
      exact hlt
    obtain ⟨hrest, hcount⟩ := ih (UInt32.ofNat (value (wgid.take 8))) (wgid.drop 8) hdrop
      fun c hc => h c (List.mem_of_mem_drop hc)
    have hword : sprintfHex (UInt32.ofNat (value (wgid.take 8))) = wgid.take 8 := by
      have hpadded := padded_value hlower
      rw [htake] at hpadded
      rw [sprintfHex_eq, UInt32.toNat_ofNat_of_lt' hlt, hpadded]
    rw [scanWords, sscanfHex_lower hne hlower, Option.getD_some]
    constructor
    · rw [List.map_cons, List.flatMap_cons, swapBytes_swapBytes, hword, hrest, List.take_append_drop]
    · rw [List.length_cons, hcount]

theorem gidToWireGid_wireGidToGid (v32 : UInt32) (wgid : Text) (hlen : wgid.length = 32)
    (h : ∀ c ∈ wgid, isLower c = true) : gidToWireGid (wireGidToGid v32 wgid) = wgid := by
  obtain ⟨hwords, hcount⟩ := flatMap_scanWords v32 4 wgid hlen h
  have hraw : (rawOfWords (scanWords v32 4 wgid)).length = 16 := by
    match scanWords v32 4 wgid, hcount with
    | [_, _, _, _], _ => rfl
  rw [gidToWireGid, wireGidToGid, rawGid_gidOfRaw hraw, wordsOfRaw_rawOfWords, hwords]

end Pingweave
