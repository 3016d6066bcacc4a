import Pingweave.Format
import Pingweave.Library.Lines

/-!
# Text in the Python half

`bytes.decode("utf-8", "ignore")` drops every byte that is not part of a well-formed sequence;
`rstrip("\x00")` drops NUL characters at the end. Strings are split at single characters, and
`int` reads decimal text.
-/

namespace Pingweave
set_option autoImplicit false

abbrev Bytes := List UInt8

/-- The character whose encoding the bytes start with. -/
def decodeChar (bs : Bytes) : Option Char := bs.toByteArray.utf8DecodeChar? 0

def decodeUtf8 (bs : Bytes) : Text :=
  match bs with
  | [] => []
  | b :: rest =>
    match decodeChar (b :: rest) with
    | some c => c :: decodeUtf8 ((b :: rest).drop c.utf8Size)
    | none => decodeUtf8 rest
termination_by bs.length
decreasing_by
  · have := c.utf8Size_pos
    simp only [List.length_drop, List.length_cons]
    omega
  · simp only [List.length_cons]
    omega

def rstripNul (s : Text) : Text := s.rdropWhile fun c => c = '\x00'

/-- `str.isspace` of one character. -/
def isPySpace (c : Char) : Bool :=
  let n := c.toNat
  (9 ≤ n && n ≤ 13) || (28 ≤ n && n ≤ 32) || n == 133 || n == 160 || n == 5760 ||
    (8192 ≤ n && n ≤ 8202) || n == 8232 || n == 8233 || n == 8239 || n == 8287 || n == 12288

def strip (s : Text) : Text := (s.dropWhile isPySpace).rdropWhile isPySpace

/-- `int` on an unsigned literal: groups of digits between single underscores. -/
def pyNat (s : Text) : Option Nat :=
  if (s.splitOn '_').all fun group => !group.isEmpty && group.all Char.isDigit then
    some (Nat.ofDigitChars 10 (s.filter fun c => c ≠ '_') 0)
  else none

def pyInt (s : Text) : Option Int :=
  match strip s with
  | '-' :: rest => (pyNat rest).map fun n => -(n : Int)
  | '+' :: rest => (pyNat rest).map Int.ofNat
  | rest => (pyNat rest).map Int.ofNat

/-- A decimal field of at most `maxLen` digits. -/
def field (maxLen lo hi : Nat) (s : Text) : Option Nat :=
  let n := Nat.ofDigitChars 10 s 0
  if s ≠ [] ∧ s.length ≤ maxLen ∧ s.all Char.isDigit ∧ lo ≤ n ∧ n ≤ hi then some n else none

def isLeap (year : Nat) : Bool := year % 4 == 0 && (year % 100 != 0 || year % 400 == 0)

def daysInMonth (year month : Nat) : Nat :=
  if month = 2 then (if isLeap year then 29 else 28)
  else if month = 4 ∨ month = 6 ∨ month = 9 ∨ month = 11 then 30
  else 31

/-- The days from `datetime.min` up to a date. -/
def daysBefore (year month day : Nat) : Nat :=
  let y := year - 1
  y * 365 + y / 4 - y / 100 + y / 400 +
    ((List.range (month - 1)).map fun m => daysInMonth year (m + 1)).sum + (day - 1)

/-- The day at the start of `rest`, possibly with a blank for its first digit, and what follows. -/
def splitDay (rest : Text) : Text × Text :=
  match rest with
  | ' ' :: tail => ('0' :: tail.takeWhile fun c => !isPySpace c, tail.dropWhile fun c => !isPySpace c)
  | _ => (rest.takeWhile fun c => !isPySpace c, rest.dropWhile fun c => !isPySpace c)

def timeOfDay (s : Text) : Option Nat :=
  match s.splitOn ':' with
  | [hour, minute, rest] =>
    match rest.splitOn '.' with
    | [second, fraction] => do
      let h ← field 2 0 23 hour
      let m ← field 2 0 59 minute
      let sec ← field 2 0 59 second
      let f ← field 6 0 999999 fraction
      some (((h * 60 + m) * 60 + sec) * 1000000 + f * 10 ^ (6 - fraction.length))
    | _ => none
  | _ => none

/-- `datetime.strptime(s, "%Y-%m-%d %H:%M:%S.%f")` on ASCII text, in microseconds since
`datetime.min`. -/
def strptimeMicros (s : Text) : Option Nat :=
  match s.splitOn '-' with
  | [year, month, rest] => do
    let (day, time) := splitDay rest
    let y ← if year.length = 4 then field 4 1 9999 year else none
    let m ← field 2 1 12 month
    let d ← field 2 1 (daysInMonth y m) day
    let t ← if time.head?.any isPySpace then timeOfDay (time.dropWhile isPySpace) else none
    some (daysBefore y m d * 86400000000 + t)
  | _ => none

theorem not_mem_of_mem_splitOn (c : Char) (s : Text) : ∀ f ∈ s.splitOn c, c ∉ f := by
  induction s with
  | nil =>
    intro f hf
    rw [List.splitOn_nil, List.mem_singleton] at hf
    rw [hf]
    exact List.not_mem_nil
  | cons x xs ih =>
    intro f hf
    rw [List.splitOn_cons_eq_if_modifyHead] at hf
    split at hf
    · rcases List.mem_cons.mp hf with rfl | hf
      · exact List.not_mem_nil
      · exact ih f hf
    · rename_i hx
      cases hxs : xs.splitOn c with
      | nil => exact absurd hxs (List.splitOn_ne_nil c xs)
      | cons g gs =>
        rw [hxs, List.modifyHead_cons] at hf
        rcases List.mem_cons.mp hf with rfl | hf
        · rw [List.mem_cons, not_or]
          refine ⟨?_, ih g (by rw [hxs]; exact List.mem_cons_self)⟩
          rintro rfl
          exact hx (beq_self_eq_true c)
        · exact ih f (by rw [hxs]; exact List.mem_cons_of_mem g hf)

theorem mem_splitOn_of_mem {sep c : Char} {s : Text} (h : c ∈ s) (hc : c ≠ sep) :
    ∃ f ∈ s.splitOn sep, c ∈ f := by
  induction s with
  | nil => cases h
  | cons x s ih =>
    rw [List.splitOn_cons_eq_if_modifyHead]
    split
    · rename_i hx
      rcases List.mem_cons.mp h with rfl | hmem
      · exact absurd (beq_iff_eq.mp hx) hc
      · obtain ⟨f, hf, hcf⟩ := ih hmem
        exact ⟨f, List.mem_cons_of_mem _ hf, hcf⟩
    · cases hs : s.splitOn sep with
      | nil => exact absurd hs (List.splitOn_ne_nil sep s)
      | cons g gs =>
        rw [List.modifyHead_cons]
        rcases List.mem_cons.mp h with rfl | hmem
        · exact ⟨c :: g, List.mem_cons_self, List.mem_cons_self⟩
        · obtain ⟨f, hf, hcf⟩ := ih hmem
          rw [hs] at hf
          rcases List.mem_cons.mp hf with rfl | hf
          · exact ⟨x :: f, List.mem_cons_self, List.mem_cons_of_mem x hcf⟩
          · exact ⟨f, List.mem_cons_of_mem _ hf, hcf⟩

theorem isPySpace_of_isDigit {c : Char} (h : c.isDigit) : isPySpace c = false := by
  have hrange : 48 ≤ c.toNat ∧ c.toNat ≤ 57 := by
    simpa [Char.isDigit, UInt32.le_iff_toNat_le] using h
  simp only [isPySpace]
  simp
  omega

/-- A text that neither starts nor ends with a blank. -/
def Trimmed (s : Text) : Prop :=
  (∀ c ∈ s.head?, isPySpace c = false) ∧ ∀ c ∈ s.getLast?, isPySpace c = false

theorem strip_append {s t : Text} (h : Trimmed s) (ht : ∀ c ∈ t, isPySpace c = true) : strip (s ++ t) = s :=
  Lines.trim_append h ht

theorem strip_eq_self {s : Text} (h : Trimmed s) : strip s = s := Lines.trim_eq_self h

theorem head?_intercalate (sep : Text) {f : Text} (fs : List Text) (hf : f ≠ []) :
    (List.intercalate sep (f :: fs)).head? = f.head? := by
  cases fs with
  | nil => rw [List.intercalate_singleton]
  | cons g gs => rw [List.intercalate_cons_cons, List.append_assoc, List.head?_append_of_ne_nil _ hf]

theorem getLast?_intercalate (sep : Text) (fs : List Text) {l : Text} (hl : l ≠ []) :
    (List.intercalate sep (fs ++ [l])).getLast? = l.getLast? := by
  induction fs with
  | nil => rw [List.nil_append, List.intercalate_singleton]
  | cons f fs ih =>
    have hne : fs ++ [l] ≠ [] := by simp
    have hrest : List.intercalate sep (fs ++ [l]) ≠ [] := by
      intro hnil
      rw [hnil, List.getLast?_nil] at ih
      exact hl (List.getLast?_eq_none_iff.mp ih.symm)
    rw [List.cons_append, List.intercalate_cons_of_ne_nil hne, List.getLast?_append_of_ne_nil _ hrest, ih]

theorem not_mem_intercalate {sep : Text} {c : Char} (hsep : c ∉ sep) {fs : List Text}
    (hfs : ∀ f ∈ fs, c ∉ f) : c ∉ List.intercalate sep fs := by
  induction fs with
  | nil => exact List.not_mem_nil
  | cons f fs ih =>
    have hrest := ih fun g hg => hfs g (List.mem_cons_of_mem f hg)
    cases fs with
    | nil =>
      rw [List.intercalate_singleton]
      exact hfs f List.mem_cons_self
    | cons g gs =>
      rw [List.intercalate_cons_cons, List.mem_append, List.mem_append, not_or, not_or]
      exact ⟨⟨hfs f List.mem_cons_self, hsep⟩, hrest⟩

/-- Fields between commas whose first and last are not blank at the edges. -/
theorem trimmed_intercalate (sep : Text) {f l : Text} (fs : List Text) (hf : f ≠ []) (hl : l ≠ [])
    (hfirst : ∀ c ∈ f.head?, isPySpace c = false) (hlast : ∀ c ∈ l.getLast?, isPySpace c = false) :
    Trimmed (List.intercalate sep (f :: (fs ++ [l]))) := by
  constructor
  · rwa [head?_intercalate sep _ hf]
  · rwa [← List.cons_append, getLast?_intercalate sep _ hl]

theorem trimmed_of_digits {s : Text} (h : ∀ c ∈ s, c.isDigit) : Trimmed s :=
  ⟨fun c hc => isPySpace_of_isDigit (h c (List.mem_of_mem_head? hc)),
    fun c hc => isPySpace_of_isDigit (h c (List.mem_of_mem_getLast? hc))⟩

theorem isDigit_of_mem_toDigits {n : Nat} {c : Char} (h : c ∈ Nat.toDigits 10 n) : c.isDigit :=
  Nat.isDigit_of_mem_toDigits (by decide) (by decide) h

theorem pyNat_toDigits (n : Nat) : pyNat (Nat.toDigits 10 n) = some n := by
  have hsplit : (Nat.toDigits 10 n).splitOn '_' = [Nat.toDigits 10 n] :=
    List.splitOn_eq_singleton fun h => absurd (isDigit_of_mem_toDigits h) (by decide)
  have hall : (Nat.toDigits 10 n).all Char.isDigit :=
    List.all_eq_true.mpr fun c hc => isDigit_of_mem_toDigits hc
  have hfilter : (Nat.toDigits 10 n).filter (fun c => c ≠ '_') = Nat.toDigits 10 n := by
    rw [List.filter_eq_self]
    intro c hc
    apply decide_eq_true
    rintro rfl
    exact absurd (isDigit_of_mem_toDigits hc) (by decide)
  rw [pyNat, hsplit, if_pos, hfilter, Nat.ofDigitChars_ten_toDigits]
  simp [hall, Nat.toDigits_ne_nil]

theorem toDigits_cons (n : Nat) : ∃ c cs, Nat.toDigits 10 n = c :: cs ∧ c ≠ '-' ∧ c ≠ '+' := by
  cases hd : Nat.toDigits 10 n with
  | nil => exact absurd hd Nat.toDigits_ne_nil
  | cons c cs =>
    have hc : c.isDigit := isDigit_of_mem_toDigits (by rw [hd]; exact List.mem_cons_self)
    refine ⟨c, cs, rfl, ?_, ?_⟩
    · rintro rfl
      exact absurd hc (by decide)
    · rintro rfl
      exact absurd hc (by decide)

theorem pyInt_toDigits (n : Nat) : pyInt (Nat.toDigits 10 n) = some n := by
  have hstrip : strip (Nat.toDigits 10 n) = Nat.toDigits 10 n :=
    strip_eq_self (trimmed_of_digits fun c hc => isDigit_of_mem_toDigits hc)
  obtain ⟨c, cs, hd, hminus, hplus⟩ := toDigits_cons n
  have hnat := pyNat_toDigits n
  rw [pyInt, hstrip]
  rw [hd] at hnat ⊢
  split
  · rename_i h
    exact absurd (List.cons.inj h).1 hminus
  · rename_i h
    exact absurd (List.cons.inj h).1 hplus
  · rw [hnat]
    rfl

theorem decodeChar_append (c : Char) (bs : Bytes) :
    decodeChar (String.utf8EncodeChar c ++ bs) = some c := by
  rw [decodeChar, List.toByteArray_append]
  exact ByteArray.utf8DecodeChar?_utf8EncodeChar_append

theorem eq_append_of_decodeChar {bs : Bytes} {c : Char} (h : decodeChar bs = some c) :
    ∃ rest, bs = String.utf8EncodeChar c ++ rest := by
  obtain ⟨l, hl⟩ := ByteArray.exists_of_utf8DecodeChar?_eq_some h
  have hdata := congrArg (fun b : ByteArray => b.data.toList) hl
  simp only [ByteArray.data_append, Array.toList_append, List.data_toByteArray] at hdata
  exact ⟨l.data.toList, hdata⟩

theorem decodeUtf8_append (c : Char) (bs : Bytes) :
    decodeUtf8 (String.utf8EncodeChar c ++ bs) = c :: decodeUtf8 bs := by
  have hlen : (String.utf8EncodeChar c).length = c.utf8Size := String.length_utf8EncodeChar c
  have hdec := decodeChar_append c bs
  have hdrop : (String.utf8EncodeChar c ++ bs).drop c.utf8Size = bs := by
    rw [← hlen, List.drop_left]
  generalize String.utf8EncodeChar c ++ bs = all at hdec hdrop
  cases all with
  | nil => cases hdec
  | cons b rest => simp only [decodeUtf8, hdec, hdrop]

theorem decodeUtf8_of_none {b : UInt8} {rest : Bytes} (h : decodeChar (b :: rest) = none) :
    decodeUtf8 (b :: rest) = decodeUtf8 rest := by
  rw [decodeUtf8, h]

theorem eq_nul_of_zero_mem {c : Char} (h : 0 ∈ String.utf8EncodeChar c) : c = '\x00' := by
  have hbyte : ∀ n, 0 < n % 256 → (0 : UInt8) ≠ UInt8.ofNat n := by
    intro n hn heq
    have hnat := congrArg UInt8.toNat heq
    rw [UInt8.toNat_ofNat'] at hnat
    exact absurd hnat (Nat.ne_of_lt hn)
  unfold String.utf8EncodeChar at h
  simp only [] at h
  split at h
  · rename_i hv
    have hzero : c.val.toNat = 0 := by
      by_contra hne
      exact hbyte c.val.toNat (by omega) (List.mem_singleton.mp h)
    exact Char.ext (UInt32.toNat_inj.mp hzero)
  · exfalso
    split at h
    · simp only [List.mem_cons, List.not_mem_nil, or_false] at h
      rcases h with h | h <;> exact hbyte _ (by omega) h
    · split at h
      · simp only [List.mem_cons, List.not_mem_nil, or_false] at h
        rcases h with h | h | h <;> exact hbyte _ (by omega) h
      · simp only [List.mem_cons, List.not_mem_nil, or_false] at h
        rcases h with h | h | h | h <;> exact hbyte _ (by omega) h

theorem utf8EncodeChar_nul : String.utf8EncodeChar '\x00' = [0] := by decide

theorem decodeUtf8_zeros (k : Nat) : decodeUtf8 (List.replicate k 0) = List.replicate k '\x00' := by
  induction k with
  | zero => rw [List.replicate_zero, List.replicate_zero, decodeUtf8]
  | succ k ih =>
    have hone := decodeUtf8_append '\x00' (List.replicate k 0)
    rw [utf8EncodeChar_nul, List.singleton_append] at hone
    rw [List.replicate_succ, List.replicate_succ, hone, ih]

theorem decodeChar_zeros {b : UInt8} {rest : Bytes} (h : decodeChar (b :: rest) = none) (k : Nat) :
    decodeChar (b :: (rest ++ List.replicate k 0)) = none := by
  cases hd : decodeChar (b :: (rest ++ List.replicate k 0)) with
  | none => rfl
  | some c =>
    obtain ⟨tail, htail⟩ := eq_append_of_decodeChar hd
    rw [← List.cons_append] at htail
    rcases List.append_eq_append_iff.mp htail with ⟨t, henc, hpad⟩ | ⟨t, hbs, -⟩
    · cases t with
      | nil =>
        have hwhole := decodeChar_append c []
        rw [List.append_nil, henc, List.append_nil, h] at hwhole
        cases hwhole
      | cons z t =>
        have hmem : z ∈ List.replicate k (0 : UInt8) := by
          rw [hpad]
          exact List.mem_cons_self
        have hz : z = 0 := List.eq_of_mem_replicate hmem
        have hc : c = '\x00' := eq_nul_of_zero_mem (by rw [henc, hz]; simp)
        have hlen := congrArg List.length henc
        rw [hc, utf8EncodeChar_nul] at hlen
        simp only [List.length_cons, List.length_append, List.length_nil] at hlen
        omega
    · rw [hbs, decodeChar_append] at h
      cases h

theorem decodeUtf8_pad (bs : Bytes) (k : Nat) :
    decodeUtf8 (bs ++ List.replicate k 0) = decodeUtf8 bs ++ List.replicate k '\x00' := by
  induction hn : bs.length using Nat.strongRecOn generalizing bs with
  | ind n ih =>
    cases bs with
    | nil =>
      rw [List.nil_append, decodeUtf8_zeros, decodeUtf8, List.nil_append]
    | cons b rest =>
      cases hd : decodeChar (b :: rest) with
      | some c =>
        obtain ⟨tail, htail⟩ := eq_append_of_decodeChar hd
        have hlt : tail.length < n := by
          have hpos := c.utf8Size_pos
          rw [← hn, htail, List.length_append, String.length_utf8EncodeChar]
          omega
        rw [htail, List.append_assoc, decodeUtf8_append, decodeUtf8_append, ih _ hlt tail rfl,
          List.cons_append]
      | none =>
        have hlt : rest.length < n := by
          rw [← hn]
          exact Nat.lt_succ_self _
        rw [decodeUtf8_of_none hd, List.cons_append,
          decodeUtf8_of_none (decodeChar_zeros hd k), ih _ hlt rest rfl]

theorem rstripNul_pad (s : Text) (k : Nat) :
    rstripNul (s ++ List.replicate k '\x00') = rstripNul s := by
  induction k with
  | zero => rw [List.replicate_zero, List.append_nil]
  | succ k ih =>
    rw [List.replicate_succ', ← List.append_assoc, rstripNul, List.rdropWhile_concat_pos _ _ _ (by simp)]
    exact ih

end Pingweave
