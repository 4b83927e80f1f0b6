import MiniOB.Common
import MiniOB.Lib.Bytes

/-!
# Storing values in packets

The `store_*` functions of `net/mysql_communicator.cpp`, each of which writes a value into a
buffer and returns the number of bytes it has written, and the rules of the protocol by which
a client reads integers and strings of variable length.
-/

namespace MiniOB.Mysql

/-! ### Writing -/

/-- `store_int1`. -/
def storeInt1 (value : Int) : List UInt8 := Bytes.encode 1 value

/-- `store_int2`. -/
def storeInt2 (value : Int) : List UInt8 := Bytes.encode 2 value

/-- `store_int3`. -/
def storeInt3 (value : Int) : List UInt8 := Bytes.encode 3 value

/-- `store_int4`. -/
def storeInt4 (value : Int) : List UInt8 := Bytes.encode 4 value

/-- `store_lenenc_int`. -/
def storeLenencInt (value : UInt64) : List UInt8 :=
  if value < 251 then [value.toUInt8]
  else if value < (2 : UInt64) <<< 16 then 0xFC :: Bytes.encode 2 value.toNat
  else if value < (2 : UInt64) <<< 24 then 0xFD :: Bytes.encode 3 value.toNat
  else 0xFE :: Bytes.encode 8 value.toNat

/-- `strlen` of bytes that are followed by a zero. -/
def strlen (s : List UInt8) : Nat := (s.takeWhile (· ≠ 0)).length

/-- `store_fix_length_string`, unless bytes are copied that are not there. -/
def storeFixLengthString (s : List UInt8) (len : Int) : Option (List UInt8) :=
  if len = 0 then some []
  else if 0 < len ∧ len ≤ s.length then some (s.take len.toNat)
  else none

/-- `store_lenenc_string`. -/
def storeLenencString (s : List UInt8) : Option (List UInt8) :=
  let len := int32 (strlen s)
  (storeFixLengthString s len).map fun bytes => storeLenencInt (UInt64.ofInt len) ++ bytes

/-! ### Reading -/

/-- The integer in the first `n` bytes. -/
def readInt (n : Nat) (bytes : List UInt8) : Option (UInt64 × List UInt8) :=
  (Bytes.read n bytes).map fun (front, rest) => (UInt64.ofNat (Bytes.value front), rest)

/-- The rules for integers of variable length. -/
def readLenencInt (bytes : List UInt8) : Option (UInt64 × List UInt8) :=
  match bytes with
  | [] => none
  | first :: rest =>
    if first < 0xFB then some (first.toUInt64, rest)
    else if first = 0xFC then readInt 2 rest
    else if first = 0xFD then readInt 3 rest
    else if first = 0xFE then readInt 8 rest
    else none

/-- The rules for strings with their lengths in front. -/
def readLenencString (bytes : List UInt8) : Option (List UInt8 × List UInt8) :=
  (readLenencInt bytes).bind fun (len, rest) => Bytes.read len.toNat rest

/-! ### Reading what has been written -/

section RoundTrip

variable {value : UInt64} {s rest : List UInt8}

/-- The integer is read back as what has been written, and what follows it is left. -/
def RoundTripsInt (value : UInt64) : Prop :=
  ∀ rest, readLenencInt (storeLenencInt value ++ rest) = some (value, rest)

/-- The string is read back as what has been written, and what follows it is left. -/
def RoundTripsString (s : List UInt8) : Prop :=
  ∃ bytes, storeLenencString s = some bytes
    ∧ ∀ rest, readLenencString (bytes ++ rest) = some (s, rest)

/-- The numbers that keep all their bytes: the thresholds of `store_lenenc_int` are twice what
fits into two and three bytes. -/
def Kept (n : Nat) : Prop :=
  n < 2 ^ 16 ∨ 2 ^ 17 ≤ n ∧ n < 2 ^ 24 ∨ 2 ^ 25 ≤ n

instance (n : Nat) : Decidable (Kept n) := inferInstanceAs (Decidable (_ ∨ _))

/-- What is left of a number in the bytes that are written. -/
def kept (n : Nat) : Nat :=
  if n < 251 then n
  else if n < 2 ^ 17 then n % 2 ^ 16
  else if n < 2 ^ 25 then n % 2 ^ 24
  else n

theorem kept_eq_iff (n : Nat) : kept n = n ↔ Kept n := by
  rw [kept, Kept]
  split_ifs <;> omega

theorem kept_le (n : Nat) : kept n ≤ n := by
  rw [kept]
  split_ifs <;> omega

theorem value_encode_nat (w n : Nat) : Bytes.value (Bytes.encode w n) = n % 256 ^ w := by
  have h := Bytes.value_encode w n
  exact_mod_cast h

theorem readInt_encode (w n : Nat) (rest : List UInt8) :
  readInt w (Bytes.encode w n ++ rest) = some (UInt64.ofNat (n % 256 ^ w), rest)
  := by
  have hvalue := value_encode_nat w n
  rw [readInt, Bytes.read_append (Bytes.length_encode w n), Option.map_some]
  dsimp only
  rw [hvalue]

/-- What is read back of an integer. -/
theorem readLenencInt_store (value : UInt64) (rest : List UInt8) :
  readLenencInt (storeLenencInt value ++ rest) = some (UInt64.ofNat (kept value.toNat), rest)
  := by
  have hbound := value.toNat_lt
  have hsmall : (251 : UInt64).toNat = 251 := rfl
  have htwo : ((2 : UInt64) <<< 16).toNat = 2 ^ 17 := rfl
  have hthree : ((2 : UInt64) <<< 24).toNat = 2 ^ 25 := rfl
  rw [storeLenencInt, kept]
  simp only [UInt64.lt_iff_toNat_lt, hsmall, htwo, hthree]
  split_ifs with hone htwo' hthree'
  · have hbyte : value.toUInt8.toNat = value.toNat := by
      rw [UInt64.toNat_toUInt8]
      exact Nat.mod_eq_of_lt (Nat.lt_trans hone (by decide))
    have hlt : value.toUInt8 < 0xFB := by
      rw [UInt8.lt_iff_toNat_lt, hbyte]
      exact hone
    rw [List.singleton_append, readLenencInt, if_pos hlt]
    congr 2
    apply UInt64.toNat_inj.mp
    rw [UInt8.toNat_toUInt64, hbyte, UInt64.ofNat_toNat]
  · exact readInt_encode 2 value.toNat rest
  · exact readInt_encode 3 value.toNat rest
  · have h := readInt_encode 8 value.toNat rest
    rw [Nat.mod_eq_of_lt (show value.toNat < 256 ^ 8 from hbound)] at h
    exact h

theorem roundTripsInt_iff (value : UInt64) :
  RoundTripsInt value ↔ Kept value.toNat
  := by
  rw [← kept_eq_iff]
  have hle := kept_le value.toNat
  have hbound := value.toNat_lt
  constructor
  · intro h
    have hread := h []
    rw [readLenencInt_store] at hread
    injection hread with hread
    have heq := congrArg (fun result => result.1.toNat) hread
    change (UInt64.ofNat (kept value.toNat)).toNat = value.toNat at heq
    rwa [UInt64.toNat_ofNat_of_lt' (hle.trans_lt hbound)] at heq
  · intro h rest
    rw [readLenencInt_store, h, UInt64.ofNat_toNat]

theorem strlen_le (s : List UInt8) : strlen s ≤ s.length := (List.takeWhile_prefix _).length_le

theorem strlen_eq_iff (s : List UInt8) : strlen s = s.length ↔ 0 ∉ s := by
  constructor
  · intro h hmem
    have hwhole := (List.takeWhile_prefix _).eq_of_length h
    have hzero := List.takeWhile_eq_self_iff.mp hwhole 0 hmem
    simp at hzero
  · intro h
    rw [strlen, List.takeWhile_eq_self_iff.mpr]
    intro x hx
    rw [decide_eq_true_eq]
    rintro rfl
    exact h hx

theorem ofInt_natCast {n : Nat} (h : n < 2 ^ 64) : UInt64.ofInt n = UInt64.ofNat n := by
  rw [UInt64.ofInt, Int.emod_eq_of_lt (Int.natCast_nonneg n) (by exact_mod_cast h),
    Int.toNat_natCast]

/-- A string is written as its length and its bytes, if its length is an `int`. -/
theorem storeLenencString_eq {len : Nat} (hlen : int32 (strlen s) = len) :
  storeLenencString s = some (storeLenencInt (UInt64.ofNat len) ++ s.take len) ∧ len ≤ s.length
  := by
  have hle : len ≤ s.length := by
    have h := int32_le (Int.natCast_nonneg (strlen s))
    have h' := strlen_le s
    omega
  have hlt : len < 2 ^ 64 := by
    have h : int32 (strlen s) < 2 ^ 31 := Int.bmod_lt (by decide)
    omega
  refine ⟨?_, hle⟩
  rw [storeLenencString, hlen, ofInt_natCast hlt, storeFixLengthString, Int.toNat_natCast]
  split_ifs with hzero hpos
  · obtain rfl : len = 0 := by omega
    rfl
  · rfl
  · omega

theorem readLenencString_store {len : Nat} (hlen : len < 2 ^ 64) (bytes : List UInt8) :
  readLenencString (storeLenencInt (UInt64.ofNat len) ++ bytes) = Bytes.read (kept len) bytes
  := by
  have hlen' : (UInt64.ofNat len).toNat = len := UInt64.toNat_ofNat_of_lt' hlen
  have hkept : (UInt64.ofNat (kept len)).toNat = kept len :=
    UInt64.toNat_ofNat_of_lt' ((kept_le len).trans_lt hlen)
  rw [readLenencString, readLenencInt_store, hlen', Option.bind_some]
  dsimp only
  rw [hkept]

/-- Nothing is written if the length is no `int`. -/
theorem storeLenencString_eq_none (hlen : int32 (strlen s) < 0) : storeLenencString s = none := by
  rw [storeLenencString, storeFixLengthString, if_neg (by omega), if_neg (by omega)]
  rfl

theorem roundTripsString_iff (s : List UInt8) :
  RoundTripsString s ↔ 0 ∉ s ∧ s.length < 2 ^ 31 ∧ Kept s.length
  := by
  rw [← strlen_eq_iff, ← kept_eq_iff]
  have hstrlen := strlen_le s
  constructor
  · rintro ⟨bytes, hstore, hread⟩
    obtain hneg | hpos := lt_or_ge (int32 (strlen s)) 0
    · rw [storeLenencString_eq_none hneg] at hstore
      cases hstore
    obtain ⟨len, hlen⟩ := Int.eq_ofNat_of_zero_le hpos
    obtain ⟨hwrite, hle⟩ := storeLenencString_eq hlen
    have hint := int32_le (Int.natCast_nonneg (strlen s))
    have hlt : int32 (strlen s) < 2 ^ 31 := Int.bmod_lt (by decide)
    have hkept := kept_le len
    have hempty := hread []
    rw [hwrite] at hstore
    cases hstore
    rw [List.append_assoc, readLenencString_store (by omega)] at hempty
    obtain ⟨hfront, hlength⟩ := Bytes.read_eq_some hempty
    rw [List.append_nil, List.append_nil] at hfront
    have htaken := congrArg List.length hfront
    rw [List.length_take] at htaken
    obtain rfl : len = s.length := by omega
    exact ⟨by omega, by omega, hlength.symm⟩
  · rintro ⟨hzero, hlt, hkept⟩
    have hint : int32 (strlen s) = s.length := by
      rw [hzero]
      exact int32_of_mem (by omega) (by rw [int32Max]; omega)
    refine ⟨_, (storeLenencString_eq hint).1, ?_⟩
    intro rest
    rw [List.take_length, List.append_assoc, readLenencString_store (by omega), hkept,
      Bytes.read_append rfl]

/-- The integers and the strings that are read back. -/
theorem lenenc_roundTrips_iff (value : UInt64) (s : List UInt8) :
  (RoundTripsInt value ↔ Kept value.toNat)
    ∧ (RoundTripsString s ↔ 0 ∉ s ∧ s.length < 2 ^ 31 ∧ Kept s.length)
  := ⟨roundTripsInt_iff value, roundTripsString_iff s⟩

/-- The first number that is written into two bytes and does not fit. -/
theorem lenenc_not_roundTrips : ¬ ((∀ value, RoundTripsInt value) ∧ ∀ s, RoundTripsString s) := by
  rintro ⟨h, -⟩
  have hkept := (roundTripsInt_iff 65536).mp (h 65536)
  exact absurd hkept (by decide)

end RoundTrip

end MiniOB.Mysql
