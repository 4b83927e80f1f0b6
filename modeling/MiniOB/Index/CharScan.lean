import MiniOB.Index.RangeScan
import MiniOB.Lib.Truncation

/-!
# Range scans of an index on strings

The strings in a column of the type `CHARS(n)` have at most `n` bytes, the bounds of a scan any
number. `BplusTreeScanner::fix_user_key` cuts bounds that are too long: a right one is cut and
becomes inclusive, and of a left one the last byte that is left is incremented. At the byte
`0xff` the increment ends in a NUL, so that the bound loses a byte and lets in strings below it.
-/

namespace MiniOB.BplusTree

/-! ### Strings -/

/-- A byte, as the comparison of strings reads it. -/
abbrev Byte := Fin 256

/-- A string that a NUL ends. -/
structure CString where
  bytes : List Byte
  nul : 0 ∉ bytes
  deriving DecidableEq

/-- A string in a column of the type `CHARS(n)`. -/
structure Chars (n : Nat) extends CString where
  fits : bytes.length ≤ n
  deriving DecidableEq

/-- The empty string. -/
def Chars.empty (n : Nat) : Chars n := ⟨⟨[], List.not_mem_nil⟩, Nat.zero_le n⟩

/-- The string in a buffer of `n` bytes. -/
def Chars.ofBuffer (n : Nat) (buffer : List Byte) : Chars n where
  bytes := (buffer.take n).takeWhile (· ≠ 0)
  nul := by
    intro hmem
    have hkept := List.all_eq_true.mp (List.all_takeWhile (l := buffer.take n) (p := (· ≠ 0))) 0 hmem
    simp at hkept
  fits := by
    have hle := (List.takeWhile_sublist (· ≠ 0) (l := buffer.take n)).length_le
    exact hle.trans (List.length_take_le n buffer)

/-- `strncmp`, for the bytes before the NUL. -/
def strncmp : Nat → List Byte → List Byte → Int
  | 0, _, _ => 0
  | _ + 1, [], [] => 0
  | _ + 1, [], b :: _ => 0 - b.val
  | _ + 1, a :: _, [] => a.val
  | n + 1, a :: s, b :: t => if a ≠ b then a.val - b.val else if a = 0 then 0 else strncmp n s t

/-- `common::compare_string`, for the same length on both sides. -/
def compareString (n : Nat) (v1 v2 : CString) : Int := strncmp n v1.bytes v2.bytes

/-- `key_buf[attr_length - 1]++`. -/
def incrementLast : List Byte → List Byte
  | [] => []
  | [b] => [b + 1]
  | b :: bytes => b :: incrementLast bytes

/-- `BplusTreeScanner::fix_user_key`: the bytes of the fixed key, and whether the bound becomes
inclusive. -/
def fixUserKey (attrLength : Nat) (wantGreater : Bool) (userKey : List Byte) : List Byte × Bool :=
  if userKey.length ≤ attrLength then
    (userKey ++ List.replicate (attrLength - userKey.length) 0, false)
  else if userKey[attrLength]? = some 0 then (userKey.take attrLength, false)
  else
    (if wantGreater then incrementLast (userKey.take attrLength) else userKey.take attrLength, true)

/-- A column of the type `CHARS(n)`. -/
def charColumn (n : Nat) : KeyColumn CString (Chars n) where
  compare v1 v2 := cmp (compareString n v1 v2) 0
  fixUserKey wantGreater userKey :=
    let (keyBuf, inclusive) := fixUserKey n wantGreater userKey.bytes
    (Chars.ofBuffer n keyBuf, inclusive)

section Order

variable {n : Nat}

/-- The order of strings: that of their bytes, from left to right. -/
instance : LinearOrder (Chars n) :=
  LinearOrder.lift' (fun s : Chars n => s.bytes) (by
    rintro ⟨⟨bytes, _⟩, _⟩ ⟨⟨bytes', _⟩, _⟩ h
    cases h
    rfl)

theorem Chars.lt_iff {s t : Chars n} : s < t ↔ s.bytes < t.bytes := Iff.rfl

theorem Chars.bytes_inj {s t : Chars n} : s.bytes = t.bytes ↔ s = t := by
  constructor
  · obtain ⟨⟨bytes, _⟩, _⟩ := s
    obtain ⟨⟨bytes', _⟩, _⟩ := t
    rintro rfl
    rfl
  · rintro rfl
    rfl

theorem val_pos {b : Byte} {bytes : List Byte} (h : 0 ∉ b :: bytes) : 0 < b.val := by
  obtain ⟨hne, _⟩ := not_or.mp (fun hor => h (List.mem_cons.mpr hor))
  exact Nat.pos_of_ne_zero fun hzero => hne (Fin.ext hzero.symm)

/-- Strings are compared as far as `n` bytes. -/
theorem strncmp_spec {s t : List Byte} (hs : 0 ∉ s) (ht : 0 ∉ t) :
  (strncmp n s t < 0 ↔ s.take n < t.take n) ∧ (strncmp n s t = 0 ↔ s.take n = t.take n)
  := by
  induction n generalizing s t with
  | zero => simp [strncmp]
  | succ n ih =>
    cases s with
    | nil =>
      cases t with
      | nil => simp [strncmp]
      | cons b t =>
        have hpos := val_pos ht
        simp only [strncmp, List.take_nil, List.take_succ_cons, List.nil_lt_cons, iff_true]
        refine ⟨by omega, iff_of_false (by omega) (by simp)⟩
    | cons a s =>
      cases t with
      | nil =>
        have hpos := val_pos hs
        simp only [strncmp, List.take_nil, List.take_succ_cons]
        exact ⟨iff_of_false (by omega) (List.not_lt_nil _), iff_of_false (by omega) (by simp)⟩
      | cons b t =>
        have hpos := val_pos hs
        have hrest := ih (fun h => hs (List.mem_cons_of_mem a h))
          (fun h => ht (List.mem_cons_of_mem b h))
        simp only [strncmp, List.take_succ_cons, List.cons_lt_cons_iff, List.cons.injEq]
        obtain hlt | rfl | hgt := lt_trichotomy a b
        · have hval := Fin.lt_def.mp hlt
          rw [if_pos hlt.ne]
          exact ⟨iff_of_true (by omega) (.inl hlt),
            iff_of_false (by omega) fun h => hlt.ne h.1⟩
        · have hne : a ≠ 0 := fun h => hpos.ne' (congrArg Fin.val h)
          rw [if_neg (not_not.mpr rfl), if_neg hne, hrest.1, hrest.2]
          simp
        · have hval := Fin.lt_def.mp hgt
          rw [if_pos hgt.ne']
          refine ⟨iff_of_false (by omega) ?_, iff_of_false (by omega) fun h => hgt.ne' h.1⟩
          rintro (hlt | ⟨heq, _⟩)
          · exact lt_asymm hlt hgt
          · exact hgt.ne' heq

/-- The strings of a column are in the order that the comparison finds. -/
theorem compareString_neg_iff (s t : Chars n) :
  compareString n s.toCString t.toCString < 0 ↔ s < t
  := by
  rw [compareString, (strncmp_spec s.nul t.nul).1, List.take_of_length_le s.fits,
    List.take_of_length_le t.fits, Chars.lt_iff]

theorem compareString_eq_zero_iff (s t : Chars n) :
  compareString n s.toCString t.toCString = 0 ↔ s = t
  := by
  rw [compareString, (strncmp_spec s.nul t.nul).2, List.take_of_length_le s.fits,
    List.take_of_length_le t.fits, Chars.bytes_inj]

end Order

/-! ### Fixed keys -/

section Fixed

variable {n : Nat} {bytes p rest : List Byte} {b : Byte}

theorem bytes_ofBuffer (hlen : bytes.length ≤ n) (hnul : 0 ∉ bytes) (tail : List Byte)
    (htail : ∀ b ∈ tail.head?, b = 0) :
  (Chars.ofBuffer n (bytes ++ tail)).bytes = bytes
  := by
  have hkeep : ∀ b ∈ bytes, decide (b ≠ 0) = true := by
    intro b hb
    exact decide_eq_true fun hzero => hnul (hzero ▸ hb)
  have htake : (bytes ++ tail).take n = bytes ++ tail.take (n - bytes.length) := by
    rw [List.take_append, List.take_of_length_le hlen]
  have hstop : (tail.take (n - bytes.length)).takeWhile (· ≠ 0) = [] := by
    cases tail with
    | nil => simp
    | cons b tail =>
      obtain rfl := htail b rfl
      cases n - bytes.length <;> simp
  change ((bytes ++ tail).take n).takeWhile (· ≠ 0) = bytes
  rw [htake, List.takeWhile_append_of_pos hkeep, hstop, List.append_nil]

theorem incrementLast_append (p : List Byte) (b : Byte) :
  incrementLast (p ++ [b]) = p ++ [b + 1]
  := by
  induction p with
  | nil => rfl
  | cons x p ih =>
    obtain ⟨y, q, hq⟩ := List.exists_cons_of_ne_nil (List.append_ne_nil_of_right_ne_nil p
      (List.cons_ne_nil b []))
    rw [List.cons_append, List.cons_append, ← ih, hq]
    rfl

theorem val_add_one {b : Byte} (h : b ≠ 255) : (b + 1).val = b.val + 1 := by
  have hne : b.val ≠ 255 := fun heq => h (Fin.ext heq)
  have hlt := b.isLt
  rw [Fin.val_add]
  change (b.val + 1) % 256 = b.val + 1
  omega

theorem zero_ne_add_one (b : Byte) (h : b ≠ 255) : 0 ≠ b + 1 := by
  intro heq
  have hval := congrArg Fin.val heq
  rw [val_add_one h] at hval
  exact absurd hval.symm (Nat.succ_ne_zero _)

theorem lt_iff_add_one_le (h : b ≠ 255) (x : Byte) : b < x ↔ b + 1 ≤ x := by
  rw [Fin.lt_def, Fin.le_def, val_add_one h]
  omega

theorem le_top (x : Byte) : x ≤ 255 := Fin.le_def.mpr (Nat.le_of_lt_succ x.isLt)

theorem not_mem_take (h : 0 ∉ bytes) (k : Nat) : 0 ∉ bytes.take k :=
  fun hmem => h (List.mem_of_mem_take hmem)

variable {bound : Bound CString}

/-- A bound that fits is left as it is. -/
theorem fixed_short (h : bound.userKey.bytes.length ≤ n) (wantGreater : Bool) :
  ((charColumn n).fixed wantGreater bound).userKey.bytes = bound.userKey.bytes
    ∧ ((charColumn n).fixed wantGreater bound).inclusive = bound.inclusive
  := by
  have hfix : fixUserKey n wantGreater bound.userKey.bytes
      = (bound.userKey.bytes ++ List.replicate (n - bound.userKey.bytes.length) 0, false) :=
    if_pos h
  rw [KeyColumn.fixed, charColumn]
  simp only [hfix, Bool.or_false, and_true]
  apply bytes_ofBuffer h bound.userKey.nul
  intro b hb
  rw [List.head?_replicate] at hb
  split at hb
  · cases hb
  · exact (Option.mem_some_iff.mp hb).symm

theorem fixUserKey_long (h : n < bytes.length) (hnul : 0 ∉ bytes) (wantGreater : Bool) :
  fixUserKey n wantGreater bytes
    = (if wantGreater then incrementLast (bytes.take n) else bytes.take n, true)
  := by
  have hne : bytes[n]? ≠ some 0 := fun hget => hnul (List.mem_of_getElem? hget)
  rw [fixUserKey, if_neg (Nat.not_le.mpr h), if_neg hne]

/-- A right bound that is too long is cut off. -/
theorem fixed_long_right (h : n < bound.userKey.bytes.length) :
  ((charColumn n).fixed false bound).userKey.bytes = bound.userKey.bytes.take n
    ∧ ((charColumn n).fixed false bound).inclusive = true
  := by
  rw [KeyColumn.fixed, charColumn]
  simp only [fixUserKey_long h bound.userKey.nul, Bool.or_true, and_true, Bool.false_eq_true,
    if_false]
  have hbytes := bytes_ofBuffer (List.length_take_le n bound.userKey.bytes)
    (not_mem_take bound.userKey.nul n) [] (by simp)
  rwa [List.append_nil] at hbytes

/-- Of a left bound that is too long the last byte that is left is incremented. -/
theorem fixed_long_left (hbytes : bound.userKey.bytes = p ++ b :: rest) (hlen : p.length + 1 = n)
    (hrest : rest ≠ []) :
  ((charColumn n).fixed true bound).userKey.bytes = (if b = 255 then p else p ++ [b + 1])
    ∧ ((charColumn n).fixed true bound).inclusive = true
  := by
  have hnul := bound.userKey.nul
  have hlong : n < bound.userKey.bytes.length := by
    have hpos := List.length_pos_of_ne_nil hrest
    rw [hbytes, List.length_append, List.length_cons]
    omega
  have htake : bound.userKey.bytes.take n = p ++ [b] := by
    rw [hbytes, ← hlen, List.take_append, List.take_of_length_le (by omega)]
    simp
  have hp : 0 ∉ p := by
    intro hmem
    apply hnul
    rw [hbytes]
    exact List.mem_append_left _ hmem
  rw [KeyColumn.fixed, charColumn]
  simp only [fixUserKey_long hlong hnul, Bool.or_true, and_true, if_true, htake,
    incrementLast_append]
  split
  · rename_i htop
    apply bytes_ofBuffer (by omega) hp
    rintro x ⟨⟩
    rw [htop]
    rfl
  · rename_i htop
    have hnext : 0 ∉ p ++ [b + 1] := by
      rw [List.mem_append, List.mem_singleton]
      rintro (hmem | hzero)
      · exact hp hmem
      · exact zero_ne_add_one b htop hzero
    have hbytes' := bytes_ofBuffer (n := n) (by
      rw [List.length_append, List.length_singleton]
      omega) hnext [] (by simp)
    rwa [List.append_nil] at hbytes'

end Fixed

/-! ### What the fixed bounds let in -/

section Admits

variable {n : Nat} {bound : Bound CString} (s : Chars n)

/-- A bound on the bytes of a string. -/
def Bound.ofString (bound : Bound CString) : Bound (List Byte) :=
  ⟨bound.userKey.bytes, bound.inclusive⟩

/-- A bound that is too long and in which the last byte that is left is `0xff`. -/
def Bound.Carries (n : Nat) (bound : Bound CString) : Prop :=
  n < bound.userKey.bytes.length ∧ bound.userKey.bytes[n - 1]? = some 255

instance (n : Nat) (bound : Bound CString) : Decidable (bound.Carries n) :=
  inferInstanceAs (Decidable (_ ∧ _))

theorem ne_of_long (h : n < bound.userKey.bytes.length) : s.bytes ≠ bound.userKey.bytes := by
  intro heq
  have hfits := s.fits
  rw [heq] at hfits
  omega

/-- A right bound is fixed as it should be. -/
theorem fixed_right :
  ((charColumn n).fixed false bound).admitsBelow s = true
    ↔ bound.ofString.admitsBelow s.bytes = true
  := by
  rw [Bound.admitsBelow_iff, Bound.admitsBelow_iff, Chars.lt_iff, ← Chars.bytes_inj]
  obtain hshort | hlong := (Nat.lt_or_ge n bound.userKey.bytes.length).symm
  · obtain ⟨hbytes, hincl⟩ := fixed_short hshort false
    rw [hbytes, hincl]
    rfl
  · obtain ⟨hbytes, hincl⟩ := fixed_long_right hlong
    have hcut : s.bytes < bound.ofString.userKey ↔ s.bytes ≤ bound.userKey.bytes.take n :=
      Truncation.lt_iff_le_take s.fits hlong
    have hne : s.bytes ≠ bound.ofString.userKey := ne_of_long s hlong
    rw [hbytes, hincl, hcut, le_iff_lt_or_eq]
    simp [hne]

/-- The parts of a left bound that is too long. -/
theorem exists_parts (hn : 0 < n) (h : n < bound.userKey.bytes.length) :
  ∃ b rest, bound.userKey.bytes = bound.userKey.bytes.take (n - 1) ++ b :: rest
    ∧ (bound.userKey.bytes.take (n - 1)).length + 1 = n ∧ rest ≠ []
    ∧ bound.userKey.bytes[n - 1]? = some b
  := by
  have hlt : n - 1 < bound.userKey.bytes.length := by omega
  refine ⟨bound.userKey.bytes[n - 1], bound.userKey.bytes.drop n, ?_, ?_, ?_, ?_⟩
  · have hdrop := List.drop_eq_getElem_cons hlt
    rw [Nat.sub_add_cancel hn] at hdrop
    rw [← hdrop, List.take_append_drop]
  · rw [List.length_take_of_le hlt.le]
    omega
  · apply List.ne_nil_of_length_pos
    rw [List.length_drop]
    omega
  · exact List.getElem?_eq_getElem hlt

theorem admitsAbove_of_long (h : n < bound.userKey.bytes.length) :
  bound.ofString.admitsAbove s.bytes = true ↔ bound.userKey.bytes < s.bytes
  := by
  have hne : bound.ofString.userKey ≠ s.bytes := (ne_of_long s h).symm
  rw [Bound.admitsAbove_iff]
  simp only [hne, and_false, or_false]
  rfl

/-- A left bound lets in what it should and, when it carries, the strings with the bytes that
are left of it. -/
theorem fixed_left (hn : 0 < n) :
  ((charColumn n).fixed true bound).admitsAbove s = true
    ↔ bound.ofString.admitsAbove s.bytes = true
      ∨ bound.Carries n ∧ bound.userKey.bytes.take (n - 1) <+: s.bytes
  := by
  obtain hshort | hlong := (Nat.lt_or_ge n bound.userKey.bytes.length).symm
  · obtain ⟨hbytes, hincl⟩ := fixed_short hshort true
    have hnot : ¬ bound.Carries n := fun h => absurd h.1 (Nat.not_lt.mpr hshort)
    rw [Bound.admitsAbove_iff, Bound.admitsAbove_iff, hincl, Chars.lt_iff, ← Chars.bytes_inj,
      hbytes]
    simp only [hnot, false_and, or_false]
    rfl
  · obtain ⟨b, rest, hparts, hlen, hrest, hget⟩ := exists_parts hn hlong
    obtain ⟨hbytes, hincl⟩ := fixed_long_left hparts hlen hrest
    have hfits : s.bytes.length ≤ (bound.userKey.bytes.take (n - 1)).length + 1 := by
      rw [hlen]
      exact s.fits
    have hfixed : ((charColumn n).fixed true bound).admitsAbove s = true
        ↔ ((charColumn n).fixed true bound).userKey.bytes ≤ s.bytes := by
      rw [Bound.admitsAbove_iff, Chars.lt_iff, ← Chars.bytes_inj, hincl, le_iff_lt_or_eq]
      simp
    rw [admitsAbove_of_long s hlong, hfixed, hbytes]
    by_cases htop : b = 255
    · have hcarries : bound.Carries n := ⟨hlong, htop ▸ hget⟩
      rw [if_pos htop, Truncation.le_iff_lt_or_prefix hfits, ← hparts]
      simp only [hcarries, true_and]
    · have hcarries : ¬ bound.Carries n := by
        rintro ⟨_, h⟩
        rw [hget, Option.some.injEq] at h
        exact htop h
      rw [if_neg htop, ← Truncation.lt_iff_next_le (lt_iff_add_one_le htop) hfits, ← hparts]
      simp only [hcarries, false_and, or_false]

/-- The strings that are let in when a left bound carries are below it. -/
theorem not_admitsAbove_of_prefix (hn : 0 < n) (hcarries : bound.Carries n)
    (hstart : bound.userKey.bytes.take (n - 1) <+: s.bytes) :
  bound.ofString.admitsAbove s.bytes = false
  := by
  obtain ⟨b, rest, hparts, hlen, hrest, hget⟩ := exists_parts hn hcarries.1
  obtain rfl : b = 255 := Option.some.inj (hget.symm.trans hcarries.2)
  have hfits : s.bytes.length ≤ (bound.userKey.bytes.take (n - 1)).length + 1 := by
    rw [hlen]
    exact s.fits
  have hlt := Truncation.lt_of_prefix le_top hrest hfits hstart
  rw [← hparts] at hlt
  apply eq_false_of_ne_true
  rw [admitsAbove_of_long s hcarries.1]
  exact lt_asymm hlt

end Admits

/-! ### Scans -/

section Scans

local instance charKeyOrder {n : Nat} : LinearOrder (Key (Chars n)) := Key.lexOrder

variable {n : Nat} {left right : Option (Bound CString)} {t : Tree (Key (Chars n)) RID}
  {entries : Finset (Key (Chars n))} {c : Parameters (Key (Chars n))}

/-- The strings between two bounds. -/
def between (left right : Option (Bound CString)) (s : Chars n) : Bool :=
  within (left.map Bound.ofString) (right.map Bound.ofString) s.bytes

/-- A scan between two bounds gives the entries between them, and no error. -/
def ScansRange (left right : Option (Bound CString)) (entries : Finset (Key (Chars n)))
    (t : Tree (Key (Chars n)) RID) : Prop :=
  ∃ scanner, openScanner (charColumn n) left right t = .ok (.ok scanner) t
    ∧ ∀ fuel, entries.card < fuel →
      drain fuel scanner [] t = .ok (ridsOf (between left right) entries, .recordEof) t

/-- As far as `n` bytes the left bound is below the right one, or both are the same and
inclusive. -/
def Accepted (n : Nat) (left right : Option (Bound CString)) : Prop :=
  ∀ l ∈ left, ∀ r ∈ right, l.userKey.bytes.take n < r.userKey.bytes.take n
    ∨ l.userKey.bytes.take n = r.userKey.bytes.take n ∧ l.inclusive = true ∧ r.inclusive = true

/-- No entry gets into the scan because the left bound carries. -/
def NoneAdded (left right : Option (Bound CString)) (entries : Finset (Key (Chars n))) : Prop :=
  ∀ l ∈ left, l.Carries n → ∀ key ∈ entries,
    l.userKey.bytes.take (n - 1) <+: key.userKey.bytes →
      within none (right.map Bound.ofString) key.userKey.bytes = false

theorem charColumn_accepts_iff :
  (charColumn n).refuses left right = false ↔ Accepted n left right
  := by
  cases left with
  | none => simp [KeyColumn.refuses, Accepted]
  | some l =>
    cases right with
    | none => simp [KeyColumn.refuses, Accepted]
    | some r =>
      have hspec := strncmp_spec (n := n) l.userKey.nul r.userKey.nul
      have hcompare : (charColumn n).compare l.userKey r.userKey
        = cmp (strncmp n l.userKey.bytes r.userKey.bytes) 0 := rfl
      simp only [KeyColumn.refuses, hcompare, Accepted, Option.mem_some_iff, forall_eq',
        ← hspec.1, ← hspec.2]
      obtain hlt | heq | hgt := lt_trichotomy (strncmp n l.userKey.bytes r.userKey.bytes) 0
      · simp [hlt.cmp_eq_lt, hlt]
      · simp [heq]
      · simp [hgt.cmp_eq_gt, hgt.ne', not_lt_of_gt hgt]

/-- What is between the fixed bounds. -/
theorem within_fixed_iff (hn : 0 < n) (s : Chars n) :
  within (left.map ((charColumn n).fixed true)) (right.map ((charColumn n).fixed false)) s = true
    ↔ between left right s = true ∨ within none (right.map Bound.ofString) s.bytes = true
      ∧ ∃ l ∈ left, l.Carries n ∧ l.userKey.bytes.take (n - 1) <+: s.bytes
  := by
  have hright : (right.map ((charColumn n).fixed false)).all (fun bound => bound.admitsBelow s)
      = (right.map Bound.ofString).all fun bound => bound.admitsBelow s.bytes := by
    cases right with
    | none => rfl
    | some r => exact Bool.eq_iff_iff.mpr (fixed_right s)
  rw [between, within, within, within, hright]
  cases left with
  | none => simp
  | some l =>
    simp only [Option.map_some, Option.all_some, Bool.and_eq_true, fixed_left s hn,
      Option.all_none, true_and, Option.mem_some_iff, exists_eq_left']
    tauto

theorem length_ridsOf (p : Chars n → Bool) :
  (ridsOf p entries).length = (entries.filter fun key => p key.userKey).card
  := by
  rw [ridsOf, List.length_map, Finset.length_sort]

/-- A scan of a tree with the entries of a set. -/
theorem Refines.scansRange_iff (h : Refines c t entries) (hn : 0 < n)
    (hrecords : ∀ key ∈ entries, IsRecord key.rid) :
  ScansRange left right entries t ↔ Accepted n left right ∧ NoneAdded left right entries
  := by
  constructor
  · rintro ⟨scanner, hopen, hdrain⟩
    have haccepted : (charColumn n).refuses left right = false := by
      apply eq_false_of_ne_true
      intro hrefused
      rw [openScanner, if_pos hrefused] at hopen
      cases hopen
    refine ⟨charColumn_accepts_iff.mp haccepted, ?_⟩
    obtain ⟨scanner', hopen', hdrain'⟩ := h.rangeScan hrecords left right haccepted
    obtain rfl : scanner = scanner' := by
      rw [hopen] at hopen'
      cases hopen'
      rfl
    have hresult := (hdrain _ (Nat.lt_succ_self _)).symm.trans (hdrain' _ (Nat.lt_succ_self _))
    have hcard := congrArg List.length (congrArg Prod.fst (EStateM.Result.ok.inj hresult).1)
    rw [length_ridsOf, length_ridsOf] at hcard
    rintro l rfl hcarries key hkey hstart
    apply eq_false_of_ne_true
    intro hright
    have hsub : (entries.filter fun key => between (some l) right key.userKey = true)
        ⊂ entries.filter fun key => within ((some l).map ((charColumn n).fixed true))
          (right.map ((charColumn n).fixed false)) key.userKey = true := by
      rw [Finset.ssubset_iff_of_subset]
      · refine ⟨key, Finset.mem_filter.mpr ⟨hkey, ?_⟩, ?_⟩
        · exact (within_fixed_iff hn _).mpr (.inr ⟨hright, l, rfl, hcarries, hstart⟩)
        · intro hmem
          have hbetween := (Finset.mem_filter.mp hmem).2
          rw [between, within, Option.map_some, Option.all_some,
            not_admitsAbove_of_prefix key.userKey hn hcarries hstart] at hbetween
          cases hbetween
      · apply Finset.monotone_filter_right
        intro key _ hbetween
        exact (within_fixed_iff hn _).mpr (.inl hbetween)
    exact (Finset.card_lt_card hsub).ne hcard
  · rintro ⟨haccepted, hnone⟩
    obtain ⟨scanner, hopen, hdrain⟩ :=
      h.rangeScan hrecords left right (charColumn_accepts_iff.mpr haccepted)
    refine ⟨scanner, hopen, ?_⟩
    intro fuel hfuel
    rw [hdrain fuel hfuel, ridsOf, ridsOf]
    have hfilter : (entries.filter fun key => within (left.map ((charColumn n).fixed true))
        (right.map ((charColumn n).fixed false)) key.userKey = true)
        = entries.filter fun key => between left right key.userKey = true := by
      apply Finset.filter_congr
      intro key hkey
      rw [within_fixed_iff hn]
      constructor
      · rintro (hbetween | ⟨hright, l, hl, hcarries, hstart⟩)
        · exact hbetween
        · rw [hnone l hl hcarries key hkey hstart] at hright
          cases hright
      · exact .inl
    rw [hfilter]

/-- The key of zero bytes is below the keys of all records. -/
theorem zeroKey_le {userKey : Chars n} {rid : RID} (h : IsRecord rid) :
  (⟨Chars.empty n, ⟨0, 0⟩⟩ : Key (Chars n)) ≤ ⟨userKey, rid⟩
  := by
  have hpage := h.page
  apply le_of_lt
  rw [Key.lt_iff]
  cases hbytes : userKey.bytes with
  | nil =>
    have hempty : Chars.empty n = userKey := Chars.bytes_inj.mp hbytes.symm
    exact .inr ⟨hempty, .inl (by simp only; omega)⟩
  | cons b bytes =>
    left
    rw [Chars.lt_iff, hbytes]
    exact List.nil_lt_cons b bytes

/-- After any calls on a new tree of strings of at most `n` bytes, a scan gives exactly the
entries between its bounds, and no error, if and only if the bounds are in order as far as `n`
bytes and no entry between them gets in because the left bound carries. -/
theorem charScan_iff (n : Nat) (hn : 0 < n) (c : Parameters (Key (Chars n)))
    (hleafMax : 4 ≤ c.leafMaxSize) (hmax : 4 ≤ c.internalMaxSize)
    (hzero : c.zeroKey = ⟨Chars.empty n, ⟨0, 0⟩⟩) (calls : List (Call (Chars n)))
    (hrecords : ∀ userKey rid, .insertEntry userKey rid ∈ calls → IsRecord rid)
    (left right : Option (Bound CString)) :
  ∃ rcs t, execAll c calls Tree.create = .ok rcs t
    ∧ (ScansRange left right (applyAll calls ∅).2 t
      ↔ Accepted n left right ∧ NoneAdded left right (applyAll calls ∅).2)
  := by
  have hle : ∀ userKey rid, .insertEntry userKey rid ∈ calls → c.zeroKey ≤ ⟨userKey, rid⟩ := by
    intro userKey rid hmem
    rw [hzero]
    exact zeroKey_le (hrecords userKey rid hmem)
  obtain ⟨t, hrun, hrefines⟩ := execAll_create hmax hleafMax (.inr hle)
  exact ⟨_, t, hrun, hrefines.scansRange_iff hn (records_applyAll hrecords)⟩

/-- The string `abcd`, and `abcd1`, which is too long for a column of four bytes. -/
def abcd : Chars 4 := ⟨⟨[97, 98, 99, 100], by decide⟩, by decide⟩

def abcd1 : CString := ⟨[97, 98, 99, 100, 49], by decide⟩

theorem charScan_iff_abcd :
  ∃ rcs t, execAll ⟨6, 4, ⟨Chars.ofBuffer 4 [], ⟨0, 0⟩⟩⟩ [.insertEntry abcd ⟨1, 0⟩] Tree.create
      = .ok rcs t
    ∧ (ScansRange (some ⟨abcd.toCString, true⟩) none (applyAll [.insertEntry abcd ⟨1, 0⟩] ∅).2 t
      ↔ Accepted 4 (some ⟨abcd.toCString, true⟩) none ∧ NoneAdded (some ⟨abcd.toCString, true⟩) none
        (applyAll [.insertEntry abcd ⟨1, 0⟩] ∅).2)
  := by
  apply charScan_iff 4 (by decide) _ (by decide) (by decide) rfl
  intro userKey rid hmem
  simp only [List.mem_singleton, Call.insertEntry.injEq] at hmem
  obtain ⟨rfl, rfl⟩ := hmem
  exact ⟨by decide, by decide⟩

/-- The string `abcd` is in the range from itself to below `abcd1`, but the scan is refused. -/
theorem charScan_refused :
  ∃ rcs t, execAll ⟨6, 4, ⟨Chars.ofBuffer 4 [], ⟨0, 0⟩⟩⟩ [.insertEntry abcd ⟨1, 0⟩] Tree.create
      = .ok rcs t
    ∧ between (some ⟨abcd.toCString, true⟩) (some ⟨abcd1, false⟩) abcd = true
    ∧ ¬ ScansRange (some ⟨abcd.toCString, true⟩) (some ⟨abcd1, false⟩)
      (applyAll [.insertEntry abcd ⟨1, 0⟩] ∅).2 t
  := by
  obtain ⟨t, hrun, _⟩ := (create_refines (c := (⟨6, 4, ⟨Chars.ofBuffer 4 [], ⟨0, 0⟩⟩⟩ :
    Parameters (Key (Chars 4))))).execAll (by decide) (by decide) [.insertEntry abcd ⟨1, 0⟩]
  refine ⟨_, t, hrun, by decide, ?_⟩
  rintro ⟨scanner, hopen, -⟩
  have hrefused : (charColumn 4).refuses (some ⟨abcd.toCString, true⟩) (some ⟨abcd1, false⟩) = true :=
    by decide
  rw [openScanner, if_pos hrefused] at hopen
  cases hopen

end Scans

end MiniOB.BplusTree
