import MiniOB.Index.Scanner
import MiniOB.Lib.Chunks

/-!
# What a scan delivers

A scan of a tree that does not change reads its leaves as chunks: from the first entry that has
reached the left key on, up to the right key. It delivers the entries between the keys in
their order, unless a latch is busy at the border before a leaf that holds one of them.
-/

namespace MiniOB.BplusTree

open LowerBound Levels

section Steps

variable {K V : Type} [LinearOrder K] {t : Tree K V} {page next : Int} {items : List (K × V)}
  {index : Nat} {it : K × V} {rightKey : Option K} {scanner : Scanner K} {latches : List Bool}

/-- An item that is not beyond the right key. -/
def wanted (rightKey : Option K) (it : K × V) : Bool := !beyond rightKey it.1

theorem touchEnd_eq (h : t.body page = some (.leaf next items)) (hit : items[index]? = some it) :
  touchEnd rightKey page index t = .ok (beyond rightKey it.1) t
  := by
  cases rightKey with
  | none => rfl
  | some rightKey =>
    rw [touchEnd, run_bind (getLeaf_eq h)]
    simp only [hit]
    rfl

omit [LinearOrder K] in
theorem fetchItem_eq (h : t.body page = some (.leaf next items)) (hit : items[index]? = some it) :
  fetchItem page index t = .ok it.2 t
  := by
  rw [fetchItem, run_bind (getLeaf_eq h)]
  simp only [hit]
  rfl

/-- Within a leaf. -/
theorem nextFrom_within (h : t.body page = some (.leaf next items))
    (hit : items[scanner.iterIndex]? = some it) (fuel : Nat) :
  nextFrom (fuel + 1) page scanner latches t
    = .ok ⟨if beyond scanner.rightKey it.1 then .error .recordEof else .ok it.2, scanner, latches⟩ t
  := by
  obtain ⟨hlt, _⟩ := List.getElem?_eq_some_iff.mp hit
  rw [nextFrom, run_bind (getLeaf_eq h)]
  simp only [if_pos hlt]
  rw [run_bind (touchEnd_eq h hit)]
  split
  · rfl
  · rw [run_bind (fetchItem_eq h hit)]
    rfl

/-- Behind the last leaf. -/
theorem nextFrom_last (h : t.body page = some (.leaf invalidPageNum items))
    (hlen : items.length ≤ scanner.iterIndex) (fuel : Nat) :
  nextFrom (fuel + 1) page scanner latches t = .ok ⟨.error .recordEof, scanner, latches⟩ t
  := by
  rw [nextFrom, run_bind (getLeaf_eq h)]
  simp only [if_neg (Nat.not_lt.mpr hlen)]
  rfl

/-- At the border to the next leaf. -/
theorem nextFrom_border (h : t.body page = some (.leaf next items)) (hnext : next ≠ invalidPageNum)
    (hlen : items.length ≤ scanner.iterIndex) (fuel : Nat) :
  nextFrom (fuel + 1) page scanner latches t
    = if latches.headD true then
        nextFrom fuel next { scanner with currentFrame := some next, iterIndex := 0 } latches.tail t
      else .ok ⟨.error .lockedNeedWait, { scanner with currentFrame := some next }, latches.tail⟩ t
  := by
  rw [nextFrom, run_bind (getLeaf_eq h)]
  simp only [if_neg (Nat.not_lt.mpr hlen), if_neg hnext]
  split <;> rfl

end Steps

section Drain

variable {K V : Type} [LinearOrder K] {t : Tree K V} {A B : List (Leaf K V)} {l : Leaf K V}
  {rightKey : Option K} {latches : List Bool}

/-- What a scan reads from a place in the leaf `l` on, with the leaves `B` behind it. -/
def delivered (rightKey : Option K) (l : Leaf K V) (index : Nat) (B : List (Leaf K V))
    (latches : List Bool) : List V :=
  (Chunks.read (wanted rightKey) l.items index (B.map Leaf.items) latches).map Prod.snd

/-- The keys of the items from a place on, in the leaf `l` and the leaves `B`. -/
theorem pairwise_wanted (h : ((contents (l :: B)).map Prod.fst).Pairwise (· < ·)) :
  (l.items ++ (B.map Leaf.items).flatten).Pairwise
    fun x y => wanted rightKey y → wanted rightKey x
  := by
  rw [contents_cons, contents, List.flatMap_def, List.pairwise_map] at h
  apply h.imp
  intro x y hlt hy
  cases rightKey with
  | none => rfl
  | some rightKey =>
    simp only [wanted, beyond, Bool.not_eq_true', decide_eq_false_iff_not, not_lt] at hy ⊢
    exact hlt.le.trans hy

variable {index fuel : Nat} {it : K × V} {scanner scanner' : Scanner K} {latches' : List Bool}
  {value : V} {values : List V} {rc : RC}

theorem drain_ok (h : nextEntry scanner latches t = .ok ⟨.ok value, scanner', latches'⟩ t)
    (hrest : drain fuel scanner' latches' t = .ok (values, rc) t) :
  drain (fuel + 1) scanner latches t = .ok (value :: values, rc) t
  := by
  rw [drain, run_bind h]
  simp only
  rw [run_bind hrest]
  rfl

theorem drain_wait (h : nextEntry scanner latches t
      = .ok (⟨.error .lockedNeedWait, scanner', latches'⟩ : NextEntry K V) t) :
  drain (fuel + 1) scanner latches t = (drain fuel scanner' latches' : Mtr K V _) t
  := by
  rw [drain, run_bind h]
  rfl

theorem drain_end (h : nextEntry scanner latches t
      = .ok (⟨.error rc, scanner', latches'⟩ : NextEntry K V) t) (hrc : rc ≠ .lockedNeedWait) :
  drain (fuel + 1) scanner latches t = .ok (([] : List V), rc) t
  := by
  rw [drain, run_bind h]
  simp only [if_neg hrc]
  rfl

section NextEntry

variable {page next next' : Int} {items items' : List (K × V)} (rightKey : Option K)

/-- A scanner that has given an item looks at the one behind it. -/
theorem nextEntry_emitted (hpages : t.pages.length = fuel + 1) :
  nextEntry ⟨some page, index, true, rightKey⟩ latches t
    = (nextFrom (fuel + 1) page ⟨some page, index + 1, true, rightKey⟩ latches :
        Mtr K V (NextEntry K V)) t
  := by
  rw [nextEntry, ← hpages]
  rfl

theorem nextEntry_within (latches : List Bool) (h : t.body page = some (.leaf next items))
    (hit : items[index + 1]? = some it) (hpages : 0 < t.pages.length) :
  nextEntry ⟨some page, index, true, rightKey⟩ latches t
    = .ok ⟨if beyond rightKey it.1 then .error .recordEof else .ok it.2,
        ⟨some page, index + 1, true, rightKey⟩, latches⟩ t
  := by
  obtain ⟨fuel, hfuel⟩ := Nat.exists_eq_add_one.mpr hpages
  rw [nextEntry_emitted rightKey hfuel, nextFrom_within h hit]

theorem nextEntry_last (latches : List Bool)
    (h : t.body page = some (.leaf invalidPageNum items)) (hlen : items.length ≤ index + 1) (hpages : 0 < t.pages.length) :
  nextEntry ⟨some page, index, true, rightKey⟩ latches t
    = .ok ⟨.error .recordEof, ⟨some page, index + 1, true, rightKey⟩, latches⟩ t
  := by
  obtain ⟨fuel, hfuel⟩ := Nat.exists_eq_add_one.mpr hpages
  rw [nextEntry_emitted rightKey hfuel, nextFrom_last h hlen]

/-- When the latch is busy, the scanner has moved into the next leaf and keeps its index. -/
theorem nextEntry_busy (h : t.body page = some (.leaf next items)) (hnext : next ≠ invalidPageNum)
    (hlen : items.length ≤ index + 1) (hpages : 0 < t.pages.length)
    (hlatch : latches.headD true = false) :
  nextEntry ⟨some page, index, true, rightKey⟩ latches t
    = .ok ⟨.error .lockedNeedWait, ⟨some next, index + 1, true, rightKey⟩, latches.tail⟩ t
  := by
  obtain ⟨fuel, hfuel⟩ := Nat.exists_eq_add_one.mpr hpages
  rw [nextEntry_emitted rightKey hfuel, nextFrom_border h hnext hlen, hlatch]
  rfl

theorem nextEntry_entered (h : t.body page = some (.leaf next items))
    (hnext : next ≠ invalidPageNum) (hlen : items.length ≤ index + 1)
    (hlatch : latches.headD true = true) (h' : t.body next = some (.leaf next' items'))
    (hit : items'[0]? = some it) (hpages : 2 ≤ t.pages.length) :
  nextEntry ⟨some page, index, true, rightKey⟩ latches t
    = .ok ⟨if beyond rightKey it.1 then .error .recordEof else .ok it.2,
        ⟨some next, 0, true, rightKey⟩, latches.tail⟩ t
  := by
  obtain ⟨fuel, hfuel⟩ : ∃ n, t.pages.length = n + 1 + 1 := ⟨t.pages.length - 2, by omega⟩
  rw [nextEntry_emitted rightKey hfuel, nextFrom_border h hnext hlen, hlatch, if_pos rfl,
    nextFrom_within h' hit]

end NextEntry

theorem delivered_last (hlen : l.items.length ≤ index) :
  delivered rightKey l index [] latches = []
  := by
  rw [delivered, List.map_nil, Chunks.read_last hlen]
  rfl

/-- At a border. -/
theorem delivered_border {b : Leaf K V} (hlen : l.items.length ≤ index) :
  delivered rightKey l index (b :: B) latches
    = if latches.headD true then delivered rightKey b 0 B latches.tail
      else delivered rightKey b (index + 1) B latches.tail
  := by
  rw [delivered, List.map_cons, Chunks.read_border hlen]
  split <;> rfl

theorem delivered_cons (hit : l.items[index]? = some it) (hwanted : beyond rightKey it.1 = false) :
  delivered rightKey l index B latches = it.2 :: delivered rightKey l (index + 1) B latches
  := by
  have hx : wanted rightKey it = true := by
    rw [wanted, hwanted]
    rfl
  rw [delivered, Chunks.read_cons hit hx]
  rfl

/-- Behind an item that is beyond the right key none is wanted. -/
theorem unwanted_behind (hsorted : ((contents (l :: B)).map Prod.fst).Pairwise (· < ·))
    (hit : l.items[index]? = some it) (hbeyond : beyond rightKey it.1 = true) :
  ∀ x ∈ l.items.drop index ++ (B.map Leaf.items).flatten, wanted rightKey x = false
  := by
  have hx : wanted rightKey it = false := by
    rw [wanted, hbeyond]
    rfl
  obtain ⟨hlt, hget⟩ := List.getElem?_eq_some_iff.mp hit
  have hmono : (l.items.drop index ++ (B.map Leaf.items).flatten).Pairwise
      fun x y => wanted rightKey y → wanted rightKey x := by
    apply List.Pairwise.sublist _ (pairwise_wanted hsorted)
    apply List.Sublist.append_right
    apply List.drop_sublist
  rw [List.drop_eq_getElem_cons hlt, hget, List.cons_append] at hmono ⊢
  exact Chunks.unwanted_of_head hmono hx

theorem delivered_beyond (hsorted : ((contents (l :: B)).map Prod.fst).Pairwise (· < ·))
    (hit : l.items[index]? = some it) (hbeyond : beyond rightKey it.1 = true) :
  delivered rightKey l index B latches = []
  := by
  rw [delivered, Chunks.read_eq_nil (unwanted_behind hsorted hit hbeyond), List.map_nil]

/-- A scanner that has emitted an item of the leaf `l`, or that has moved into it too early. -/
theorem drain_eq (hlinked : Linked t invalidPageNum (l :: B)) (hne : ∀ b ∈ B, b.items ≠ [])
    (hsorted : ((contents (l :: B)).map Prod.fst).Pairwise (· < ·))
    (hpages : (l :: B).length ≤ t.pages.length)
    (hfuel : l.items.length - (index + 1) + (contents B).length + latches.length < fuel) :
  drain fuel ⟨some l.page, index, true, rightKey⟩ latches t
    = .ok (delivered rightKey l (index + 1) B latches, .recordEof) t
  := by
  induction fuel generalizing l B index latches with
  | zero => omega
  | succ fuel ih =>
    have hpos : 0 < t.pages.length := by
      rw [List.length_cons] at hpages
      omega
    obtain hlt | hlen := Nat.lt_or_ge (index + 1) l.items.length
    · have hit := List.getElem?_eq_getElem hlt
      have hnext := nextEntry_within rightKey latches hlinked.1 hit hpos
      cases hbeyond : beyond rightKey l.items[index + 1].1 with
      | true =>
        rw [hbeyond, if_pos rfl] at hnext
        rw [drain_end hnext (by decide), delivered_beyond hsorted hit hbeyond]
      | false =>
        rw [hbeyond, if_neg Bool.false_ne_true] at hnext
        rw [drain_ok hnext (ih hlinked hne hsorted hpages (by omega)),
          delivered_cons hit hbeyond]
    · cases B with
      | nil =>
        have hnext := nextEntry_last rightKey latches hlinked.1 hlen hpos
        rw [drain_end hnext (by decide), delivered_last hlen]
      | cons b B =>
        rw [contents_cons, List.length_append] at hfuel
        have hb := hlinked.2.1
        have hborder := hlinked.1
        have hvalid := ne_invalid_of_body (isSome_body_of_eq hb)
        have hsorted' : ((contents (b :: B)).map Prod.fst).Pairwise (· < ·) := by
          rw [contents_cons, List.map_append] at hsorted
          exact (List.pairwise_append.mp hsorted).2.1
        have hne' : ∀ b' ∈ B, b'.items ≠ [] := fun b' hmem => hne b' (List.mem_cons_of_mem _ hmem)
        rw [List.length_cons, List.length_cons] at hpages
        have hpages' : (b :: B).length ≤ t.pages.length := by
          rw [List.length_cons]
          omega
        have hpages₂ : 2 ≤ t.pages.length := by omega
        rw [firstPage_cons] at hborder
        cases hlatch : latches.headD true with
        | true =>
          have hpos' : 0 < b.items.length := List.length_pos_of_ne_nil (hne b List.mem_cons_self)
          have hit := List.getElem?_eq_getElem hpos'
          have hnext := nextEntry_entered rightKey hborder hvalid hlen hlatch hb hit hpages₂
          rw [delivered_border hlen, hlatch, if_pos rfl]
          cases hbeyond : beyond rightKey b.items[0].1 with
          | true =>
            rw [hbeyond, if_pos rfl] at hnext
            rw [drain_end hnext (by decide), delivered_beyond hsorted' hit hbeyond]
          | false =>
            have htail : latches.tail.length ≤ latches.length := by
              rw [List.length_tail]
              omega
            rw [hbeyond, if_neg Bool.false_ne_true] at hnext
            rw [drain_ok hnext (ih hlinked.2 hne' hsorted' hpages' (by omega)),
              delivered_cons hit hbeyond]
        | false =>
          have hnext := nextEntry_busy rightKey hborder hvalid hlen hpos hlatch
          have htail : latches.tail.length + 1 = latches.length := by
            cases latches with
            | nil => cases hlatch
            | cons _ latches => rfl
          rw [drain_wait hnext, ih hlinked.2 hne' hsorted' hpages' (by omega),
            delivered_border hlen, hlatch, if_neg Bool.false_ne_true]

end Drain

/-! ### The place to start at -/

section Start

variable {K V : Type} [LinearOrder K] {c : Parameters K} {t : Tree K V} {ls A B : List (Leaf K V)}
  {l : Leaf K V} {Us : List (Level K)} {key : K}

/-- A key that has reached the left one. -/
def reached (leftKey : Option K) (key : K) : Bool :=
  match leftKey with
  | none => true
  | some leftKey => decide (leftKey ≤ key)

/-- The place that a left key is found at in the leaf that covers it. -/
theorem exists_lookup (h : (l.items.map Prod.fst).Pairwise (· < ·)) (key : K) :
  ∃ index, (leafLookup l.items key).1 = index ∧ index ≤ l.items.length
    ∧ (∀ x ∈ l.items.take index, x.1 < key) ∧ ∀ x ∈ l.items.drop index, key ≤ x.1
  := by
  obtain ⟨P, Q, hitems | ⟨value, hitems⟩, hP, hQ⟩ := exists_position key h
  · refine ⟨P.length, by rw [hitems, leafLookup_absent hP hQ], ?_, ?_, ?_⟩
    · rw [hitems, List.length_append]
      omega
    · rw [hitems, List.take_left]
      intro x hx
      exact hP x.1 (List.mem_map_of_mem hx)
    · rw [hitems, List.drop_left]
      intro x hx
      exact (hQ x.1 (List.mem_map_of_mem hx)).le
  · refine ⟨P.length, by rw [hitems, leafLookup_present hP hQ], ?_, ?_, ?_⟩
    · rw [hitems, List.length_append]
      omega
    · rw [hitems, List.take_left]
      intro x hx
      exact hP x.1 (List.mem_map_of_mem hx)
    · rw [hitems, List.drop_left]
      intro x hx
      obtain rfl | hx := List.mem_cons.mp hx
      · exact le_rfl
      · exact (hQ x.1 (List.mem_map_of_mem hx)).le

/-- The scan starts at the first entry that has reached the left key, if there is one. -/
theorem Represents.startPosition (h : Represents c t ls Us) (leftKey : Option K) :
  startPosition leftKey t = .ok none t ∧ (∀ x ∈ contents ls, reached leftKey x.1 = false)
    ∨ ∃ A l B index, ls = A ++ l :: B ∧ index < l.items.length
      ∧ startPosition leftKey t = .ok (some (l.page, index)) t
      ∧ (∀ x ∈ contents A ++ l.items.take index, reached leftKey x.1 = false)
      ∧ ∀ x ∈ l.items.drop index ++ contents B, reached leftKey x.1 = true
  := by
  cases leftKey with
  | none =>
    obtain ⟨l, ls', rfl, _⟩ := h.exists_first
    refine .inr ⟨[], l, ls', 0, rfl, (h.sizes l List.mem_cons_self).2.1, ?_, ?_, ?_⟩
    · rw [BplusTree.startPosition, run_bind h.leftMostPage]
      rfl
    · intro x hx
      cases hx
    · intro x _
      rfl
  | some key =>
    obtain ⟨A, l, B, rfl, hcovers, hfind⟩ := h.findLeaf key
    have hB : ∀ r ∈ B, (key : WithBot K) < r.bound :=
      fun r hr => hcovers.lt r.entry (List.mem_map_of_mem hr)
    have hleft : ∀ x ∈ contents A, x.1 < key := fun x => h.ordered.lt_of_mem_left hcovers.le
    have hright : ∀ x ∈ contents B, key ≤ x.1 := fun x => h.ordered.le_of_mem_right hB
    have hsorted : (l.items.map Prod.fst).Pairwise (· < ·) := by
      have hall := h.ordered.sorted
      rw [contents_append, contents_cons, List.map_append, List.map_append] at hall
      exact (List.pairwise_append.mp (List.pairwise_append.mp hall).2.1).1
    obtain ⟨index, hlookup, hle, htake, hdrop⟩ := exists_lookup hsorted key
    have hrun : ∀ f : Int × List (K × V) → Mtr K V (Option (Int × Nat)),
        (getLeaf l.page >>= f) t = f (firstPage invalidPageNum B, l.items) t :=
      fun f => run_bind (getLeaf_eq h.linked.body)
    rw [BplusTree.startPosition, run_bind hfind]
    simp only
    rw [hrun]
    simp only [hlookup]
    obtain hend | hlt := (Nat.lt_or_ge index l.items.length).symm
    · rw [List.take_of_length_le hend] at htake
      simp only [if_pos hend]
      cases B with
      | nil =>
        refine .inl ⟨rfl, ?_⟩
        intro x hx
        rw [contents_append, contents_cons, contents_nil, List.append_nil] at hx
        obtain hx | hx := List.mem_append.mp hx
        · exact decide_eq_false (not_le.mpr (hleft x hx))
        · exact decide_eq_false (not_le.mpr (htake x hx))
      | cons b B =>
        have hlinked := h.linked
        rw [linked_append] at hlinked
        have hvalid := ne_invalid_of_body (isSome_body_of_eq hlinked.2.2.1)
        refine .inr ⟨A ++ [l], b, B, 0, by simp, ?_, ?_, ?_, ?_⟩
        · exact (h.sizes b (by simp)).2.1
        · rw [firstPage_cons, if_neg hvalid]
          rfl
        · intro x hx
          rw [List.take_zero, List.append_nil, contents_append, contents_cons, contents_nil,
            List.append_nil] at hx
          obtain hx | hx := List.mem_append.mp hx
          · exact decide_eq_false (not_le.mpr (hleft x hx))
          · exact decide_eq_false (not_le.mpr (htake x hx))
        · intro x hx
          exact decide_eq_true (hright x hx)
    · simp only [if_neg (Nat.not_le.mpr hlt)]
      refine .inr ⟨A, l, B, index, rfl, hlt, rfl, ?_, ?_⟩
      · intro x hx
        obtain hx | hx := List.mem_append.mp hx
        · exact decide_eq_false (not_le.mpr (hleft x hx))
        · exact decide_eq_false (not_le.mpr (htake x hx))
      · intro x hx
        obtain hx | hx := List.mem_append.mp hx
        · exact decide_eq_true (hdrop x hx)
        · exact decide_eq_true (hright x hx)

end Start

/-! ### Whole scans -/

section Whole

variable {K V : Type} [LinearOrder K] {c : Parameters K} {t : Tree K V} {ls A B : List (Leaf K V)}
  {l : Leaf K V} {Us : List (Level K)} {leftKey rightKey : Option K} {latches : List Bool}
  {fuel index : Nat}

/-- An item between the keys of a scan. -/
def inRange (leftKey rightKey : Option K) (x : K × V) : Bool :=
  reached leftKey x.1 && wanted rightKey x

/-- The values of the items between the keys. -/
def ranged (leftKey rightKey : Option K) (items : List (K × V)) : List V :=
  (items.filter (inRange leftKey rightKey)).map Prod.snd

/-- The number of latches that a scan has to get on its way through the leaves with an item
between the keys. -/
def borders (leftKey rightKey : Option K) (chunks : List (List (K × V))) : Nat :=
  Chunks.wantedChunks (inRange leftKey rightKey) chunks - 1

/-- A scanner that has not started gives the item at its place, and then what is behind it. -/
theorem drain_start (hlinked : Linked t invalidPageNum (l :: B)) (hne : ∀ b ∈ B, b.items ≠ [])
    (hsorted : ((contents (l :: B)).map Prod.fst).Pairwise (· < ·))
    (hpages : (l :: B).length ≤ t.pages.length) {it : K × V} (hit : l.items[index]? = some it)
    (hwanted : beyond rightKey it.1 = false)
    (hfuel : l.items.length - index + (contents B).length + latches.length < fuel) :
  drain fuel ⟨some l.page, index, false, rightKey⟩ latches t
    = .ok (delivered rightKey l index B latches, .recordEof) t
  := by
  obtain ⟨hlt, _⟩ := List.getElem?_eq_some_iff.mp hit
  obtain ⟨fuel, rfl⟩ := Nat.exists_eq_add_one.mpr (Nat.zero_lt_of_lt hfuel)
  have hfirst : nextEntry ⟨some l.page, index, false, rightKey⟩ latches t
      = .ok ⟨.ok it.2, ⟨some l.page, index, true, rightKey⟩, latches⟩ t := by
    rw [nextEntry]
    simp only [Bool.false_eq_true, if_false]
    rw [run_bind (fetchItem_eq hlinked.1 hit)]
    rfl
  rw [drain_ok hfirst (drain_eq hlinked hne hsorted hpages (by omega)),
    delivered_cons hit hwanted]

theorem drain_closed (hfuel : 0 < fuel) :
  drain fuel ⟨none, index, false, rightKey⟩ latches t = .ok (([] : List V), .recordEof) t
  := by
  obtain ⟨fuel, rfl⟩ := Nat.exists_eq_add_one.mpr hfuel
  have hfirst : nextEntry ⟨none, index, false, rightKey⟩ latches t
      = .ok (⟨.error .recordEof, ⟨none, index, false, rightKey⟩, latches⟩ : NextEntry K V) t := rfl
  exact drain_end hfirst (by decide)

/-- Where no item is between the keys, no latch has to be got. -/
theorem borders_eq_zero (h : ∀ x ∈ contents ls, inRange leftKey rightKey x = false) :
  borders leftKey rightKey (ls.map Leaf.items) = 0
  := by
  have hzero : Chunks.wantedChunks (inRange leftKey rightKey) (ls.map Leaf.items) = 0 := by
    apply Chunks.wantedChunks_eq_zero
    rwa [← List.flatMap_def]
  rw [borders, hzero]

theorem ranged_eq_nil {items : List (K × V)}
    (h : ∀ x ∈ items, inRange leftKey rightKey x = false) :
  ranged leftKey rightKey items = []
  := by
  have hnone : items.filter (inRange leftKey rightKey) = [] := by
    rw [List.filter_eq_nil_iff]
    intro x hx
    rw [h x hx]
    exact Bool.false_ne_true
  rw [ranged, hnone, List.map_nil]

/-- From the place of the first item that has reached the left key on, the items between the
keys are those that are not beyond the right one. -/
theorem filter_inRange
    (hbefore : ∀ x ∈ contents A ++ l.items.take index, reached leftKey x.1 = false)
    (hbehind : ∀ x ∈ l.items.drop index ++ contents B, reached leftKey x.1 = true) :
  (contents (A ++ l :: B)).filter (inRange leftKey rightKey)
    = (l.items.drop index ++ contents B).filter (wanted rightKey)
  := by
  have hsplit : contents (A ++ l :: B)
      = (contents A ++ l.items.take index) ++ (l.items.drop index ++ contents B) := by
    rw [contents_append, contents_cons, List.append_assoc, ← List.append_assoc (l.items.take index),
      List.take_append_drop]
  have hleft : (contents A ++ l.items.take index).filter (inRange leftKey rightKey) = [] := by
    rw [List.filter_eq_nil_iff]
    intro x hx
    rw [inRange, hbefore x hx]
    exact Bool.false_ne_true
  have hright : (l.items.drop index ++ contents B).filter (inRange leftKey rightKey)
      = (l.items.drop index ++ contents B).filter (wanted rightKey) := by
    apply List.filter_congr
    intro x hx
    rw [inRange, hbehind x hx, Bool.true_and]
  rw [hsplit, List.filter_append, hleft, hright, List.nil_append]

/-- The leaves from the one that the scan starts in on are those with items between the keys. -/
theorem borders_eq {it : K × V} (hit : l.items[index]? = some it)
    (hwanted : beyond rightKey it.1 = false)
    (hbefore : ∀ x ∈ contents A ++ l.items.take index, reached leftKey x.1 = false)
    (hbehind : ∀ x ∈ l.items.drop index ++ contents B, reached leftKey x.1 = true) :
  borders leftKey rightKey ((A ++ l :: B).map Leaf.items)
    = Chunks.wantedChunks (wanted rightKey) (B.map Leaf.items)
  := by
  have hA : Chunks.wantedChunks (inRange leftKey rightKey) (A.map Leaf.items) = 0 := by
    apply Chunks.wantedChunks_eq_zero
    intro x hx
    rw [← List.flatMap_def] at hx
    rw [inRange, hbefore x (List.mem_append_left _ hx), Bool.false_and]
  have hmem : it ∈ l.items.drop index := by
    obtain ⟨hlt, hget⟩ := List.getElem?_eq_some_iff.mp hit
    rw [List.drop_eq_getElem_cons hlt, hget]
    exact List.mem_cons_self
  have hany : l.items.any (inRange leftKey rightKey) = true := by
    rw [List.any_eq_true]
    refine ⟨it, List.mem_of_getElem? hit, ?_⟩
    rw [inRange, hbehind it (List.mem_append_left _ hmem), wanted, hwanted]
    rfl
  have hB : Chunks.wantedChunks (inRange leftKey rightKey) (B.map Leaf.items)
      = Chunks.wantedChunks (wanted rightKey) (B.map Leaf.items) := by
    apply List.countP_congr
    intro chunk hchunk
    obtain ⟨b, hb, rfl⟩ := List.mem_map.mp hchunk
    have hsame : ∀ x ∈ b.items, inRange leftKey rightKey x = wanted rightKey x := by
      intro x hx
      rw [inRange, hbehind x (List.mem_append_right _ (List.mem_flatMap.mpr ⟨b, hb, hx⟩)),
        Bool.true_and]
    rw [List.any_eq_true, List.any_eq_true]
    exact exists_congr fun x => and_congr_right fun hx => by rw [hsame x hx]
  rw [borders, List.map_append, List.map_cons, Chunks.wantedChunks_append, hA,
    Chunks.wantedChunks_cons_of_any hany, hB]
  omega

/-- A scan between two keys: it ends, and it delivers the items between the keys in their order
if and only if it gets the latches on its way through the leaves with such an item. -/
theorem Represents.scan (h : Represents c t ls Us) (leftKey rightKey : Option K) :
  ∃ scanner, openKeys leftKey rightKey t = .ok scanner t
    ∧ ∀ latches fuel, (contents ls).length + latches.length < fuel →
      ∃ rids, drain fuel scanner latches t = .ok (rids, .recordEof) t
        ∧ (rids = ranged leftKey rightKey (contents ls)
          ↔ ∀ latch ∈ latches.take (borders leftKey rightKey (ls.map Leaf.items)), latch = true)
  := by
  obtain ⟨hrun, hnone⟩ | ⟨A, l, B, index, rfl, hlt, hrun, hbefore, hbehind⟩ :=
    h.startPosition leftKey
  · have hout : ∀ x ∈ contents ls, inRange leftKey rightKey x = false := by
      intro x hx
      rw [inRange, hnone x hx, Bool.false_and]
    refine ⟨⟨none, 0, false, none⟩, ?_, ?_⟩
    · rw [openKeys, run_bind hrun]
      rfl
    · intro latches fuel hfuel
      refine ⟨[], drain_closed (by omega), ?_⟩
      rw [ranged_eq_nil hout, borders_eq_zero hout]
      simp
  · have hlinked := (linked_append.mp h.linked).2
    have hit := List.getElem?_eq_getElem hlt
    have hopen : openKeys leftKey rightKey t
        = .ok ⟨if beyond rightKey l.items[index].1 then none else some l.page, index, false,
            rightKey⟩ t := by
      rw [openKeys, run_bind hrun]
      simp only
      rw [run_bind (touchEnd_eq hlinked.1 hit)]
      rfl
    have hsorted : ((contents (l :: B)).map Prod.fst).Pairwise (· < ·) := by
      have hall := h.ordered.sorted
      rw [contents_append, List.map_append] at hall
      exact (List.pairwise_append.mp hall).2.1
    refine ⟨_, hopen, ?_⟩
    intro latches fuel hfuel
    rw [contents_append, contents_cons, List.length_append, List.length_append] at hfuel
    cases hbeyond : beyond rightKey l.items[index].1 with
    | true =>
      have hout : ∀ x ∈ contents (A ++ l :: B), inRange leftKey rightKey x = false := by
        have hnone := unwanted_behind hsorted hit hbeyond
        rw [← List.flatMap_def] at hnone
        have hfilter : (contents (A ++ l :: B)).filter (inRange leftKey rightKey) = [] := by
          rw [filter_inRange hbefore hbehind, List.filter_eq_nil_iff]
          intro x hx
          rw [hnone x hx]
          exact Bool.false_ne_true
        intro x hx
        exact eq_false_of_ne_true (List.filter_eq_nil_iff.mp hfilter x hx)
      rw [if_pos rfl, ranged_eq_nil hout, borders_eq_zero hout]
      exact ⟨[], drain_closed (by omega), by simp⟩
    | false =>
      have hlist : (contents B) = (B.map Leaf.items).flatten := List.flatMap_def
      have hmono : (B.map Leaf.items).flatten.Pairwise
          fun x y => wanted rightKey y → wanted rightKey x :=
        (List.pairwise_append.mp (pairwise_wanted hsorted)).2.1
      have hne : ∀ b ∈ B, b.items ≠ [] := by
        intro b hb
        apply List.ne_nil_of_length_pos
        exact (h.sizes b (by simp [hb])).2.1
      have hpages : (l :: B).length ≤ t.pages.length := by
        have hle := h.length_leaves_le
        rw [List.length_append] at hle
        omega
      have hiff : Chunks.read (wanted rightKey) l.items index (B.map Leaf.items) latches
          = (l.items.drop index ++ (B.map Leaf.items).flatten).filter (wanted rightKey) ↔ _ :=
        Chunks.read_eq_iff hmono (by simpa using hne)
      rw [if_neg Bool.false_ne_true, ranged, filter_inRange hbefore hbehind]
      refine ⟨_, drain_start hlinked hne hsorted hpages hit hbeyond (by omega), ?_⟩
      rw [borders_eq hit hbeyond hbefore hbehind, ← hiff, hlist, delivered]
      constructor
      · intro heq
        apply Chunks.read_sublist.eq_of_length
        have hlen := congrArg List.length heq
        rwa [List.length_map, List.length_map] at hlen
      · intro heq
        rw [heq]

end Whole

/-! ### Trying again -/

section Retry

variable {K V : Type}

/-- The loop over the leaves along `next_page`, leaf by leaf. -/
def followChunks : Nat → Int → Mtr K V (List (List (K × V)))
  | 0, page => if page = invalidPageNum then pure [] else throw .fuel
  | fuel + 1, page =>
    if page = invalidPageNum then pure []
    else do
      let (nextBrother, items) ← getLeaf page
      let rest ← followChunks fuel nextBrother
      pure (items :: rest)

/-- The items of each leaf, from the leftmost one on. -/
def leafChunks : Mtr K V (List (List (K × V))) := do
  match ← leftMostPage with
  | none => pure []
  | some page => followChunks (← get).pages.length page

variable {t : Tree K V} {ls : List (Leaf K V)}

theorem followChunks_eq {fuel : Nat} (h : Linked t invalidPageNum ls) (hfuel : ls.length ≤ fuel) :
  followChunks fuel (firstPage invalidPageNum ls) t = .ok (ls.map Leaf.items) t
  := by
  induction ls generalizing fuel with
  | nil =>
    rw [firstPage_nil]
    cases fuel <;> rfl
  | cons l ls ih =>
    obtain ⟨fuel, rfl⟩ := Nat.exists_eq_add_one.mpr (Nat.zero_lt_of_lt hfuel)
    have hrest := ih h.2 (by simpa using hfuel)
    have hvalid := ne_invalid_of_body (isSome_body_of_eq h.1)
    rw [followChunks, firstPage_cons, if_neg hvalid, run_bind (getLeaf_eq h.1)]
    simp only
    rw [run_bind hrest]
    rfl

theorem Represents.leafChunks [LinearOrder K] {c : Parameters K} {Us : List (Level K)}
    (h : Represents c t ls Us) :
  leafChunks t = .ok (ls.map Leaf.items) t
  := by
  rw [BplusTree.leafChunks, run_bind h.leftMostPage]
  simp only
  rw [run_bind run_get, followChunks_eq h.linked h.length_leaves_le]

theorem Vacant.leafChunks (h : Vacant t) : leafChunks t = .ok [] t := by
  rw [BplusTree.leafChunks, run_bind h.leftMostPage]
  rfl

theorem Vacant.openKeys [LinearOrder K] (h : Vacant t) (leftKey rightKey : Option K) :
  openKeys leftKey rightKey t = .ok ⟨none, 0, false, none⟩ t
  := by
  have hstart : startPosition leftKey t = .ok none t := by
    cases leftKey with
    | none =>
      rw [startPosition, run_bind h.leftMostPage]
      rfl
    | some key =>
      rw [startPosition, run_bind (h.findLeaf key)]
      rfl
  rw [BplusTree.openKeys, run_bind hstart]
  rfl

end Retry

section Scans

variable {B U : Type} [LinearOrder (Key U)] {c : Parameters (Key U)} {t : Tree (Key U) RID}
  {entries : Finset (Key U)}

/-- The identifiers of the entries between two keys, in the order of the entries. -/
def rangedRids (leftKey rightKey : Option (Key U)) (entries : Finset (Key U)) : List RID :=
  ranged leftKey rightKey (listing entries)

/-- A scan of a tree with the entries of a set. -/
theorem Refines.scan (h : Refines c t entries) (leftKey rightKey : Option (Key U)) :
  ∃ scanner chunks, openKeys leftKey rightKey t = .ok scanner t ∧ leafChunks t = .ok chunks t
    ∧ chunks.flatten = listing entries
    ∧ ∀ latches fuel, entries.card + latches.length < fuel →
      ∃ rids, drain fuel scanner latches t = .ok (rids, .recordEof) t
        ∧ (rids = rangedRids leftKey rightKey entries
          ↔ ∀ latch ∈ latches.take (borders leftKey rightKey chunks), latch = true)
  := by
  obtain ⟨hvacant, rfl⟩ | ⟨ls, Us, hrep, hlists, _⟩ := h
  · refine ⟨_, _, hvacant.openKeys leftKey rightKey, hvacant.leafChunks, ?_, ?_⟩
    · rw [listing, Finset.sort_empty]
      rfl
    · intro latches fuel hfuel
      refine ⟨[], drain_closed (by omega), ?_⟩
      rw [rangedRids, listing, Finset.sort_empty]
      simp [ranged, borders, Chunks.wantedChunks]
  · obtain ⟨scanner, hopen, hscan⟩ := hrep.scan leftKey rightKey
    refine ⟨scanner, _, hopen, hrep.leafChunks, ?_, ?_⟩
    · rw [← hlists.eq_listing, contents, List.flatMap_def]
    · intro latches fuel hfuel
      have hlength : (contents ls).length = entries.card := by
        rw [hlists.eq_listing, listing, List.length_map, Finset.length_sort]
      obtain ⟨rids, hdrain, hiff⟩ := hscan latches fuel (by omega)
      refine ⟨rids, hdrain, ?_⟩
      rw [← hiff, rangedRids, hlists.eq_listing]

/-- A scan that calls again when it is told to wait delivers what it would have delivered with
all latches free if and only if the latches on its way through the leaves with an entry of the
range have been free. -/
theorem retry_lossless_iff (c : Parameters (Key U)) (hleafMax : 4 ≤ c.leafMaxSize)
    (hmax : 4 ≤ c.internalMaxSize) (calls : List (Call U)) (hzero : 6 ≤ c.internalMaxSize
      ∨ ∀ userKey rid, .insertEntry userKey rid ∈ calls → c.zeroKey ≤ ⟨userKey, rid⟩)
    (column : KeyColumn B U) (left right : Option (Bound B))
    (haccepted : column.refuses left right = false) :
  ∃ rcs t scanner chunks, execAll c calls Tree.create = .ok rcs t
    ∧ openScanner column left right t = .ok (.ok scanner) t ∧ leafChunks t = .ok chunks t
    ∧ ∀ latches fuel, chunks.flatten.length + latches.length < fuel →
      ∃ rids rids', drain fuel scanner latches t = .ok (rids, .recordEof) t
        ∧ drain fuel scanner [] t = .ok (rids', .recordEof) t
        ∧ (rids = rids' ↔ ∀ latch ∈ latches.take
          (borders (left.map column.leftKey) (right.map column.rightKey) chunks), latch = true)
  := by
  obtain ⟨t, hrun, hrefines⟩ := execAll_create hmax hleafMax hzero
  obtain ⟨scanner, chunks, hopen, hchunks, hflatten, hscan⟩ :=
    hrefines.scan (left.map column.leftKey) (right.map column.rightKey)
  refine ⟨_, t, scanner, chunks, hrun, ?_, hchunks, ?_⟩
  · rw [openScanner, haccepted]
    simp only [Bool.false_eq_true, if_false]
    rw [run_bind hopen]
    rfl
  · intro latches fuel hfuel
    have hcard : chunks.flatten.length = (applyAll calls ∅).2.card := by
      rw [hflatten, listing, List.length_map, Finset.length_sort]
    obtain ⟨rids, hdrain, hiff⟩ := hscan latches fuel (by omega)
    obtain ⟨rids', hdrain', hiff'⟩ := hscan [] fuel (by rw [List.length_nil]; omega)
    have hall : rids' = _ := hiff'.mpr (by simp)
    exact ⟨rids, rids', hdrain, hdrain', by rw [hall, hiff]⟩

end Scans

section Example

local instance natKeyOrder : LinearOrder (Key Nat) := Key.lexOrder

/-- Five insertions, after which the first two entries are in one leaf and the others in the
next one, and a scan of all entries. -/
def scanFive (latches : List Bool) : Mtr (Key Nat) RID (List RID × RC) := do
  let _ ← execAll ⟨6, 4, ⟨0, ⟨0, 0⟩⟩⟩ [.insertEntry 1 ⟨1, 1⟩, .insertEntry 2 ⟨1, 2⟩,
    .insertEntry 3 ⟨1, 3⟩, .insertEntry 4 ⟨1, 4⟩, .insertEntry 5 ⟨1, 5⟩]
  match ← openScanner ⟨cmp, fun _ userKey => (userKey, false)⟩ none none with
  | .error rc => pure ([], rc)
  | .ok scanner => drain 20 scanner latches

/-- When the latch of the second leaf is busy once, its entries are not delivered. -/
theorem retry_not_lossless :
  (scanFive []).run' Tree.create
    = some ([⟨1, 1⟩, ⟨1, 2⟩, ⟨1, 3⟩, ⟨1, 4⟩, ⟨1, 5⟩], .recordEof)
  ∧ (scanFive [false]).run' Tree.create = some ([⟨1, 1⟩, ⟨1, 2⟩], .recordEof)
  := by
  decide +kernel

theorem retry_lossless_iff_five :
  ∃ rcs t scanner chunks, execAll ⟨6, 4, ⟨0, ⟨0, 0⟩⟩⟩ [.insertEntry 1 ⟨1, 1⟩, .insertEntry 2 ⟨1, 2⟩,
      .insertEntry 3 ⟨1, 3⟩, .insertEntry 4 ⟨1, 4⟩, .insertEntry 5 ⟨1, 5⟩] Tree.create = .ok rcs t
    ∧ openScanner (⟨cmp, fun _ userKey => (userKey, false)⟩ : KeyColumn Nat Nat) none none t
      = .ok (.ok scanner) t ∧ leafChunks t = .ok chunks t
    ∧ ∀ latches fuel, chunks.flatten.length + latches.length < fuel →
      ∃ rids rids', drain fuel scanner latches t = .ok (rids, .recordEof) t
        ∧ drain fuel scanner [] t = .ok (rids', .recordEof) t
        ∧ (rids = rids' ↔ ∀ latch ∈ latches.take (borders none none chunks), latch = true)
  := retry_lossless_iff _ (by decide) (by decide) _ (.inl (by decide)) _ none none rfl

end Example

end MiniOB.BplusTree
