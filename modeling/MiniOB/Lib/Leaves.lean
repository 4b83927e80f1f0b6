import MiniOB.Lib.Levels

/-!
# Leaves of a search tree

The lowest level of a search tree, whose nodes hold the keys. Read from left to right, a
leaf is a lower bound followed by the keys of the leaf. The order of the tree is one order of
all these marks: the bounds and the keys grow, but a bound may be equal to the key after it.
-/

namespace Levels

variable {K V : Type}

/-- A leaf: its page, the lower bound of its keys, and its items. -/
structure Leaf (K V : Type) where
  page : Int
  bound : WithBot K
  items : List (K × V)

def Leaf.entry (l : Leaf K V) : Entry K := (l.bound, l.page)

def Leaf.keys (l : Leaf K V) : List K := l.items.map Prod.fst

/-- The items of all leaves. -/
def contents (ls : List (Leaf K V)) : List (K × V) := ls.flatMap Leaf.items

/-- A bound or a key. -/
inductive Mark (K : Type) where
  | bound (bound : WithBot K)
  | key (key : K)

/-- One mark stands before another one. -/
def Mark.Before [LinearOrder K] : Mark K → Mark K → Prop
  | .bound b, .bound b' => b < b'
  | .bound b, .key k => b ≤ k
  | .key k, .bound b => k < b
  | .key k, .key k' => k < k'

/-- The marks of a list of items. -/
def itemMarks (items : List (K × V)) : List (Mark K) := items.map fun item => .key item.1

def Leaf.marks (l : Leaf K V) : List (Mark K) := .bound l.bound :: itemMarks l.items

/-- The marks of a list of leaves. -/
def marks (ls : List (Leaf K V)) : List (Mark K) := ls.flatMap Leaf.marks

/-- The marks of the leaves are in order. -/
def Ordered [LinearOrder K] (ls : List (Leaf K V)) : Prop := (marks ls).Pairwise Mark.Before

section Marks

variable {l : Leaf K V} {ls ls' : List (Leaf K V)} {items items' : List (K × V)}

@[simp]
theorem Leaf.entry_snd (l : Leaf K V) : l.entry.2 = l.page := rfl

@[simp]
theorem Leaf.entry_fst (l : Leaf K V) : l.entry.1 = l.bound := rfl

@[simp]
theorem itemMarks_append : itemMarks (items ++ items') = itemMarks items ++ itemMarks items' :=
  List.map_append

@[simp]
theorem itemMarks_cons (item : K × V) :
  itemMarks (item :: items) = .key item.1 :: itemMarks items
  := rfl

@[simp]
theorem itemMarks_nil : itemMarks ([] : List (K × V)) = [] := rfl

@[simp]
theorem marks_append : marks (ls ++ ls') = marks ls ++ marks ls' := List.flatMap_append

@[simp]
theorem marks_cons : marks (l :: ls) = .bound l.bound :: (itemMarks l.items ++ marks ls) :=
  List.flatMap_cons

@[simp]
theorem contents_append : contents (ls ++ ls') = contents ls ++ contents ls' := List.flatMap_append

@[simp]
theorem contents_cons : contents (l :: ls) = l.items ++ contents ls := List.flatMap_cons

@[simp]
theorem contents_nil : contents ([] : List (Leaf K V)) = [] := rfl

theorem mem_marks_bound (hl : l ∈ ls) : Mark.bound l.bound ∈ marks ls :=
  List.mem_flatMap.mpr ⟨l, hl, List.mem_cons_self⟩

theorem mem_itemMarks {item : K × V} (h : item ∈ items) : Mark.key item.1 ∈ itemMarks items :=
  List.mem_map.mpr ⟨item, h, rfl⟩

theorem mem_marks_key {item : K × V} (h : item ∈ contents ls) : Mark.key item.1 ∈ marks ls := by
  obtain ⟨l, hl, hitem⟩ := List.mem_flatMap.mp h
  exact List.mem_flatMap.mpr ⟨l, hl, List.mem_cons_of_mem _ (mem_itemMarks hitem)⟩

theorem itemMarks_contents_sublist : (itemMarks (contents ls)).Sublist (marks ls) := by
  induction ls with
  | nil => exact List.Sublist.refl _
  | cons l ls ih =>
    rw [contents_cons, itemMarks_append, marks_cons]
    apply List.Sublist.cons
    apply List.Sublist.append_left ih

theorem bounds_sublist_marks : (ls.map fun l => Mark.bound l.bound).Sublist (marks ls) := by
  induction ls with
  | nil => exact List.Sublist.refl _
  | cons l ls ih =>
    rw [marks_cons, List.map_cons]
    apply List.Sublist.cons_cons
    apply ih.trans (List.sublist_append_right _ _)

end Marks

section Order

variable [LinearOrder K] {l : Leaf K V} {ls : List (Leaf K V)} {items : List (K × V)}

theorem Mark.Before.trans {x y z : Mark K} (hxy : x.Before y) (hyz : y.Before z) : x.Before z := by
  rcases x with b | k <;> rcases y with b' | k' <;> rcases z with b'' | k''
  · exact lt_trans (show b < b' from hxy) hyz
  · exact (lt_of_lt_of_le (show b < b' from hxy) hyz).le
  · exact lt_of_le_of_lt (show b ≤ k' from hxy) hyz
  · exact le_trans (show b ≤ k' from hxy) (WithBot.coe_lt_coe.mpr (show k' < k'' from hyz)).le
  · exact lt_trans (show (k : WithBot K) < b' from hxy) hyz
  · exact WithBot.coe_lt_coe.mp (lt_of_lt_of_le (show (k : WithBot K) < b' from hxy) hyz)
  · exact lt_trans (WithBot.coe_lt_coe.mpr (show k < k' from hxy)) hyz
  · exact lt_trans (show k < k' from hxy) hyz

/-- A new mark among marks in order. -/
theorem pairwise_insert {A B : List (Mark K)} {x : Mark K} (h : (A ++ B).Pairwise Mark.Before)
    (hA : ∀ a ∈ A, a.Before x) (hB : ∀ b ∈ B, x.Before b) :
  (A ++ x :: B).Pairwise Mark.Before
  := by
  rw [List.pairwise_append] at h ⊢
  refine ⟨h.1, List.pairwise_cons.mpr ⟨hB, h.2.1⟩, ?_⟩
  intro a ha b hb
  rw [List.mem_cons] at hb
  obtain rfl | hb := hb
  · apply hA a ha
  · apply h.2.2 a ha b hb

/-- A key may become the bound of the leaf that starts with it. -/
theorem pairwise_separate {A B : List (Mark K)} {k k' : K}
    (h : (A ++ .key k :: .key k' :: B).Pairwise Mark.Before) :
  (A ++ .key k :: .bound k' :: .key k' :: B).Pairwise Mark.Before
  := by
  have hlt : (Mark.key k).Before (.bound k') := by
    have htail := (List.pairwise_append.mp h).2.1
    apply WithBot.coe_lt_coe.mpr
    apply (List.pairwise_cons.mp htail).1 _ List.mem_cons_self
  have hsplit : A ++ .key k :: .key k' :: B = (A ++ [.key k]) ++ .key k' :: B := by simp
  have hsplit' : A ++ .key k :: .bound k' :: .key k' :: B
      = (A ++ [.key k]) ++ .bound k' :: .key k' :: B := by simp
  rw [hsplit']
  apply pairwise_insert (hsplit ▸ h)
  · intro a ha
    rw [List.mem_append, List.mem_singleton] at ha
    obtain ha | rfl := ha
    · apply Mark.Before.trans _ hlt
      apply (List.pairwise_append.mp h).2.2 a ha _ List.mem_cons_self
    · apply hlt
  · have hself : (Mark.bound k').Before (.key k') := le_refl (k' : WithBot K)
    have htail := (List.pairwise_append.mp (hsplit ▸ h)).2.1
    intro b hb
    rw [List.mem_cons] at hb
    obtain rfl | hb := hb
    · apply hself
    · apply hself.trans ((List.pairwise_cons.mp htail).1 b hb)

/-- The bounds of the leaves are in order. -/
theorem Ordered.ascending (h : Ordered ls) : Ascending (ls.map Leaf.entry) := by
  have hbounds := List.Pairwise.sublist bounds_sublist_marks h
  rw [List.pairwise_map] at hbounds
  rw [Ascending, List.map_map, List.pairwise_map]
  apply hbounds

/-- The keys of the leaves are in order. -/
theorem Ordered.sorted (h : Ordered ls) : ((contents ls).map Prod.fst).Pairwise (· < ·) := by
  have hkeys := List.Pairwise.sublist itemMarks_contents_sublist h
  rw [itemMarks, List.pairwise_map] at hkeys
  rw [List.pairwise_map]
  apply hkeys

/-- The marks of the leaves to the left of a leaf stand before its bound. -/
theorem Ordered.before_bound {A B : List (Leaf K V)} (h : Ordered (A ++ l :: B)) {a : Mark K}
    (ha : a ∈ marks A) :
  a.Before (.bound l.bound)
  := by
  rw [Ordered, marks_append, marks_cons] at h
  apply (List.pairwise_append.mp h).2.2 a ha _ List.mem_cons_self

/-- Every mark is the bound of its leaf or stands after it. -/
theorem Ordered.exists_bound (h : Ordered ls) {a : Mark K} (ha : a ∈ marks ls) :
  ∃ l ∈ ls, a = .bound l.bound ∨ (Mark.bound l.bound).Before a
  := by
  obtain ⟨l, hl, hmem⟩ := List.mem_flatMap.mp ha
  refine ⟨l, hl, ?_⟩
  obtain ⟨A, B, rfl⟩ := List.append_of_mem hl
  rw [Leaf.marks, List.mem_cons] at hmem
  obtain heq | hmem := hmem
  · exact .inl heq
  · rw [Ordered, marks_append, marks_cons] at h
    right
    apply (List.pairwise_cons.mp (List.pairwise_append.mp h).2.1).1
    apply List.mem_append_left _ hmem

section Change

variable {A B : List (Leaf K V)} {page page' : Int} {bound : WithBot K} {P Q X Y : List (K × V)}
  {key : K} {value : V} {item : K × V} {r : Leaf K V}

/-- A new key in the leaf that covers it. -/
theorem Ordered.insert (h : Ordered (A ++ ⟨page, bound, P ++ Q⟩ :: B)) (hbound : bound ≤ key)
    (hB : ∀ r ∈ B, (key : WithBot K) < r.bound) (hP : ∀ k ∈ P.map Prod.fst, k < key)
    (hQ : ∀ k ∈ Q.map Prod.fst, key < k) :
  Ordered (A ++ ⟨page, bound, P ++ (key, value) :: Q⟩ :: B)
  := by
  have hbefore : (Mark.bound bound).Before (.key key) := hbound
  have hsplit : marks (A ++ ⟨page, bound, P ++ Q⟩ :: B)
      = (marks A ++ .bound bound :: itemMarks P) ++ (itemMarks Q ++ marks B) := by simp
  have hsplit' : marks (A ++ ⟨page, bound, P ++ (key, value) :: Q⟩ :: B)
      = (marks A ++ .bound bound :: itemMarks P) ++ .key key :: (itemMarks Q ++ marks B) := by simp
  have hright : Ordered B := by
    rw [Ordered, hsplit] at h
    apply (List.pairwise_append.mp (List.pairwise_append.mp h).2.1).2.1
  rw [Ordered, hsplit']
  apply pairwise_insert (hsplit ▸ h)
  · intro a ha
    rw [List.mem_append, List.mem_cons] at ha
    obtain ha | rfl | ha := ha
    · apply (h.before_bound ha).trans hbefore
    · apply hbefore
    · obtain ⟨x, hx, rfl⟩ := List.mem_map.mp ha
      apply hP x.1 (List.mem_map_of_mem hx)
  · intro b hb
    rw [List.mem_append] at hb
    obtain hb | hb := hb
    · obtain ⟨x, hx, rfl⟩ := List.mem_map.mp hb
      apply hQ x.1 (List.mem_map_of_mem hx)
    · obtain ⟨r, hr, rfl | hrb⟩ := hright.exists_bound hb
      · apply hB r hr
      · have hkey : (Mark.key key).Before (.bound r.bound) := hB r hr
        apply hkey.trans hrb

/-- A leaf that is divided: the first key of the right part becomes its bound. -/
theorem Ordered.divide (h : Ordered (A ++ ⟨page, bound, X ++ item :: Y⟩ :: B)) (hX : X ≠ []) :
  Ordered (A ++ ⟨page, bound, X⟩ :: ⟨page', item.1, item :: Y⟩ :: B)
  := by
  obtain ⟨X, x, rfl⟩ := List.eq_nil_or_concat X |>.resolve_left hX
  have hsplit : marks (A ++ ⟨page, bound, X ++ [x] ++ item :: Y⟩ :: B)
      = (marks A ++ .bound bound :: itemMarks X) ++ .key x.1 :: .key item.1
        :: (itemMarks Y ++ marks B) := by simp
  have hsplit' : marks (A ++ ⟨page, bound, X ++ [x]⟩ :: ⟨page', item.1, item :: Y⟩ :: B)
      = (marks A ++ .bound bound :: itemMarks X) ++ .key x.1 :: .bound item.1 :: .key item.1
        :: (itemMarks Y ++ marks B) := by simp
  rw [Ordered, List.concat_eq_append, hsplit']
  rw [Ordered, List.concat_eq_append, hsplit] at h
  apply pairwise_separate h

/-- Two leaves that become one: the bound of the right one is dropped. -/
theorem Ordered.merge (h : Ordered (A ++ l :: r :: B)) :
  Ordered (A ++ ⟨page, l.bound, l.items ++ r.items⟩ :: B)
  := by
  apply List.Pairwise.sublist _ h
  simp only [marks_append, marks_cons, itemMarks_append, List.append_assoc]
  apply List.Sublist.append_left
  apply List.Sublist.cons_cons
  apply List.Sublist.append_left
  apply List.sublist_cons_self

/-- A leaf that loses an item. -/
theorem Ordered.erase (h : Ordered (A ++ ⟨page, bound, P ++ item :: Q⟩ :: B)) :
  Ordered (A ++ ⟨page, bound, P ++ Q⟩ :: B)
  := by
  apply List.Pairwise.sublist _ h
  simp only [marks_append, marks_cons, itemMarks_append, itemMarks_cons, List.append_assoc]
  apply List.Sublist.append_left
  apply List.Sublist.cons_cons
  apply List.Sublist.append_left
  apply List.sublist_cons_self

end Change

/-- A key that is not in the leaf that covers it is in no leaf. -/
theorem Ordered.not_mem_keys {A B : List (Leaf K V)} {key : K} (h : Ordered (A ++ l :: B))
    (hl : l.bound ≤ key) (hB : ∀ r ∈ B, (key : WithBot K) < r.bound)
    (hkey : key ∉ l.items.map Prod.fst) :
  key ∉ (contents (A ++ l :: B)).map Prod.fst
  := by
  have hright : Ordered B := by
    rw [Ordered, marks_append, marks_cons] at h
    have htail := (List.pairwise_cons.mp (List.pairwise_append.mp h).2.1).2
    apply (List.pairwise_append.mp htail).2.1
  intro hmem
  obtain ⟨item, hitem, rfl⟩ := List.mem_map.mp hmem
  rw [contents_append, contents_cons, List.mem_append, List.mem_append] at hitem
  obtain hitem | hitem | hitem := hitem
  · have hlt : (item.1 : WithBot K) < l.bound := h.before_bound (mem_marks_key hitem)
    apply (hlt.trans_le hl).false
  · apply hkey (List.mem_map_of_mem hitem)
  · obtain ⟨r, hr, heq | hle⟩ := hright.exists_bound (mem_marks_key hitem)
    · contradiction
    · apply ((hB r hr).trans_le hle).false

/-- No key to the left of a leaf that covers a key has reached it. -/
theorem Ordered.lt_of_mem_left {A B : List (Leaf K V)} {key : K} (h : Ordered (A ++ l :: B)) (hl : l.bound ≤ key) {x : K × V}
    (hx : x ∈ contents A) :
  x.1 < key
  := by
  have hlt : (x.1 : WithBot K) < l.bound := h.before_bound (mem_marks_key hx)
  exact WithBot.coe_lt_coe.mp (hlt.trans_le hl)

/-- Every key to the right of a leaf that covers a key has reached it. -/
theorem Ordered.le_of_mem_right {A B : List (Leaf K V)} {key : K} (h : Ordered (A ++ l :: B))
    (hB : ∀ r ∈ B, (key : WithBot K) < r.bound) {x : K × V} (hx : x ∈ contents B) :
  key ≤ x.1
  := by
  have hright : Ordered B := by
    rw [Ordered, marks_append, marks_cons] at h
    have htail := (List.pairwise_cons.mp (List.pairwise_append.mp h).2.1).2
    exact (List.pairwise_append.mp htail).2.1
  obtain ⟨r, hr, heq | hle⟩ := hright.exists_bound (mem_marks_key hx)
  · cases heq
  · exact WithBot.coe_le_coe.mp ((hB r hr).le.trans hle)

/-- Every key is covered by the last leaf whose bound it has reached. -/
theorem exists_covering {key : K} (hasc : Ascending ((l :: ls).map Leaf.entry))
    (hl : l.bound ≤ key) :
  ∃ (A : List (Leaf K V)) (l' : Leaf K V) (B : List (Leaf K V)), l :: ls = A ++ l' :: B
    ∧ l'.bound ≤ key ∧ ∀ r ∈ B, (key : WithBot K) < r.bound
  := by
  induction ls generalizing l with
  | nil => exact ⟨[], l, [], rfl, hl, by simp⟩
  | cons r ls ih =>
    by_cases hr : r.bound ≤ key
    · have htail : Ascending ((r :: ls).map Leaf.entry) := (List.pairwise_cons.mp hasc).2
      obtain ⟨A, l', B, hsplit, hl', hB⟩ := ih htail hr
      exact ⟨l :: A, l', B, by rw [hsplit, List.cons_append], hl', hB⟩
    · refine ⟨[], l, r :: ls, rfl, hl, ?_⟩
      have htail := (List.pairwise_cons.mp (List.pairwise_cons.mp hasc).2).1
      have hlt : (key : WithBot K) < r.bound := not_le.mp hr
      intro r' hr'
      rw [List.mem_cons] at hr'
      obtain rfl | hr' := hr'
      · apply hlt
      · apply hlt.trans
        apply htail
        exact List.mem_map.mpr ⟨r'.entry, List.mem_map_of_mem hr', rfl⟩

/-- A key among items in order is there, or has a place between two of them. -/
theorem exists_position (key : K) (h : (items.map Prod.fst).Pairwise (· < ·)) :
  ∃ P Q, (items = P ++ Q ∨ ∃ value, items = P ++ (key, value) :: Q)
    ∧ (∀ k ∈ P.map Prod.fst, k < key) ∧ ∀ k ∈ Q.map Prod.fst, key < k
  := by
  induction items with
  | nil => exact ⟨[], [], .inl rfl, by simp, by simp⟩
  | cons item items ih =>
    rw [List.map_cons, List.pairwise_cons] at h
    obtain hlt | rfl | hgt := lt_trichotomy item.1 key
    · obtain ⟨P, Q, hitems, hP, hQ⟩ := ih h.2
      refine ⟨item :: P, Q, ?_, ?_, hQ⟩
      · obtain rfl | ⟨value, rfl⟩ := hitems
        · exact .inl rfl
        · exact .inr ⟨value, rfl⟩
      · intro k hk
        rw [List.map_cons, List.mem_cons] at hk
        obtain rfl | hk := hk
        · apply hlt
        · apply hP k hk
    · exact ⟨[], items, .inr ⟨item.2, rfl⟩, by simp, h.1⟩
    · refine ⟨[], item :: items, .inl rfl, by simp, ?_⟩
      intro k hk
      rw [List.map_cons, List.mem_cons] at hk
      obtain rfl | hk := hk
      · apply hgt
      · apply hgt.trans (h.1 k hk)

end Order

end Levels
