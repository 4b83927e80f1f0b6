import Mathlib

/-!
# Doubly linked lists

The nodes of a list linked in both directions, closed to a ring by a root that stands before
the first and behind the last of them. A node is taken out by linking its neighbours, and put
in behind the root by linking it with the root and the first node.
-/

namespace Links

universe u

variable {N : Type u}

/-- Neighbours in the list are linked in both directions. -/
def Chain (next prev : N → N) : List N → Prop
  | x :: y :: l => next x = y ∧ prev y = x ∧ Chain next prev (y :: l)
  | _ => True

/-- The nodes form a ring with the root. -/
def Ring (next prev : N → N) (root : N) (l : List N) : Prop :=
  Chain next prev (root :: l ++ [root])

section Chain

variable {next prev next' prev' : N → N} {l l₁ l₂ : List N} {x y : N}

theorem chain_cons_cons :
  Chain next prev (x :: y :: l) ↔ next x = y ∧ prev y = x ∧ Chain next prev (y :: l)
  := Iff.rfl

/-- A chain can be cut at a node. -/
theorem chain_append :
  Chain next prev (l₁ ++ x :: l₂) ↔ Chain next prev (l₁ ++ [x]) ∧ Chain next prev (x :: l₂)
  := by
  induction l₁ with
  | nil => simp [Chain]
  | cons a l₁ ih =>
    cases l₁ with
    | nil => simp [Chain, and_assoc]
    | cons b l₁ =>
      simp only [List.cons_append, chain_cons_cons, and_assoc] at ih ⊢
      rw [ih]

/-- Only the successors of the nodes before the last one and the predecessors of those behind
the first one matter. -/
theorem Chain.congr (h : Chain next prev l) (hnext : ∀ x ∈ l.dropLast, next' x = next x)
    (hprev : ∀ x ∈ l.tail, prev' x = prev x) :
  Chain next' prev' l
  := by
  induction l with
  | nil => trivial
  | cons x l ih =>
    cases l with
    | nil => trivial
    | cons y l =>
      rw [chain_cons_cons] at h ⊢
      rw [hnext x (by simp), hprev y (by simp)]
      refine ⟨h.1, h.2.1, ih h.2.2 ?_ ?_⟩
      · intro z hz
        apply hnext
        rw [List.dropLast_cons_cons]
        apply List.mem_cons_of_mem _ hz
      · intro z hz
        apply hprev
        rw [List.tail_cons] at hz ⊢
        apply List.mem_cons_of_mem _ hz

theorem Chain.tail (h : Chain next prev (x :: l)) : Chain next prev l := by
  cases l with
  | nil => trivial
  | cons y l => exact h.2.2

/-- Read from its end, a chain is one with the links swapped. -/
theorem Chain.reverse (h : Chain next prev l) : Chain prev next l.reverse := by
  induction l with
  | nil => trivial
  | cons x l ih =>
    cases l with
    | nil => trivial
    | cons y l =>
      have hrest := ih h.2.2
      rw [List.reverse_cons] at hrest
      rw [List.reverse_cons, List.reverse_cons, List.append_assoc, List.singleton_append,
        chain_append]
      exact ⟨hrest, h.2.1, h.1, trivial⟩

end Chain

section Ring

variable {next prev : N → N} {root x : N} {l A B : List N}

/-- A ring of the root only. -/
theorem ring_nil : Ring next prev root [] ↔ next root = root ∧ prev root = root := by
  simp [Ring, Chain]

theorem Ring.congr {next' prev' : N → N} (h : Ring next prev root l)
    (hnext : ∀ x ∈ root :: l, next' x = next x) (hprev : ∀ x ∈ root :: l, prev' x = prev x) :
  Ring next' prev' root l
  := by
  apply Chain.congr h
  · intro x hx
    rw [List.dropLast_concat] at hx
    apply hnext x hx
  · intro x hx
    apply hprev x
    rw [List.cons_append, List.tail_cons] at hx
    simpa [or_comm] using hx

/-- The neighbours of a node. -/
theorem Ring.neighbours (h : Ring next prev root (A ++ x :: B)) :
  prev x = (root :: A).getLast (List.cons_ne_nil root A) ∧ next x = B.head?.getD root
  := by
  have hcut : root :: (A ++ x :: B) ++ [root] = (root :: A) ++ x :: (B ++ [root]) := by simp
  rw [Ring, hcut, chain_append] at h
  obtain ⟨hbefore, hbehind⟩ := h
  constructor
  · rw [← List.dropLast_append_getLast (List.cons_ne_nil root A), List.append_assoc,
      List.singleton_append, chain_append] at hbefore
    exact hbefore.2.2.1
  · cases B with
    | nil => exact hbehind.1
    | cons y B => exact hbehind.1

/-- The first node is the one behind the root, the last node the one before it. -/
theorem Ring.ends (h : Ring next prev root l) :
  next root = l.head?.getD root ∧ prev root = l.getLast?.getD root
  := by
  constructor
  · cases l with
    | nil => exact (ring_nil.mp h).1
    | cons x l => exact h.1
  · rw [Ring, ← List.dropLast_append_getLast (List.cons_ne_nil root l), List.append_assoc,
      List.singleton_append, chain_append] at h
    rw [h.2.2.1]
    cases l with
    | nil => rfl
    | cons x l =>
      rw [List.getLast_cons (List.cons_ne_nil x l),
        List.getLast?_eq_some_getLast (List.cons_ne_nil x l),
        Option.getD_some]

theorem Ring.neighbours_mem (h : Ring next prev root (A ++ x :: B)) :
  prev x ∈ root :: A ∧ next x ∈ root :: B
  := by
  obtain ⟨hprev, hnext⟩ := h.neighbours
  rw [hprev, hnext]
  refine ⟨List.getLast_mem (List.cons_ne_nil root A), ?_⟩
  cases B <;> simp

/-- The links do not lead out of the ring. -/
theorem Ring.mem (h : Ring next prev root l) (hx : x ∈ root :: l) :
  next x ∈ root :: l ∧ prev x ∈ root :: l
  := by
  rw [List.mem_cons] at hx
  obtain rfl | hx := hx
  · obtain ⟨hnext, hprev⟩ := h.ends
    rw [hnext, hprev]
    constructor
    · cases l <;> simp
    · cases hlast : l.getLast? with
      | none => exact List.mem_cons_self
      | some y => exact List.mem_cons_of_mem x (List.mem_of_getLast? hlast)
  · obtain ⟨A, B, rfl⟩ := List.append_of_mem hx
    obtain ⟨hprev, hnext⟩ := h.neighbours_mem
    constructor
    · apply List.Sublist.subset _ hnext
      apply List.Sublist.cons_cons
      apply (List.sublist_cons_self x B).trans (List.sublist_append_right A (x :: B))
    · apply List.Sublist.subset _ hprev
      apply List.Sublist.cons_cons
      apply List.sublist_append_left

/-- The two links lead back from each other. -/
theorem Ring.prev_next (h : Ring next prev root l) (hx : x ∈ root :: l) : prev (next x) = x := by
  obtain ⟨P, Q, hcut⟩ := List.append_of_mem hx
  obtain ⟨y, Q, hQ⟩ : ∃ y Q', Q ++ [root] = y :: Q' := List.exists_cons_of_ne_nil (by simp)
  rw [Ring, hcut, List.append_assoc, List.cons_append, hQ, chain_append] at h
  rw [h.2.1, h.2.2.1]

theorem Ring.next_prev (h : Ring next prev root l) (hx : x ∈ root :: l) : next (prev x) = x := by
  have hx' : x ∈ l ++ [root] := by
    simpa [or_comm] using hx
  obtain ⟨P, Q, hcut⟩ := List.append_of_mem hx'
  rw [Ring, List.cons_append, hcut, ← List.cons_append,
    ← List.dropLast_append_getLast (List.cons_ne_nil root P), List.append_assoc,
    List.singleton_append, chain_append] at h
  rw [h.2.2.1, h.2.1]

/-- The first node is the one before which the root stands. -/
theorem Ring.first_iff (h : Ring next prev root l) (hx : x ∈ root :: l) :
  next root = x ↔ prev x = root
  := by
  constructor
  · rintro rfl
    exact h.prev_next List.mem_cons_self
  · intro hroot
    rw [← hroot]
    exact h.next_prev hx

/-- The last node is the one behind which the root stands. -/
theorem Ring.last_iff (h : Ring next prev root l) (hx : x ∈ root :: l) :
  prev root = x ↔ next x = root
  := by
  constructor
  · rintro rfl
    exact h.next_prev List.mem_cons_self
  · intro hroot
    rw [← hroot]
    exact h.prev_next hx

theorem Ring.reverse (h : Ring next prev root l) : Ring prev next root l.reverse := by
  have hreverse := Chain.reverse h
  rw [List.cons_append, List.reverse_cons, List.reverse_append] at hreverse
  exact hreverse

variable [DecidableEq N]

/-- A node is taken out of the ring by linking its neighbours. -/
theorem Ring.unlink (h : Ring next prev root (A ++ x :: B))
    (hnodup : (root :: (A ++ x :: B)).Nodup) :
  Ring (Function.update next (prev x) (next x)) (Function.update prev (next x) (prev x)) root
    (A ++ B)
  := by
  obtain ⟨hprev, hnext⟩ := h.neighbours
  obtain ⟨q, Q, hQ⟩ : ∃ q Q, B ++ [root] = q :: Q := List.exists_cons_of_ne_nil (by simp)
  have hq : next x = q := by
    rw [hnext]
    cases B with
    | nil => exact (List.cons.inj hQ).1
    | cons y B => exact (List.cons.inj hQ).1
  have hP := List.dropLast_append_getLast (List.cons_ne_nil root A)
  rw [← hprev] at hP
  generalize (root :: A).dropLast = P at hP
  rw [hq]
  -- the ring cut before `x` and behind it
  have hcut : root :: (A ++ x :: B) ++ [root] = P ++ prev x :: x :: q :: Q := by
    rw [List.append_cons P, hP, ← hQ]
    simp
  have hcut' : root :: (A ++ B) ++ [root] = P ++ prev x :: q :: Q := by
    rw [List.append_cons P, hP, ← hQ]
    simp
  rw [Ring, hcut, chain_append] at h
  rw [Ring, hcut', chain_append]
  have hbefore : (root :: A).Nodup := hnodup.sublist (by simp)
  have hbehind : (B ++ [root]).Nodup := by
    rw [List.nodup_append_comm, List.singleton_append]
    exact hnodup.sublist (by simp)
  have hdisjoint : ∀ z ∈ root :: A, ∀ y ∈ B, z ≠ y := by
    rw [← List.cons_append] at hnodup
    intro z hz y hy
    exact (List.nodup_append.mp hnodup).2.2 z hz y (List.mem_cons_of_mem x hy)
  have hp : prev x ∈ root :: A := hP ▸ List.mem_append_right P List.mem_cons_self
  have hqmem : q ∈ B ∨ q = root := by
    have hmem : q ∈ B ++ [root] := hQ ▸ List.mem_cons_self
    simpa using hmem
  refine ⟨?_, Function.update_self .., Function.update_self .., ?_⟩
  · apply h.1.congr
    · intro z hz
      rw [List.dropLast_concat] at hz
      apply Function.update_of_ne
      rw [← hP] at hbefore
      exact (List.nodup_append.mp hbefore).2.2 z hz _ List.mem_cons_self
    · intro z hz
      rw [hP, List.tail_cons] at hz
      apply Function.update_of_ne
      obtain hqB | rfl := hqmem
      · exact hdisjoint z (List.mem_cons_of_mem _ hz) q hqB
      · rintro rfl
        exact (List.nodup_cons.mp hbefore).1 hz
  · apply h.2.2.2.2.2.congr
    · intro z hz
      rw [← hQ, List.dropLast_concat] at hz
      apply Function.update_of_ne
      exact (hdisjoint _ hp z hz).symm
    · intro z hz
      rw [hQ] at hbehind
      apply Function.update_of_ne
      rintro rfl
      exact (List.nodup_cons.mp hbehind).1 hz

/-- A node is put in behind the root by linking it with the root and with the node that was
behind the root before. -/
theorem Ring.push (h : Ring next prev root l) (hx : x ∉ root :: l) (hnodup : (root :: l).Nodup) :
  Ring (Function.update (Function.update next x (next root)) root x)
    (Function.update (Function.update prev x root) (next root) x) root (x :: l)
  := by
  obtain ⟨q, Q, hQ⟩ : ∃ q Q, l ++ [root] = q :: Q := List.exists_cons_of_ne_nil (by simp)
  rw [Ring, List.cons_append, hQ] at h
  have hroot : next root = q := h.1
  have hrotated : (q :: Q).Nodup := by
    rwa [← hQ, List.nodup_append_comm, List.singleton_append]
  have hxq : x ∉ q :: Q := by
    rw [← hQ]
    simpa [and_comm] using hx
  have hxroot : x ≠ root := List.ne_of_not_mem_cons hx
  have hcut : root :: (x :: l) ++ [root] = root :: x :: q :: Q := by
    rw [← hQ]
    simp
  rw [Ring, hcut, hroot]
  refine ⟨Function.update_self .., ?_, ?_, Function.update_self .., ?_⟩
  · rw [Function.update_of_ne (List.ne_of_not_mem_cons hxq), Function.update_self]
  · rw [Function.update_of_ne hxroot, Function.update_self]
  · apply h.2.2.congr
    · intro z hz
      rw [← hQ, List.dropLast_concat] at hz
      rw [Function.update_of_ne, Function.update_of_ne]
      · rintro rfl
        exact hx (List.mem_cons_of_mem _ hz)
      · rintro rfl
        exact (List.nodup_cons.mp hnodup).1 hz
    · intro z hz
      rw [Function.update_of_ne, Function.update_of_ne]
      · rintro rfl
        exact hxq (List.mem_cons_of_mem _ hz)
      · rintro rfl
        exact (List.nodup_cons.mp hrotated).1 hz

end Ring

end Links
