import Mathlib

/-!
# Reading chunks

A sequence that is cut into chunks is read from a position in the first one on, up to the first
element that is not wanted. At a border between two chunks the reader may be told to wait. One
that has moved into the next chunk already and keeps its old position there reads on behind that
position, and loses what stands before.
-/

namespace Chunks

variable {α : Type} (wanted : α → Bool)

/-- What is read from the position `index` of a chunk on and from the chunks behind it. The
answers say for each border whether the reader gets over it at once; without an answer it
does. -/
def read : List α → Nat → List (List α) → List Bool → List α
  | items, index, [], _ => (items.drop index).filter wanted
  | items, index, chunk :: chunks, answers =>
    (items.drop index).filter wanted
      ++ if answers.headD true then read chunk 0 chunks answers.tail
        else read chunk (max index items.length + 1) chunks answers.tail

/-- The number of chunks with wanted elements. -/
def wantedChunks (chunks : List (List α)) : Nat := chunks.countP fun chunk => chunk.any wanted

variable {wanted} {items chunk : List α} {index : Nat} {chunks : List (List α)}
  {answers : List Bool}

/-- Within a chunk. -/
theorem read_cons {x : α} (hitem : items[index]? = some x) (hx : wanted x = true) :
  read wanted items index chunks answers = x :: read wanted items (index + 1) chunks answers
  := by
  obtain ⟨hlt, hget⟩ := List.getElem?_eq_some_iff.mp hitem
  have hdrop : (items.drop index).filter wanted = x :: (items.drop (index + 1)).filter wanted := by
    rw [List.drop_eq_getElem_cons hlt, hget, List.filter_cons_of_pos hx]
  have hmax : max index items.length = max (index + 1) items.length := by omega
  cases chunks with
  | nil => rw [read, read, hdrop]
  | cons chunk chunks => rw [read, read, hdrop, hmax, List.cons_append]

/-- Behind the last chunk. -/
theorem read_last (hlen : items.length ≤ index) : read wanted items index [] answers = [] := by
  rw [read, List.drop_eq_nil_of_le hlen, List.filter_nil]

/-- At a border. -/
theorem read_border (hlen : items.length ≤ index) :
  read wanted items index (chunk :: chunks) answers
    = if answers.headD true then read wanted chunk 0 chunks answers.tail
      else read wanted chunk (index + 1) chunks answers.tail
  := by
  rw [read, List.drop_eq_nil_of_le hlen, List.filter_nil, List.nil_append, Nat.max_eq_left hlen]

/-- Nothing is read that is not there, and nothing twice. -/
theorem read_sublist :
  (read wanted items index chunks answers).Sublist
    ((items.drop index ++ chunks.flatten).filter wanted)
  := by
  induction chunks generalizing items index answers with
  | nil =>
    rw [read, List.flatten_nil, List.append_nil]
  | cons chunk chunks ih =>
    rw [read, List.filter_append, List.flatten_cons]
    apply List.Sublist.append_left
    split
    · exact ih
    · apply ih.trans
      apply List.Sublist.filter
      apply List.Sublist.append_right
      apply List.drop_sublist

/-- Nothing is read where nothing is wanted. -/
theorem read_eq_nil (h : ∀ x ∈ items.drop index ++ chunks.flatten, wanted x = false) :
  read wanted items index chunks answers = []
  := by
  have hnone : (items.drop index ++ chunks.flatten).filter wanted = [] := by
    rw [List.filter_eq_nil_iff]
    intro x hx
    rw [h x hx]
    exact Bool.false_ne_true
  have hsub : (read wanted items index chunks answers).Sublist
      ((items.drop index ++ chunks.flatten).filter wanted) := read_sublist
  rw [hnone] at hsub
  exact List.sublist_nil.mp hsub

theorem wantedChunks_cons_of_any (h : chunk.any wanted = true) :
  wantedChunks wanted (chunk :: chunks) = wantedChunks wanted chunks + 1
  := List.countP_cons_of_pos h

theorem wantedChunks_append {chunks' : List (List α)} :
  wantedChunks wanted (chunks ++ chunks') = wantedChunks wanted chunks + wantedChunks wanted chunks'
  := List.countP_append

/-- No chunk has a wanted element if nothing is wanted. -/
theorem wantedChunks_eq_zero (h : ∀ x ∈ chunks.flatten, wanted x = false) :
  wantedChunks wanted chunks = 0
  := by
  rw [wantedChunks, List.countP_eq_zero]
  intro chunk hchunk hany
  obtain ⟨x, hx, hwanted⟩ := List.any_eq_true.mp hany
  rw [h x (List.mem_flatten.mpr ⟨chunk, hchunk, hx⟩)] at hwanted
  cases hwanted

/-- Behind an element that is not wanted none is. -/
theorem unwanted_of_head {x : α} (hmono : (x :: items).Pairwise fun x y => wanted y → wanted x)
    (hx : wanted x = false) :
  ∀ y ∈ x :: items, wanted y = false
  := by
  intro y hy
  obtain rfl | hmem := List.mem_cons.mp hy
  · exact hx
  · by_contra hwanted
    rw [(List.pairwise_cons.mp hmono).1 y hmem (Bool.not_eq_false _ ▸ hwanted)] at hx
    cases hx

/-- A reader that waits at a border loses the first element behind it. -/
theorem read_ne_of_wait {x : α} {rest : List α} (hchunk : chunk = x :: rest)
    (hx : wanted x = true) :
  read wanted chunk (index + 1) chunks answers ≠ (chunk ++ chunks.flatten).filter wanted
  := by
  intro heq
  have hsub : (read wanted chunk (index + 1) chunks answers).Sublist
      ((chunk.drop (index + 1) ++ chunks.flatten).filter wanted) := read_sublist
  have hlost : ((chunk.drop (index + 1) ++ chunks.flatten).filter wanted).Sublist
      ((rest ++ chunks.flatten).filter wanted) := by
    apply List.Sublist.filter
    apply List.Sublist.append_right
    rw [hchunk, List.drop_succ_cons]
    apply List.drop_sublist
  have hlen := (hsub.trans hlost).length_le
  rw [heq, hchunk, List.cons_append, List.filter_cons_of_pos hx, List.length_cons] at hlen
  omega

/-- Everything that is wanted is read if and only if no border before a chunk with wanted
elements makes the reader wait. -/
theorem read_eq_iff (hmono : chunks.flatten.Pairwise fun x y => wanted y → wanted x)
    (hne : ∀ chunk ∈ chunks, chunk ≠ []) :
  read wanted items index chunks answers = (items.drop index ++ chunks.flatten).filter wanted
    ↔ ∀ answer ∈ answers.take (wantedChunks wanted chunks), answer = true
  := by
  induction chunks generalizing items index answers with
  | nil => simp [read, wantedChunks]
  | cons chunk chunks ih =>
    obtain ⟨x, rest, hchunk⟩ := List.exists_cons_of_ne_nil (hne chunk List.mem_cons_self)
    rw [List.flatten_cons] at hmono ⊢
    have hrest := (List.pairwise_append.mp hmono).2.1
    have ih := fun {items index answers} => @ih items index answers hrest
      fun chunk hmem => hne chunk (List.mem_cons_of_mem _ hmem)
    rw [read, List.filter_append, List.append_right_inj]
    obtain hx | hx := Bool.eq_false_or_eq_true (wanted x)
    · have hany : chunk.any wanted = true := by
        rw [hchunk, List.any_cons, hx, Bool.true_or]
      rw [wantedChunks_cons_of_any hany]
      cases answers with
      | nil =>
        have hnone : read wanted chunk 0 chunks [] = (chunk ++ chunks.flatten).filter wanted :=
          ih.mpr (by simp)
        simpa using hnone
      | cons answer answers =>
        cases answer with
        | true =>
          rw [List.headD_cons, if_pos rfl, List.tail_cons, List.take_succ_cons,
            List.forall_mem_cons]
          have hread : read wanted chunk 0 chunks answers
              = (chunk ++ chunks.flatten).filter wanted ↔ _ := ih
          rw [hread]
          simp
        | false =>
          rw [List.headD_cons, if_neg Bool.false_ne_true, List.tail_cons, List.take_succ_cons,
            List.forall_mem_cons]
          have hlost : read wanted chunk (max index items.length + 1) chunks answers
              ≠ (chunk ++ chunks.flatten).filter wanted := read_ne_of_wait hchunk hx
          exact iff_of_false hlost fun h => Bool.false_ne_true h.1
    · have hnone : ∀ y ∈ chunk ++ chunks.flatten, wanted y = false := by
        rw [hchunk, List.cons_append] at hmono ⊢
        exact unwanted_of_head hmono hx
      have hdrop : ∀ index, ∀ y ∈ chunk.drop index ++ chunks.flatten, wanted y = false := by
        intro index y hy
        apply hnone
        obtain hy | hy := List.mem_append.mp hy
        · exact List.mem_append_left _ (List.mem_of_mem_drop hy)
        · exact List.mem_append_right _ hy
      have hzero : wantedChunks wanted (chunk :: chunks) = 0 :=
        wantedChunks_eq_zero (by rwa [List.flatten_cons])
      have hfilter : (chunk ++ chunks.flatten).filter wanted = [] := by
        rw [List.filter_eq_nil_iff]
        intro y hy
        rw [hnone y hy]
        exact Bool.false_ne_true
      rw [hzero, hfilter, read_eq_nil (hdrop _), read_eq_nil (hdrop _)]
      simp

/-! ### Reading across the borders -/

/-- What is left of the chunk in which the `n`-th element lies, behind this element. -/
def unread : List (List α) → Nat → List α
  | [], _ => []
  | chunk :: chunks, n =>
    if n ≤ chunk.length then chunk.drop n else unread chunks (n - chunk.length)

theorem unread_zero : unread (chunk :: chunks) 0 = chunk := by
  rw [unread, if_pos (Nat.zero_le _), List.drop_zero]

theorem unread_cons_succ (x : α) (n : Nat) :
  unread ((x :: chunk) :: chunks) (n + 1) = unread (chunk :: chunks) n
  := by
  rw [unread, unread, List.length_cons, List.drop_succ_cons, Nat.add_sub_add_right]
  simp only [Nat.add_le_add_iff_right]

theorem unread_nil_succ (n : Nat) : unread ([] :: chunks) (n + 1) = unread chunks (n + 1) := by
  rw [unread, List.length_nil, if_neg (by omega), Nat.sub_zero]

/-- Nothing is left that was not there. -/
theorem mem_unread {x : α} {n : Nat} (h : x ∈ unread chunks n) : ∃ chunk ∈ chunks, x ∈ chunk := by
  induction chunks generalizing n with
  | nil => cases h
  | cons chunk chunks ih =>
    rw [unread] at h
    split at h
    · exact ⟨chunk, List.mem_cons_self, List.mem_of_mem_drop h⟩
    · obtain ⟨chunk', hmem, hx⟩ := ih h
      exact ⟨chunk', List.mem_cons_of_mem _ hmem, hx⟩

end Chunks
