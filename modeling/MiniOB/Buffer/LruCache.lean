import MiniOB.Lib.Links
import MiniOB.Lib.Recency
import MiniOB.Lib.Run

/-!
# The cache

`LruCache` of `deps/common/lang/lru_cache.h`: the nodes are found through a hash set and linked
in both directions in the order of their last use. Touching, pushing and removing a node takes
it out of the ring of the links or puts it in behind the front.

A function has no result where it follows a null pointer or one to a deleted node.
-/

namespace MiniOB.Buffer

open Links (Ring)

/-- Where a node lies. -/
abbrev Address := Nat

/-- `ListNode`. A pointer is `none` if it is null. -/
structure ListNode (Key Value : Type) where
  key : Key
  value : Value
  prev : Option Address := none
  next : Option Address := none

/-- `LruCache`, with the nodes that have been allocated and not deleted yet. The order of the
`std::unordered_set` is not known. -/
structure LruCache (Key Value : Type) where
  memory : Address → Option (ListNode Key Value) := fun _ => none
  searcher : List Address := []
  lruFront : Option Address := none
  lruTail : Option Address := none

namespace LruCache

variable {Key Value : Type}

/-- Change a node. -/
def modify (s : LruCache Key Value) (pointer : Option Address)
    (f : ListNode Key Value → ListNode Key Value) : Option (LruCache Key Value) := do
  let address ← pointer
  let node ← s.memory address
  return { s with memory := Function.update s.memory address (some (f node)) }

/-- `pointer->prev_ = prev`. -/
def setPrev (s : LruCache Key Value) (pointer prev : Option Address) :
    Option (LruCache Key Value) :=
  s.modify pointer fun node => { node with prev }

/-- `pointer->next_ = next`. -/
def setNext (s : LruCache Key Value) (pointer next : Option Address) :
    Option (LruCache Key Value) :=
  s.modify pointer fun node => { node with next }

/-- What `lru_touch` and `lru_push` end with: the node is linked with the front and becomes
the front itself. -/
def linkFront (s : LruCache Key Value) (node : Address) : Option (LruCache Key Value) := do
  let s ← s.setPrev (some node) none
  let s ← s.setNext (some node) s.lruFront
  let s ← (if s.lruFront ≠ none then s.setPrev s.lruFront (some node) else some s)
  return { s with lruFront := some node }

/-- `LruCache::lru_touch`. -/
def lruTouch (s : LruCache Key Value) (node : Address) : Option (LruCache Key Value) := do
  let { prev, .. } ← s.memory node
  if prev = none then return s
  let { prev, next, .. } ← s.memory node
  let s ← s.setNext prev next
  let { prev, next, .. } ← s.memory node
  let s ← (if next ≠ none then s.setPrev next prev else some { s with lruTail := prev })
  s.linkFront node

section Search

variable [BEq Key] [Hashable Key]

/-- `PListNodeHasher` and `PListNodePredicator`: the node has the key. -/
def hasKey (s : LruCache Key Value) (key : Key) (address : Address) : Bool :=
  match s.memory address with
  | some node => hash node.key == hash key && node.key == key
  | none => false

/-- `searcher_.find`, which reads the key at the beginning of the node that it is given. -/
def findNode (s : LruCache Key Value) (key : Key) : Option Address :=
  s.searcher.find? (s.hasKey key)

/-- `searcher_.insert`. -/
def insertNode (s : LruCache Key Value) (node : Address) : Option (LruCache Key Value) := do
  let { key, .. } ← s.memory node
  return if (s.findNode key).isSome then s else { s with searcher := node :: s.searcher }

/-- `searcher_.erase`. -/
def eraseNode (s : LruCache Key Value) (node : Address) : Option (LruCache Key Value) := do
  let { key, .. } ← s.memory node
  return { s with searcher := s.searcher.eraseP (s.hasKey key) }

/-- `LruCache::lru_push`. -/
def lruPush (s : LruCache Key Value) (node : Address) : Option (LruCache Key Value) := do
  let s ← (if s.lruTail = none then { s with lruTail := some node } else s).linkFront node
  s.insertNode node

/-- `LruCache::lru_remove`. -/
def lruRemove (s : LruCache Key Value) (node : Address) : Option (LruCache Key Value) := do
  let { prev, next, .. } ← s.memory node
  let s ← (if prev ≠ none then s.setNext prev next else some s)
  let { prev, next, .. } ← s.memory node
  let s ← (if next ≠ none then s.setPrev next prev else some s)
  let { prev, next, .. } ← s.memory node
  let s := if s.lruFront = some node then { s with lruFront := next } else s
  let s := if s.lruTail = some node then { s with lruTail := prev } else s
  let s ← s.eraseNode node
  return { s with memory := Function.update s.memory node none }

/-- `LruCache::get`, with the value that is found. -/
def get (s : LruCache Key Value) (key : Key) : Option (Option Value × LruCache Key Value) :=
  match s.findNode key with
  | none => some (none, s)
  | some node => do
    let s ← s.lruTouch node
    let { value, .. } ← s.memory node
    return (some value, s)

/-- `LruCache::put`, where `new` gives the address `fresh`. -/
def put (s : LruCache Key Value) (key : Key) (value : Value) (fresh : Address) :
    Option (LruCache Key Value) :=
  match s.findNode key with
  | some node => do
    let s ← s.modify (some node) fun node => { node with value }
    s.lruTouch node
  | none =>
    { s with memory := Function.update s.memory fresh (some { key, value }) }.lruPush fresh

/-- `LruCache::remove`. -/
def remove (s : LruCache Key Value) (key : Key) : Option (LruCache Key Value) :=
  match s.findNode key with
  | some node => s.lruRemove node
  | none => some s

end Search

/-- `LruCache::count`. -/
def count (s : LruCache Key Value) : Nat := s.searcher.length

/-- `LruCache::destroy`. -/
def destroy (s : LruCache Key Value) : LruCache Key Value :=
  { memory := fun address => if address ∈ s.searcher then none else s.memory address }

/-- The loops of `LruCache::foreach` and `LruCache::foreach_reverse`, which follow `link`. They
have no result if the fuel does not suffice. -/
def foreachLoop {σ : Type} (link : ListNode Key Value → Option Address)
    (func : Key → Value → σ → Bool × σ) (s : LruCache Key Value) :
    (fuel : Nat) → Option Address → σ → Option σ
  | 0, _, _ => none
  | _ + 1, none, acc => some acc
  | fuel + 1, some address, acc => do
    let node ← s.memory address
    match func node.key node.value acc with
    | (true, acc) => foreachLoop link func s fuel (link node) acc
    | (false, acc) => some acc

/-- `LruCache::foreach`. -/
def foreach {σ : Type} (s : LruCache Key Value) (func : Key → Value → σ → Bool × σ) (fuel : Nat)
    (acc : σ) : Option σ :=
  foreachLoop ListNode.next func s fuel s.lruFront acc

/-- `LruCache::foreach_reverse`. -/
def foreachReverse {σ : Type} (s : LruCache Key Value) (func : Key → Value → σ → Bool × σ)
    (fuel : Nat) (acc : σ) : Option σ :=
  foreachLoop ListNode.prev func s fuel s.lruTail acc

section Operations

variable [BEq Key] [Hashable Key]

/-- One of the operations, with the value that is found. -/
def step (s : LruCache Key Value) (fresh : Address) :
    Recency.Op Key Value → Option (Option Value × LruCache Key Value)
  | .get key => s.get key
  | .put key value => (s.put key value fresh).map (none, ·)
  | .remove key => (s.remove key).map (none, ·)

/-- An operation leads from one state to another, where `new` gives the address of no node. -/
def Step (s : LruCache Key Value) (op : Recency.Op Key Value) (s' : LruCache Key Value) : Prop :=
  ∃ fresh result, s.memory fresh = none ∧ s.step fresh op = some (result, s')

end Operations

/-! ### Links and contents -/

/-- The node behind another one. Behind the null pointer is the front. -/
def nextOf (s : LruCache Key Value) : Option Address → Option Address
  | none => s.lruFront
  | some address => (s.memory address).bind ListNode.next

/-- The node before another one. Before the null pointer is the tail. -/
def prevOf (s : LruCache Key Value) : Option Address → Option Address
  | none => s.lruTail
  | some address => (s.memory address).bind ListNode.prev

/-- The entry of a node. -/
def content (s : LruCache Key Value) (address : Address) : Option (Key × Value) :=
  (s.memory address).map fun node => (node.key, node.value)

/-- Only the links have changed, to `next` and `prev`. -/
structure Relinked (s s' : LruCache Key Value) (next prev : Option Address → Option Address) :
    Prop where
  nextOf : s'.nextOf = next
  prevOf : s'.prevOf = prev
  content : s'.content = s.content
  searcher : s'.searcher = s.searcher

variable {s s' s'' : LruCache Key Value} {address : Address} {pointer : Option Address}
  {node : ListNode Key Value} {next prev next' prev' : Option Address → Option Address}

theorem Relinked.refl (s : LruCache Key Value) : Relinked s s s.nextOf s.prevOf :=
  ⟨rfl, rfl, rfl, rfl⟩

theorem Relinked.trans (h : Relinked s s' next prev) (h' : Relinked s' s'' next' prev') :
  Relinked s s'' next' prev'
  := ⟨h'.nextOf, h'.prevOf, h'.content.trans h.content, h'.searcher.trans h.searcher⟩

theorem isSome_content : (s.content address).isSome = (s.memory address).isSome := by
  rw [content, Option.isSome_map]

theorem modify_eq (h : s.memory address = some node) (f : ListNode Key Value → ListNode Key Value) :
  s.modify (some address) f
    = some { s with memory := Function.update s.memory address (some (f node)) }
  := by
  simp [modify, h]

/-- What changing a node does to the links and the entries. -/
theorem of_update (s : LruCache Key Value) (address : Address) (node' : ListNode Key Value) :
    let s' := { s with memory := Function.update s.memory address (some node') }
    s'.nextOf = Function.update s.nextOf (some address) node'.next
    ∧ s'.prevOf = Function.update s.prevOf (some address) node'.prev
    ∧ s'.content = Function.update s.content address (some (node'.key, node'.value)) := by
  refine ⟨?_, ?_, ?_⟩
  · funext pointer
    cases pointer with
    | none => rw [Function.update_of_ne (by simp)]; rfl
    | some other =>
      by_cases heq : other = address
      · simp [nextOf, heq]
      · rw [Function.update_of_ne (by simpa using heq), nextOf, nextOf]
        simp only [Function.update_of_ne heq]
  · funext pointer
    cases pointer with
    | none => rw [Function.update_of_ne (by simp)]; rfl
    | some other =>
      by_cases heq : other = address
      · simp [prevOf, heq]
      · rw [Function.update_of_ne (by simpa using heq), prevOf, prevOf]
        simp only [Function.update_of_ne heq]
  · funext other
    by_cases heq : other = address
    · simp [content, heq]
    · rw [Function.update_of_ne heq, content, content]
      simp only [Function.update_of_ne heq]

/-- What deleting a node does to the links and the entries of the others. -/
theorem of_delete (s : LruCache Key Value) (address : Address) :
    let s' := { s with memory := Function.update s.memory address none }
    (∀ pointer ≠ some address, s'.nextOf pointer = s.nextOf pointer)
    ∧ (∀ pointer ≠ some address, s'.prevOf pointer = s.prevOf pointer)
    ∧ ∀ other ≠ address, s'.content other = s.content other := by
  refine ⟨?_, ?_, ?_⟩
  · intro pointer hne
    cases pointer with
    | none => rfl
    | some other =>
      rw [nextOf, nextOf]
      simp only [Function.update_of_ne (by simpa using hne)]
  · intro pointer hne
    cases pointer with
    | none => rfl
    | some other =>
      rw [prevOf, prevOf]
      simp only [Function.update_of_ne (by simpa using hne)]
  · intro other hne
    rw [content, content]
    simp only [Function.update_of_ne hne]

theorem setNext_relinked (h : (s.memory address).isSome) (next : Option Address) :
  ∃ s', s.setNext (some address) next = some s'
    ∧ Relinked s s' (Function.update s.nextOf (some address) next) s.prevOf
  := by
  obtain ⟨node, hnode⟩ := Option.isSome_iff_exists.mp h
  obtain ⟨hnext, hprev, hcontent⟩ := s.of_update address { node with next }
  refine ⟨_, modify_eq hnode _, hnext, ?_, ?_, rfl⟩
  · rw [hprev, Function.update_eq_self_iff]
    simp [prevOf, hnode]
  · rw [hcontent, Function.update_eq_self_iff]
    simp [content, hnode]

theorem setPrev_relinked (h : (s.memory address).isSome) (prev : Option Address) :
  ∃ s', s.setPrev (some address) prev = some s'
    ∧ Relinked s s' s.nextOf (Function.update s.prevOf (some address) prev)
  := by
  obtain ⟨node, hnode⟩ := Option.isSome_iff_exists.mp h
  obtain ⟨hnext, hprev, hcontent⟩ := s.of_update address { node with prev }
  refine ⟨_, modify_eq hnode _, ?_, hprev, ?_, rfl⟩
  · rw [hnext, Function.update_eq_self_iff]
    simp [nextOf, hnode]
  · rw [hcontent, Function.update_eq_self_iff]
    simp [content, hnode]

theorem setFront_relinked (s : LruCache Key Value) (next : Option Address) :
  Relinked s { s with lruFront := next } (Function.update s.nextOf none next) s.prevOf
  := by
  refine ⟨?_, ?_, rfl, rfl⟩
  · funext pointer
    cases pointer <;> simp [nextOf]
  · funext pointer
    cases pointer <;> rfl

theorem setTail_relinked (s : LruCache Key Value) (prev : Option Address) :
  Relinked s { s with lruTail := prev } s.nextOf (Function.update s.prevOf none prev)
  := by
  refine ⟨?_, ?_, rfl, rfl⟩
  · funext pointer
    cases pointer <;> rfl
  · funext pointer
    cases pointer <;> simp [prevOf]

/-- The pointer is null or points to a node. -/
def Valid (s : LruCache Key Value) (pointer : Option Address) : Prop :=
  ∀ address, pointer = some address → (s.memory address).isSome

theorem Relinked.isSome (h : Relinked s s' next prev) :
  (s'.memory address).isSome = (s.memory address).isSome
  := by
  rw [← isSome_content, h.content, isSome_content]

theorem Relinked.valid (h : Relinked s s' next prev) (hvalid : s.Valid pointer) :
  s'.Valid pointer
  := by
  intro address heq
  rw [h.isSome]
  exact hvalid address heq

/-- Linking a node, or the tail if there is none, backwards. -/
theorem setPrev_or_tail (hpointer : s.Valid pointer) (prev : Option Address) :
  ∃ s', (if pointer ≠ none then s.setPrev pointer prev else some { s with lruTail := prev })
      = some s'
    ∧ Relinked s s' s.nextOf (Function.update s.prevOf pointer prev)
  := by
  cases pointer with
  | none => exact ⟨_, if_neg (by simp), s.setTail_relinked prev⟩
  | some address =>
    rw [if_pos (by simp)]
    exact setPrev_relinked (hpointer address rfl) prev

/-- Linking a node forwards, if there is one. -/
theorem setNext_of_ne_none (hpointer : s.Valid pointer) (next : Option Address) :
  ∃ s', (if pointer ≠ none then s.setNext pointer next else some s) = some s'
    ∧ Relinked s s' (if pointer ≠ none then Function.update s.nextOf pointer next else s.nextOf)
      s.prevOf
  := by
  cases pointer with
  | none => exact ⟨s, if_neg (by simp), Relinked.refl s⟩
  | some address =>
    simp only [if_pos (Option.some_ne_none address)]
    exact setNext_relinked (hpointer address rfl) next

/-- Linking a node backwards, if there is one. -/
theorem setPrev_of_ne_none (hpointer : s.Valid pointer) (prev : Option Address) :
  ∃ s', (if pointer ≠ none then s.setPrev pointer prev else some s) = some s'
    ∧ Relinked s s' s.nextOf
      (if pointer ≠ none then Function.update s.prevOf pointer prev else s.prevOf)
  := by
  cases pointer with
  | none => exact ⟨s, if_neg (by simp), Relinked.refl s⟩
  | some address =>
    simp only [if_pos (Option.some_ne_none address)]
    exact setPrev_relinked (hpointer address rfl) prev

/-- The node behind the front becomes the front itself. -/
theorem leaveFront_relinked (s : LruCache Key Value) (address : Address) (next : Option Address) :
  Relinked s (if s.lruFront = some address then { s with lruFront := next } else s)
    (if s.nextOf none = some address then Function.update s.nextOf none next else s.nextOf) s.prevOf
  := by
  have hfront : s.nextOf none = s.lruFront := rfl
  rw [hfront]
  split
  · exact s.setFront_relinked next
  · exact Relinked.refl s

/-- The node before the tail becomes the tail itself. -/
theorem leaveTail_relinked (s : LruCache Key Value) (address : Address) (prev : Option Address) :
  Relinked s (if s.lruTail = some address then { s with lruTail := prev } else s) s.nextOf
    (if s.prevOf none = some address then Function.update s.prevOf none prev else s.prevOf)
  := by
  have htail : s.prevOf none = s.lruTail := rfl
  rw [htail]
  split
  · exact s.setTail_relinked prev
  · exact Relinked.refl s

/-- Linking a node and, where there is none, an end is one update. -/
theorem update_end {next : Option Address → Option Address} {p q r : Option Address}
    (hend : next none = r ↔ p = none) :
    let next' := if p ≠ none then Function.update next p q else next
    (if next' none = r then Function.update next' none q else next') = Function.update next p q := by
  by_cases hnull : p = none
  · simp [hnull, hend.mpr hnull]
  · simp [hnull, Function.update_of_ne (Ne.symm hnull), hend]

/-- A node with its links. -/
theorem exists_node (h : (s.memory address).isSome) :
  ∃ key value, s.memory address
    = some { key, value, prev := s.prevOf (some address), next := s.nextOf (some address) }
  := by
  obtain ⟨node, hnode⟩ := Option.isSome_iff_exists.mp h
  use node.key, node.value
  simp [prevOf, nextOf, hnode]

/-- A node is put in at the front. If it becomes the only node it is the tail already. -/
theorem linkFront_relinked (hnode : (s.memory address).isSome) (hfront : s.Valid s.lruFront)
    (htail : s.lruFront = none → s.lruTail = some address) :
  ∃ s', s.linkFront address = some s'
    ∧ Relinked s s'
      (Function.update (Function.update s.nextOf (some address) (s.nextOf none)) none
        (some address))
      (Function.update (Function.update s.prevOf (some address) none) (s.nextOf none)
        (some address))
  := by
  obtain ⟨s₁, hset₁, h₁⟩ := setPrev_relinked hnode none
  have hfront₁ : s₁.lruFront = s.lruFront := congrFun h₁.nextOf none
  obtain ⟨s₂, hset₂, h₂⟩ := setNext_relinked (h₁.isSome.trans hnode) s.lruFront
  rw [h₁.nextOf, h₁.prevOf] at h₂
  have h₂' := h₁.trans h₂
  have hfront₂ : s₂.lruFront = s.lruFront := by
    have h := congrFun h₂.nextOf none
    rwa [Function.update_of_ne (by simp)] at h
  -- the old front, or the tail, names the node as the one before it
  obtain ⟨s₃, hset₃, h₃⟩ := setPrev_of_ne_none (h₂'.valid hfront) (some address)
  have hnamed : (if s.lruFront ≠ none then Function.update s₂.prevOf s.lruFront (some address)
      else s₂.prevOf) = Function.update s₂.prevOf s.lruFront (some address) := by
    split
    · rfl
    · rename_i hnone
      rw [not_not] at hnone
      rw [hnone, eq_comm, Function.update_eq_self_iff, h₂.prevOf, Function.update_of_ne (by simp)]
      exact (htail hnone).symm
  rw [hnamed] at h₃
  rw [h₂.nextOf, h₂.prevOf] at h₃
  refine ⟨{ s₃ with lruFront := some address }, ?_, ?_⟩
  · simp only [linkFront, Option.bind_eq_bind, Option.bind_some, hset₁, hfront₁, hset₂, hfront₂,
      hset₃]
    rfl
  · have h := h₂'.trans (h₃.trans (s₃.setFront_relinked (some address)))
    rwa [h₃.nextOf, h₃.prevOf] at h

/-- A new node is not linked yet. -/
theorem new_node (hfresh : s.memory address = none) (key : Key) (value : Value)
    {s₀ : LruCache Key Value}
    (hs₀ : { s with memory := Function.update s.memory address (some { key, value }) } = s₀) :
  s₀.nextOf = s.nextOf ∧ s₀.prevOf = s.prevOf
    ∧ s₀.content = Function.update s.content address (some (key, value))
  := by
  obtain ⟨hnext, hprev, hcontent⟩ := s.of_update address { key, value }
  rw [hs₀] at hnext hprev hcontent
  refine ⟨?_, ?_, hcontent⟩
  · rw [hnext, Function.update_eq_self_iff]
    simp [nextOf, hfresh]
  · rw [hprev, Function.update_eq_self_iff]
    simp [prevOf, hfresh]

/-- A new node is put in at the front, as the tail, too, if it is the only one. -/
theorem linkFront_new (hnode : (s.memory address).isSome) (hfront : s.Valid s.lruFront)
    (hends : s.lruTail = none ↔ s.lruFront = none) :
  ∃ s', (if s.lruTail = none then { s with lruTail := some address } else s).linkFront address
      = some s'
    ∧ Relinked s s'
      (Function.update (Function.update s.nextOf (some address) (s.nextOf none)) none
        (some address))
      (Function.update (Function.update s.prevOf (some address) none) (s.nextOf none)
        (some address))
  := by
  split
  · rename_i htail
    have hlinks := s.setTail_relinked (some address)
    obtain ⟨s', hrun, h⟩ := linkFront_relinked (hlinks.isSome.trans hnode) (hlinks.valid hfront)
      fun _ => rfl
    have hnull : s.nextOf none = none := hends.mp htail
    have hcomm : Function.update (Function.update s.prevOf none (some address)) (some address) none
        = Function.update (Function.update s.prevOf (some address) none) none (some address) :=
      Function.update_comm (by simp) ..
    rw [hlinks.nextOf, hlinks.prevOf, hnull, hcomm, Function.update_idem] at h
    rw [hnull]
    exact ⟨s', hrun, hlinks.trans h⟩
  · rename_i htail
    exact linkFront_relinked hnode hfront fun hnone => absurd (hends.mpr hnone) htail

/-- `LruCache::lru_touch` takes a node out and puts it in at the front. -/
theorem lruTouch_relinked (hnode : (s.memory address).isSome)
    (hprev : s.prevOf (some address) ≠ none) (hne : s.prevOf (some address) ≠ some address)
    (hbefore : s.Valid (s.prevOf (some address))) (hbehind : s.Valid (s.nextOf (some address)))
    (hfront : s.Valid s.lruFront) (hfull : s.lruFront ≠ none) :
    let next := Function.update s.nextOf (s.prevOf (some address)) (s.nextOf (some address))
    let prev := Function.update s.prevOf (s.nextOf (some address)) (s.prevOf (some address))
    ∃ s', s.lruTouch address = some s'
      ∧ Relinked s s'
        (Function.update (Function.update next (some address) (next none)) none (some address))
        (Function.update (Function.update prev (some address) none) (next none)
          (some address)) := by
  intro next prev
  obtain ⟨key, value, hmem⟩ := exists_node hnode
  obtain ⟨before, hbefore_eq⟩ := Option.ne_none_iff_exists'.mp hprev
  -- the nodes around it are linked
  obtain ⟨s₁, hset₁, h₁⟩ := setNext_relinked (hbefore before hbefore_eq)
    (s.nextOf (some address))
  rw [← hbefore_eq] at hset₁ h₁
  obtain ⟨key₁, value₁, hmem₁⟩ := exists_node (h₁.isSome.trans hnode)
  have hnext₁ : s₁.nextOf (some address) = s.nextOf (some address) := by
    rw [h₁.nextOf, Function.update_of_ne hne.symm]
  rw [h₁.prevOf, hnext₁] at hmem₁
  obtain ⟨s₂, hset₂, h₂⟩ := setPrev_or_tail (h₁.valid hbehind) (s.prevOf (some address))
  rw [h₁.nextOf, h₁.prevOf] at h₂
  have h₂' := h₁.trans h₂
  -- it is linked with the front
  have hfront₂ : s₂.lruFront = s.lruFront := by
    have h := congrFun h₂.nextOf none
    rwa [Function.update_of_ne hprev.symm] at h
  obtain ⟨s₃, hset₃, h₃⟩ := linkFront_relinked (h₂'.isSome.trans hnode)
    (hfront₂ ▸ h₂'.valid hfront) (fun h => absurd (hfront₂.symm.trans h) hfull)
  rw [h₂.nextOf, h₂.prevOf] at h₃
  refine ⟨s₃, ?_, h₂'.trans h₃⟩
  simp only [lruTouch, hmem, Option.bind_eq_bind, Option.bind_some, if_neg hprev, hset₁, hmem₁,
    hset₂, hset₃]

section Remove

variable [BEq Key] [Hashable Key]

/-- `LruCache::lru_remove` takes a node out before it leaves the set and is deleted. -/
theorem lruRemove_relinked (hnode : (s.memory address).isSome)
    (hbefore : s.Valid (s.prevOf (some address))) (hbehind : s.Valid (s.nextOf (some address)))
    (hprev : s.prevOf (some address) ≠ some address)
    (hnext : s.nextOf (some address) ≠ some address)
    (hfront : s.nextOf none = some address ↔ s.prevOf (some address) = none)
    (htail : s.prevOf none = some address ↔ s.nextOf (some address) = none) :
  ∃ s', Relinked s s'
      (Function.update s.nextOf (s.prevOf (some address)) (s.nextOf (some address)))
      (Function.update s.prevOf (s.nextOf (some address)) (s.prevOf (some address)))
    ∧ s.lruRemove address = (s'.eraseNode address).bind fun s' =>
      some { s' with memory := Function.update s'.memory address none }
  := by
  obtain ⟨key, value, hmem⟩ := exists_node hnode
  generalize hp : s.prevOf (some address) = p at *
  generalize hq : s.nextOf (some address) = q at *
  -- the nodes around it, if there are any
  obtain ⟨s₁, hset₁, h₁⟩ := setNext_of_ne_none hbefore q
  obtain ⟨key₁, value₁, hmem₁⟩ := exists_node (h₁.isSome.trans hnode)
  have hnext₁ : s₁.nextOf (some address) = q := by
    rw [h₁.nextOf]
    split
    · rw [Function.update_of_ne hprev.symm, hq]
    · exact hq
  rw [hnext₁, h₁.prevOf, hp] at hmem₁
  obtain ⟨s₂, hset₂, h₂⟩ := setPrev_of_ne_none (h₁.valid hbehind) p
  obtain ⟨key₂, value₂, hmem₂⟩ := exists_node ((h₁.trans h₂).isSome.trans hnode)
  have hprev₂ : s₂.prevOf (some address) = p := by
    rw [h₂.prevOf, h₁.prevOf]
    split
    · rw [Function.update_of_ne hnext.symm, hp]
    · exact hp
  rw [h₂.nextOf, hnext₁, hprev₂] at hmem₂
  -- the ends
  have h₃ := s₂.leaveFront_relinked address q
  generalize hs₃ : (if s₂.lruFront = some address then { s₂ with lruFront := q } else s₂) = s₃
    at h₃
  have h₄ := s₃.leaveTail_relinked address p
  rw [h₃.nextOf, h₂.nextOf, h₁.nextOf, update_end hfront, h₃.prevOf, h₂.prevOf, h₁.prevOf,
    update_end htail] at h₄
  refine ⟨_, h₁.trans (h₂.trans (h₃.trans h₄)), ?_⟩
  simp only [lruRemove, hmem, Option.bind_eq_bind, Option.bind_some, hset₁, hmem₁, hset₂, hmem₂,
    hs₃]
  rfl

end Remove

end LruCache

end MiniOB.Buffer
