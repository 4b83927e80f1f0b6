import MiniOB.Buffer.DiskBufferPool
import MiniOB.Buffer.LruCache

/-!
# The order of the cache

`LruCache` refines a recency list: the hash set and the links never come apart, and the walks
along the links visit the entries in the order of their last use. The list of the buffer pool
manager is what its cache holds.
-/

namespace MiniOB.Buffer

open Links (Ring)

namespace LruCache

variable {Key Value : Type} {s s' : LruCache Key Value} {address : Address}
  {pointer : Option Address} {next prev : Option Address → Option Address}

/-- The set and the links have the same nodes, which are listed from the front to the tail with
their entries. No other nodes are allocated, and no two have the same key. -/
structure Represents [BEq Key] (s : LruCache Key Value) (nodes : List (Address × Key × Value)) :
    Prop where
  ring : Ring s.nextOf s.prevOf none (nodes.map fun x => some x.1)
  searcher : s.searcher.Perm (nodes.map Prod.fst)
  content : ∀ x ∈ nodes, s.content x.1 = some x.2
  allocated : ∀ address, (s.memory address).isSome → address ∈ nodes.map Prod.fst
  nodup : (nodes.map Prod.fst).Nodup
  distinct : Recency.Distinct (nodes.map Prod.snd)

section Represents

variable [BEq Key] {nodes A B : List (Address × Key × Value)} {x : Address × Key × Value}
  {key : Key} {value : Value} {fresh : Address}

theorem represents_empty : Represents ({} : LruCache Key Value) [] where
  ring := Links.ring_nil.mpr ⟨rfl, rfl⟩
  searcher := List.Perm.refl []
  content := by simp
  allocated := by simp
  nodup := List.nodup_nil
  distinct := List.Pairwise.nil

theorem Represents.isSome (h : s.Represents nodes) (hx : x ∈ nodes) :
  (s.memory x.1).isSome
  := by
  rw [← isSome_content, h.content x hx]
  rfl

theorem Represents.nodup_pointers (h : s.Represents nodes) :
  (none :: nodes.map fun x => some x.1).Nodup
  := by
  rw [List.nodup_cons]
  refine ⟨by simp, ?_⟩
  have hmap := h.nodup.map (Option.some_injective Address)
  rwa [List.map_map] at hmap

/-- The links between the nodes and the ends are valid. -/
theorem Represents.valid (h : s.Represents nodes)
    (hpointer : pointer ∈ none :: nodes.map fun x => some x.1) :
  s.Valid pointer
  := by
  intro address heq
  rw [heq, List.mem_cons] at hpointer
  obtain hpointer | hpointer := hpointer
  · cases hpointer
  · obtain ⟨x, hx, hsome⟩ := List.mem_map.mp hpointer
    cases hsome
    exact h.isSome hx

/-- There is always an address for another node. -/
theorem Represents.exists_fresh (h : s.Represents nodes) : ∃ fresh, s.memory fresh = none := by
  obtain ⟨fresh, hfresh⟩ := Infinite.exists_notMem_finset (nodes.map Prod.fst).toFinset
  refine ⟨fresh, ?_⟩
  by_contra hsome
  have hmem := h.allocated fresh (Option.isSome_iff_ne_none.mpr hsome)
  exact hfresh (List.mem_toFinset.mpr hmem)

theorem Represents.notMem (h : s.Represents nodes) (hfresh : s.memory fresh = none) :
  fresh ∉ nodes.map Prod.fst
  := by
  intro hmem
  obtain ⟨x, hx, rfl⟩ := List.mem_map.mp hmem
  have hsome := h.isSome hx
  rw [hfresh] at hsome
  contradiction

/-- There is a front if and only if there is a tail. -/
theorem Represents.ends_iff (h : s.Represents nodes) :
  s.prevOf none = none ↔ s.nextOf none = none
  := by
  obtain ⟨hfront, htail⟩ := h.ring.ends
  rw [htail, hfront]
  cases nodes with
  | nil => simp
  | cons x nodes => simp [List.getLast?_cons]

/-- Only the links have changed, to those of the same nodes in another order. -/
theorem Represents.relinked (h : s.Represents nodes) (hlinks : Relinked s s' next prev)
    {nodes' : List (Address × Key × Value)} (hperm : nodes'.Perm nodes)
    (hring : Ring next prev none (nodes'.map fun x => some x.1))
    (hdistinct : Recency.Distinct (nodes'.map Prod.snd)) :
  s'.Represents nodes'
  where
  ring := by rwa [hlinks.nextOf, hlinks.prevOf]
  searcher := by
    rw [hlinks.searcher]
    exact h.searcher.trans (hperm.map Prod.fst).symm
  content := by
    intro x hx
    rw [hlinks.content]
    exact h.content x (hperm.mem_iff.mp hx)
  allocated := by
    intro address hsome
    rw [hlinks.isSome] at hsome
    exact (hperm.map Prod.fst).mem_iff.mpr (h.allocated address hsome)
  nodup := (hperm.map Prod.fst).nodup_iff.mpr h.nodup
  distinct := hdistinct

/-- No node is linked with itself. -/
theorem Represents.prev_ne (h : s.Represents (A ++ x :: B)) :
  s.prevOf (some x.1) ≠ some x.1 ∧ s.nextOf (some x.1) ≠ some x.1
  := by
  have hring := h.ring
  have hnodup := h.nodup_pointers
  rw [List.map_append, List.map_cons] at hring hnodup
  obtain ⟨hprev, hnext⟩ := hring.neighbours_mem
  constructor
  · rw [← List.cons_append] at hnodup
    exact (List.nodup_append.mp hnodup).2.2 _ hprev _ List.mem_cons_self
  · intro heq
    rw [heq, List.mem_cons] at hnext
    obtain hnull | hmem := hnext
    · cases hnull
    · have htail := (List.nodup_append.mp (List.nodup_cons.mp hnodup).2).2.1
      exact (List.nodup_cons.mp htail).1 hmem

/-- `LruCache::lru_touch` moves a node to the front. -/
theorem Represents.lruTouch [EquivBEq Key] (h : s.Represents (A ++ x :: B)) :
  ∃ s', s.lruTouch x.1 = some s' ∧ s'.Represents (x :: (A ++ B))
  := by
  have hx : x ∈ A ++ x :: B := by simp
  have hring := h.ring
  have hnodup := h.nodup_pointers
  rw [List.map_append, List.map_cons] at hring hnodup
  obtain ⟨hbefore, -⟩ := hring.neighbours
  obtain rfl | hA := eq_or_ne A []
  · -- it is at the front already
    obtain ⟨key, value, hmem⟩ := exists_node (h.isSome hx)
    have hnull : s.prevOf (some x.1) = none := hbefore
    refine ⟨s, ?_, h⟩
    simp only [LruCache.lruTouch, hmem, Option.bind_eq_bind, Option.bind_some, if_pos hnull]
    rfl
  · have hxmap : (some x.1 : Option Address) ∈ none :: (A ++ x :: B).map fun x => some x.1 := by
      simp
    have hnull : s.prevOf (some x.1) ≠ none := by
      intro heq
      have hfirst := (h.ring.first_iff hxmap).mpr heq
      rw [hring.ends.1] at hfirst
      obtain ⟨y, A, rfl⟩ := List.exists_cons_of_ne_nil hA
      simp only [List.map_cons, List.cons_append, List.head?_cons, Option.getD_some] at hfirst
      rw [← hfirst] at hnodup
      simp at hnodup
    obtain ⟨hne, -⟩ := h.prev_ne
    have hmem : ∀ p ∈ none :: (A ++ x :: B).map fun x => some x.1,
        s.Valid (s.nextOf p) ∧ s.Valid (s.prevOf p) := by
      intro p hp
      obtain ⟨hnext, hprev⟩ := h.ring.mem hp
      exact ⟨h.valid hnext, h.valid hprev⟩
    have hxmem := hmem (some x.1) (by simp)
    have hfull : s.lruFront ≠ none := by
      have hfirst : s.lruFront = _ := hring.ends.1
      rw [hfirst]
      obtain ⟨y, A, rfl⟩ := List.exists_cons_of_ne_nil hA
      simp
    obtain ⟨s', hrun, hlinks⟩ := lruTouch_relinked (h.isSome hx) hnull hne hxmem.2 hxmem.1
      (hmem none List.mem_cons_self).1 hfull
    refine ⟨s', hrun, h.relinked hlinks List.perm_middle.symm ?_
      (h.distinct.perm (List.perm_middle.map Prod.snd))⟩
    -- taken out, and put in behind the root
    have hout := hring.unlink hnodup
    rw [← List.cons_append, List.nodup_middle, List.cons_append, ← List.map_append,
      List.nodup_cons] at hnodup
    rw [← List.map_append] at hout
    exact hout.push hnodup.1 hnodup.2

/-- Writing the value of a node. -/
theorem Represents.modify (h : s.Represents (A ++ x :: B)) (value : Value) :
  ∃ s', (s.modify (some x.1) fun node => { node with value }) = some s'
    ∧ s'.Represents (A ++ (x.1, x.2.1, value) :: B)
  := by
  have hx : x ∈ A ++ x :: B := by simp
  obtain ⟨node, hnode⟩ := Option.isSome_iff_exists.mp (h.isSome hx)
  obtain ⟨hnext, hprev, hcontent⟩ := s.of_update x.1 { node with value }
  have hkey : node.key = x.2.1 := by
    have hx := h.content x hx
    rw [LruCache.content, hnode] at hx
    exact congrArg Prod.fst (Option.some.inj hx)
  have hfst : (A ++ (x.1, x.2.1, value) :: B).map Prod.fst = (A ++ x :: B).map Prod.fst := by
    simp
  have hnodup := h.nodup
  rw [List.map_append, List.map_cons, List.nodup_middle, ← List.map_append, List.nodup_cons]
    at hnodup
  refine ⟨_, modify_eq hnode _, ?_, ?_, ?_, ?_, ?_, ?_⟩
  · have hring := h.ring
    rw [List.map_append, List.map_cons] at hring ⊢
    apply hring.congr
    · intro p _
      rw [hnext, Function.update_eq_self_iff.mpr]
      simp [nextOf, hnode]
    · intro p _
      rw [hprev, Function.update_eq_self_iff.mpr]
      simp [prevOf, hnode]
  · rw [hfst]
    exact h.searcher
  · intro y hy
    rw [hcontent]
    rw [List.mem_append, List.mem_cons] at hy
    obtain rfl | hy := (or_left_comm.mp hy)
    · rw [Function.update_self, hkey]
    · rw [← List.mem_append] at hy
      rw [Function.update_of_ne]
      · apply h.content
        simp only [List.mem_append, List.mem_cons] at hy ⊢
        tauto
      · rintro heq
        exact hnodup.1 (List.mem_map.mpr ⟨y, hy, heq⟩)
  · intro address hsome
    rw [hfst]
    by_cases heq : address = x.1
    · rw [heq]
      exact List.mem_map_of_mem hx
    · apply h.allocated
      simpa only [Function.update_of_ne heq] using hsome
  · rw [hfst]
    exact h.nodup
  · have hdistinct := h.distinct
    simp only [Recency.Distinct, List.pairwise_map, List.pairwise_append, List.pairwise_cons,
      List.mem_cons, forall_eq_or_imp] at hdistinct ⊢
    exact hdistinct

end Represents

section Search

variable [BEq Key] [Hashable Key] {nodes A B : List (Address × Key × Value)}
  {x : Address × Key × Value} {key : Key} {value : Value} {fresh : Address}

/-- Whether a node has a key depends on its entry. -/
theorem hasKey_eq :
  s.hasKey key address
    = (s.content address).any fun e => hash e.1 == hash key && e.1 == key
  := by
  rw [hasKey, content]
  cases s.memory address <;> rfl

theorem findNode_congr (hsearcher : s'.searcher = s.searcher)
    (hcontent : ∀ address ∈ s.searcher, s'.content address = s.content address) :
  s'.findNode key = s.findNode key
  := by
  rw [findNode, findNode, hsearcher]
  apply List.find?_congr
  intro address haddress
  rw [hasKey_eq, hasKey_eq, hcontent address haddress]

variable [EquivBEq Key] [LawfulHashable Key]

omit [EquivBEq Key] in
theorem hasKey_of_content {e : Key × Value} (h : s.content address = some e) :
  s.hasKey key address = (e.1 == key)
  := by
  rw [hasKey_eq, h, Option.any_some]
  cases hkey : e.1 == key with
  | false => rw [Bool.and_false]
  | true => rw [LawfulHashable.hash_eq _ _ hkey, beq_self_eq_true, Bool.and_true]

/-- What the set finds is the node with the entry of the key. -/
theorem Represents.findNode (h : s.Represents nodes) (key : Key) :
  (s.findNode key = none ∧ Recency.find (nodes.map Prod.snd) key = none)
    ∨ ∃ A x B, nodes = A ++ x :: B ∧ s.findNode key = some x.1
      ∧ Recency.find (nodes.map Prod.snd) key = some x.2
      ∧ Recency.without (nodes.map Prod.snd) key = (A ++ B).map Prod.snd
  := by
  cases hfind : s.findNode key with
  | none =>
    refine .inl ⟨rfl, ?_⟩
    rw [Recency.find, List.find?_eq_none]
    intro e he
    obtain ⟨x, hx, rfl⟩ := List.mem_map.mp he
    rw [← hasKey_of_content (h.content x hx)]
    exact List.find?_eq_none.mp hfind x.1 (h.searcher.mem_iff.mpr (List.mem_map_of_mem hx))
  | some address =>
    right
    obtain ⟨x, hx, rfl⟩ := List.mem_map.mp (h.searcher.mem_iff.mp (List.mem_of_find?_eq_some hfind))
    have hkey := List.find?_some hfind
    rw [hasKey_of_content (h.content x hx)] at hkey
    obtain ⟨A, B, rfl⟩ := List.append_of_mem hx
    have hdistinct := h.distinct
    rw [List.map_append, List.map_cons] at hdistinct
    have hboth := hdistinct.split hkey
    rw [← List.map_cons, ← List.map_append, ← List.map_append] at hboth
    exact ⟨A, x, B, rfl, rfl, hboth⟩

omit [EquivBEq Key] [LawfulHashable Key] in
/-- The set gets a node whose key it does not have. -/
theorem insertNode_eq {e : Key × Value} (hcontent : s.content address = some e)
    (hfind : s.findNode e.1 = none) :
  s.insertNode address = some { s with searcher := address :: s.searcher }
  := by
  obtain ⟨node, hnode, rfl⟩ := Option.map_eq_some_iff.mp hcontent
  simp only [insertNode, hnode, Option.bind_eq_bind, Option.bind_some]
  rw [hfind]
  rfl

omit [EquivBEq Key] [LawfulHashable Key] in
/-- `LruCache::lru_push` puts a new node in at the front. -/
theorem Represents.lruPush (h : s.Represents nodes) (hfresh : s.memory fresh = none)
    (hfind : s.findNode key = none)
    (hdistinct : Recency.Distinct ((key, value) :: nodes.map Prod.snd)) :
  ∃ s', { s with memory := Function.update s.memory fresh (some { key, value }) }.lruPush fresh
      = some s'
    ∧ s'.Represents ((fresh, key, value) :: nodes)
  := by
  generalize hs₀ : { s with memory := Function.update s.memory fresh (some { key, value }) } = s₀
  obtain ⟨hnext, hprev, hcontent⟩ := new_node hfresh key value hs₀
  have hnew := h.notMem hfresh
  have hold : ∀ address ∈ nodes.map Prod.fst, s₀.content address = s.content address := by
    intro address hmem
    rw [hcontent, Function.update_of_ne]
    rintro rfl
    exact hnew hmem
  have hnode : (s₀.memory fresh).isSome := by
    rw [← isSome_content, hcontent, Function.update_self]
    rfl
  have hfront : s₀.lruFront = s.nextOf none := congrFun hnext none
  have htail : s₀.lruTail = s.prevOf none := congrFun hprev none
  have hends : s₀.lruTail = none ↔ s₀.lruFront = none := by
    rw [htail, hfront]
    exact h.ends_iff
  have hvalid : s₀.Valid s₀.lruFront := by
    intro address haddress
    rw [hfront] at haddress
    have hsome := h.valid (h.ring.mem List.mem_cons_self).1 address haddress
    rw [← isSome_content, hold _ (h.allocated _ hsome), isSome_content]
    exact hsome
  obtain ⟨s₁, hlink, hlinks⟩ := linkFront_new hnode hvalid hends
  rw [hnext, hprev] at hlinks
  have hsearcher : s₁.searcher = s.searcher := by
    rw [hlinks.searcher, ← hs₀]
  have hcontent₁ : s₁.content fresh = some (key, value) := by
    rw [hlinks.content, hcontent, Function.update_self]
  have hfind₁ : s₁.findNode key = none := by
    rw [← hfind]
    apply findNode_congr hsearcher
    intro address haddress
    rw [hlinks.content, hold address (h.searcher.mem_iff.mp haddress)]
  refine ⟨{ s₁ with searcher := fresh :: s₁.searcher }, ?_, ?_, ?_, ?_, ?_, ?_, hdistinct⟩
  · rw [LruCache.lruPush, hlink, Option.bind_eq_bind, Option.bind_some]
    exact insertNode_eq hcontent₁ hfind₁
  · have hring := h.ring.push (x := some fresh) (by simpa using hnew) h.nodup_pointers
    rw [← hlinks.nextOf, ← hlinks.prevOf] at hring
    exact hring
  · rw [hsearcher, List.map_cons]
    exact h.searcher.cons fresh
  · intro x hx
    change s₁.content x.1 = _
    rw [List.mem_cons] at hx
    obtain rfl | hx := hx
    · exact hcontent₁
    · rw [hlinks.content, hold x.1 (List.mem_map_of_mem hx), h.content x hx]
  · intro address hsome
    change (s₁.memory address).isSome at hsome
    rw [List.map_cons, List.mem_cons]
    by_cases heq : address = fresh
    · exact .inl heq
    · right
      apply h.allocated
      rwa [hlinks.isSome, ← isSome_content, hcontent, Function.update_of_ne heq,
        isSome_content] at hsome
  · rw [List.map_cons, List.nodup_cons]
    exact ⟨hnew, h.nodup⟩

/-- Only the node itself has the key that it is erased by. -/
theorem Represents.hasKey_iff (h : s.Represents (A ++ x :: B)) (hcontent : s'.content = s.content) :
  ∀ address ∈ (A ++ x :: B).map Prod.fst, s'.hasKey x.2.1 address ↔ address = x.1
  := by
  intro address haddress
  obtain ⟨y, hy, rfl⟩ := List.mem_map.mp haddress
  have hx : x ∈ A ++ x :: B := by simp
  have hycontent := h.content y hy
  rw [← hcontent] at hycontent
  rw [hasKey_of_content hycontent]
  constructor
  · intro hkey
    rw [List.mem_append, List.mem_cons, or_left_comm] at hy
    obtain rfl | hy := hy
    · rfl
    · have hdistinct := h.distinct.perm (List.perm_middle.map Prod.snd)
      rw [List.map_cons] at hdistinct
      have hne := (List.pairwise_cons.mp hdistinct).1 y.2
        (List.mem_map_of_mem (List.mem_append.mpr hy))
      rw [BEq.symm hkey] at hne
      contradiction
  · intro heq
    have hentry := h.content y hy
    rw [heq, h.content x hx, Option.some.injEq] at hentry
    rw [hentry]
    exact BEq.rfl

/-- The node leaves the set. -/
theorem Represents.eraseP (h : s.Represents (A ++ x :: B)) (hcontent : s'.content = s.content) :
  (s.searcher.eraseP (s'.hasKey x.2.1)).Perm ((A ++ B).map Prod.fst)
  := by
  have hiff := h.hasKey_iff hcontent
  have honly : s.searcher.Pairwise fun a b => s'.hasKey x.2.1 a → s'.hasKey x.2.1 b → False := by
    apply (h.searcher.nodup_iff.mpr h.nodup).imp_of_mem
    intro a b ha hb hne hkeya hkeyb
    apply hne
    rw [(hiff a (h.searcher.mem_iff.mp ha)).mp hkeya, (hiff b (h.searcher.mem_iff.mp hb)).mp hkeyb]
  apply (h.searcher.eraseP _ honly).trans
  have hnodup := h.nodup
  rw [List.map_append, List.map_cons] at hnodup hiff ⊢
  rw [List.eraseP_append_right, List.eraseP_cons_of_pos, List.map_append]
  · exact (hiff x.1 (by simp)).mpr rfl
  · intro address haddress hkey
    rw [hiff address (List.mem_append_left _ haddress)] at hkey
    exact (List.nodup_append.mp hnodup).2.2 address haddress x.1 List.mem_cons_self hkey

/-- `LruCache::lru_remove` takes a node out. -/
theorem Represents.lruRemove (h : s.Represents (A ++ x :: B)) :
  ∃ s', s.lruRemove x.1 = some s' ∧ s'.Represents (A ++ B)
  := by
  have hx : x ∈ A ++ x :: B := by simp
  have hxmap : (some x.1 : Option Address) ∈ none :: (A ++ x :: B).map fun x => some x.1 := by
    simp
  obtain ⟨hprev, hnext⟩ := h.prev_ne
  obtain ⟨hnextmem, hprevmem⟩ := h.ring.mem hxmap
  obtain ⟨s₁, hlinks, hrun⟩ := lruRemove_relinked (h.isSome hx) (h.valid hprevmem)
    (h.valid hnextmem) hprev hnext (h.ring.first_iff hxmap) (h.ring.last_iff hxmap)
  have hcontent : s₁.content x.1 = some x.2 := by
    rw [hlinks.content, h.content x hx]
  obtain ⟨node, hnode, hkey⟩ := Option.map_eq_some_iff.mp hcontent
  have herase : s₁.eraseNode x.1
      = some { s₁ with searcher := s₁.searcher.eraseP (s₁.hasKey x.2.1) } := by
    simp only [eraseNode, hnode, Option.bind_eq_bind, Option.bind_some, ← hkey]
    rfl
  have hnodup := h.nodup
  have hring := h.ring
  have hpointers := h.nodup_pointers
  rw [List.map_append, List.map_cons] at hnodup hring hpointers
  have hout := hring.unlink hpointers
  rw [← List.map_append, ← hlinks.nextOf, ← hlinks.prevOf] at hout
  rw [List.nodup_middle, ← List.map_append, List.nodup_cons] at hnodup
  have hne : ∀ y ∈ A ++ B, y.1 ≠ x.1 := by
    rintro y hy heq
    exact hnodup.1 (heq ▸ List.mem_map_of_mem hy)
  have hne' : ∀ p ∈ none :: (A ++ B).map fun x => some x.1, p ≠ some x.1 := by
    intro p hp heq
    rw [heq, List.mem_cons] at hp
    obtain hnull | hp := hp
    · cases hnull
    · obtain ⟨y, hy, hsome⟩ := List.mem_map.mp hp
      exact hne y hy (Option.some.inj hsome)
  obtain ⟨hnext', hprev', hcontent'⟩ := { s₁ with
    searcher := s₁.searcher.eraseP (s₁.hasKey x.2.1) }.of_delete x.1
  rw [hrun, herase]
  refine ⟨_, rfl, ?_, ?_, ?_, ?_, hnodup.2, ?_⟩
  · exact hout.congr (fun p hp => hnext' p (hne' p hp)) (fun p hp => hprev' p (hne' p hp))
  · rw [hlinks.searcher]
    exact h.eraseP hlinks.content
  · intro y hy
    refine (hcontent' y.1 (hne y hy)).trans ?_
    change s₁.content y.1 = _
    rw [hlinks.content]
    apply h.content
    rw [List.mem_append, List.mem_cons, or_left_comm, ← List.mem_append]
    exact .inr hy
  · intro address hsome
    by_cases heq : address = x.1
    · rw [heq] at hsome
      simp at hsome
    · have hmem := h.allocated address (by
        rw [← hlinks.isSome]
        simpa only [Function.update_of_ne heq] using hsome)
      rw [List.map_append, List.map_cons, List.mem_append, List.mem_cons, or_left_comm,
        ← List.mem_append, ← List.map_append] at hmem
      exact hmem.resolve_left heq
  · have hdistinct := h.distinct
    rw [List.map_append, List.map_cons] at hdistinct
    rw [List.map_append]
    exact hdistinct.sublist (List.Sublist.append_left (List.sublist_cons_self _ _) _)

/-! ### The recency list -/

/-- `LruCache::get` finds the value of a key and moves its entry to the front. -/
theorem Represents.get (h : s.Represents nodes) (key : Key) :
  ∃ s' nodes', s.get key = some ((Recency.find (nodes.map Prod.snd) key).map Prod.snd, s')
    ∧ s'.Represents nodes'
    ∧ nodes'.map Prod.snd = Recency.apply (nodes.map Prod.snd) (.get key)
  := by
  obtain ⟨hfind, hnone⟩ | ⟨A, x, B, rfl, hfind, hsome, hothers⟩ := h.findNode key
  · refine ⟨s, nodes, ?_, h, ?_⟩
    · simp only [LruCache.get, hfind, hnone, Option.map_none]
    · simp only [Recency.apply, hnone]
  · obtain ⟨s', htouch, h'⟩ := h.lruTouch
    have hcontent := h'.content x List.mem_cons_self
    obtain ⟨node, hnode, hentry⟩ := Option.map_eq_some_iff.mp hcontent
    refine ⟨s', x :: (A ++ B), ?_, h', ?_⟩
    · simp only [LruCache.get, hfind, htouch, hnode, hsome, Option.bind_eq_bind, Option.bind_some,
        ← hentry, Option.map_some]
      rfl
    · simp only [Recency.apply, hsome, hothers, List.map_cons]

/-- `LruCache::put` writes the value of a key and moves its entry to the front. -/
theorem Represents.put (h : s.Represents nodes) (key : Key) (value : Value)
    (hfresh : s.memory fresh = none) :
  ∃ s' nodes', s.put key value fresh = some s' ∧ s'.Represents nodes'
    ∧ nodes'.map Prod.snd = Recency.apply (nodes.map Prod.snd) (.put key value)
  := by
  obtain ⟨hfind, hnone⟩ | ⟨A, x, B, rfl, hfind, hsome, hothers⟩ := h.findNode key
  · have hdistinct := h.distinct.apply (.put key value)
    simp only [Recency.apply, hnone] at hdistinct
    obtain ⟨s', hpush, h'⟩ := h.lruPush hfresh hfind hdistinct
    refine ⟨s', (fresh, key, value) :: nodes, ?_, h', ?_⟩
    · simp only [LruCache.put, hfind]
      exact hpush
    · simp only [Recency.apply, hnone, List.map_cons]
  · obtain ⟨s₁, hmodify, h₁⟩ := h.modify value
    obtain ⟨s', htouch, h'⟩ := h₁.lruTouch
    refine ⟨s', (x.1, x.2.1, value) :: (A ++ B), ?_, h', ?_⟩
    · simp only [LruCache.put, hfind, hmodify, Option.bind_eq_bind, Option.bind_some]
      exact htouch
    · simp only [Recency.apply, hsome, hothers, List.map_cons]

/-- `LruCache::remove` takes the entry of a key out. -/
theorem Represents.remove (h : s.Represents nodes) (key : Key) :
  ∃ s' nodes', s.remove key = some s' ∧ s'.Represents nodes'
    ∧ nodes'.map Prod.snd = Recency.apply (nodes.map Prod.snd) (.remove key)
  := by
  obtain ⟨hfind, hnone⟩ | ⟨A, x, B, rfl, hfind, -, hothers⟩ := h.findNode key
  · refine ⟨s, nodes, ?_, h, ?_⟩
    · simp only [LruCache.remove, hfind]
    · rw [Recency.apply, Recency.without_of_find_none hnone]
  · obtain ⟨s', hremove, h'⟩ := h.lruRemove
    refine ⟨s', A ++ B, ?_, h', ?_⟩
    · simp only [LruCache.remove, hfind, hremove]
    · rw [Recency.apply, hothers]

/-- Every operation has a result, and its effect is that on the recency list. -/
theorem Represents.step (h : s.Represents nodes) (op : Recency.Op Key Value)
    (hfresh : s.memory fresh = none) :
  ∃ result s' nodes', s.step fresh op = some (result, s') ∧ s'.Represents nodes'
    ∧ nodes'.map Prod.snd = Recency.apply (nodes.map Prod.snd) op
  := by
  cases op with
  | get key =>
    obtain ⟨s', nodes', hget, h'⟩ := h.get key
    exact ⟨_, s', nodes', hget, h'⟩
  | put key value =>
    obtain ⟨s', nodes', hput, h'⟩ := h.put key value hfresh
    exact ⟨none, s', nodes', by simp only [LruCache.step, hput, Option.map_some], h'⟩
  | remove key =>
    obtain ⟨s', nodes', hremove, h'⟩ := h.remove key
    exact ⟨none, s', nodes', by simp only [LruCache.step, hremove, Option.map_some], h'⟩

/-- After any operations the nodes are those of the recency list. -/
theorem represents_run {h : List (LruCache Key Value × Recency.Op Key Value)}
    (hrun : Transition.Run Step {} h s) :
  ∃ nodes, s.Represents nodes ∧ nodes.map Prod.snd = Recency.run (h.map Prod.snd)
  := by
  apply hrun.invariant_history (P := fun h s => ∃ nodes, s.Represents nodes
    ∧ nodes.map Prod.snd = Recency.run (h.map Prod.snd))
  · exact ⟨[], represents_empty, rfl⟩
  · rintro h s op s' ⟨nodes, hs, hnodes⟩ ⟨fresh, result, hfresh, hstep⟩
    obtain ⟨result', s'', nodes', hstep', hs', hnodes'⟩ := hs.step op hfresh
    obtain ⟨-, rfl⟩ := Prod.mk.inj (Option.some.inj (hstep.symm.trans hstep'))
    refine ⟨nodes', hs', ?_⟩
    rw [hnodes', hnodes]
    rfl

end Search

/-! ### Walks -/

section Walk

variable {nodes : List (Address × Key × Value)} {σ : Type}
  {link : ListNode Key Value → Option Address} {linkOf other : Option Address → Option Address}
  {fuel : Nat}

/-- Following a link visits the nodes of a chain. -/
theorem foreachLoop_eq (hlink : ∀ address, linkOf (some address) = (s.memory address).bind link)
    (func : Key → Value → σ → Bool × σ) (acc : σ)
    (hchain : Links.Chain linkOf other ((nodes.map fun x => some x.1) ++ [none]))
    (hcontent : ∀ x ∈ nodes, s.content x.1 = some x.2) (hfuel : nodes.length < fuel) :
  foreachLoop link func s fuel (nodes.head?.map Prod.fst) acc
    = some (Recency.visit func (nodes.map Prod.snd) acc)
  := by
  induction nodes generalizing fuel acc with
  | nil =>
    obtain ⟨fuel, rfl⟩ := Nat.exists_eq_add_of_lt hfuel
    rfl
  | cons x nodes ih =>
    obtain ⟨fuel, rfl⟩ : ∃ fuel', fuel = fuel' + 1 := ⟨fuel - 1, by omega⟩
    obtain ⟨node, hnode, hentry⟩ := Option.map_eq_some_iff.mp (hcontent x List.mem_cons_self)
    -- the link leads to the next node or, from the last one, is null
    have hnext : link node = nodes.head?.map Prod.fst := by
      have hnext := hlink x.1
      rw [hnode, Option.bind_some] at hnext
      rw [← hnext]
      cases nodes with
      | nil => exact hchain.1
      | cons y nodes => exact hchain.1
    have hkey : node.key = x.2.1 := congrArg Prod.fst hentry
    have hvalue : node.value = x.2.2 := congrArg Prod.snd hentry
    rw [List.length_cons, Nat.add_lt_add_iff_right] at hfuel
    simp only [List.head?_cons, Option.map_some, foreachLoop, hnode, Option.bind_eq_bind,
      Option.bind_some, hkey, hvalue, hnext, List.map_cons, Recency.visit]
    rcases func x.2.1 x.2.2 acc with ⟨_ | _, acc⟩
    · rfl
    · exact ih acc hchain.tail (fun y hy => hcontent y (List.mem_cons_of_mem x hy)) hfuel

variable [BEq Key]

/-- `LruCache::foreach` visits the nodes from the front, `LruCache::foreach_reverse` from the
tail. -/
theorem Represents.foreach (h : s.Represents nodes) (func : Key → Value → σ → Bool × σ) (acc : σ)
    (hfuel : nodes.length < fuel) :
  s.foreach func fuel acc = some (Recency.visit func (nodes.map Prod.snd) acc)
    ∧ s.foreachReverse func fuel acc
      = some (Recency.visit func (nodes.map Prod.snd).reverse acc)
  := by
  have hfront : s.lruFront = nodes.head?.map Prod.fst := by
    refine h.ring.ends.1.trans ?_
    cases nodes <;> rfl
  have htail : s.lruTail = nodes.reverse.head?.map Prod.fst := by
    refine h.ring.ends.2.trans ?_
    rw [List.head?_reverse, List.getLast?_map]
    cases nodes.getLast? <;> rfl
  have hreverse := h.ring.reverse
  rw [← List.map_reverse] at hreverse
  constructor
  · rw [LruCache.foreach, hfront]
    exact foreachLoop_eq (fun _ => rfl) func acc (Links.Chain.tail h.ring) h.content hfuel
  · rw [foreachReverse, htail, ← List.map_reverse]
    exact foreachLoop_eq (fun _ => rfl) func acc (Links.Chain.tail hreverse)
      (fun x hx => h.content x (List.mem_reverse.mp hx)) (by rwa [List.length_reverse])

theorem Represents.count (h : s.Represents nodes) : s.count = nodes.length := by
  rw [LruCache.count, h.searcher.length_eq, List.length_map]

/-- `LruCache::destroy` deletes all nodes. -/
theorem Represents.destroy (h : s.Represents nodes) : s.destroy = {} := by
  rw [LruCache.destroy]
  congr 1
  funext address
  split
  · rfl
  · rename_i hmem
    by_contra hsome
    have hsome := Option.isSome_iff_ne_none.mpr hsome
    exact hmem (h.searcher.mem_iff.mpr (h.allocated address hsome))

end Walk

section Run

variable [BEq Key] [Hashable Key] [EquivBEq Key] [LawfulHashable Key]

/-- The operations can be called in any order. -/
theorem exists_run (ops : List (Recency.Op Key Value)) :
  ∃ (h : List (LruCache Key Value × Recency.Op Key Value)) (s : LruCache Key Value),
    Transition.Run Step {} h s ∧ h.map Prod.snd = ops
  := by
  induction ops with
  | nil => exact ⟨[], {}, Transition.Run.refl, rfl⟩
  | cons op ops ih =>
    obtain ⟨h, s, hrun, rfl⟩ := ih
    obtain ⟨nodes, hs, -⟩ := represents_run hrun
    obtain ⟨fresh, hfresh⟩ := hs.exists_fresh
    obtain ⟨result, s', -, hstep, -⟩ := hs.step op hfresh
    exact ⟨(s, op) :: h, s', hrun.tail ⟨fresh, result, hfresh, hstep⟩, rfl⟩

/-- The cache is a recency list. After any operations, the set and the links have the same
nodes, a key has the value last put under it since it was last removed, the walks visit the
entries in the order of their last use, and every operation has a result again. -/
theorem lruCache_run {h : List (LruCache Key Value × Recency.Op Key Value)}
    (hrun : Transition.Run Step {} h s) :
    let ops := h.map Prod.snd
    (∃ nodes, s.Represents nodes ∧ nodes.map Prod.snd = Recency.run ops
      ∧ s.count = nodes.length)
    ∧ Recency.Aged ops (Recency.run ops)
    ∧ (∀ key, ∃ s', s.get key = some (Recency.lastPut key ops, s'))
    ∧ (∀ (σ : Type) (func : Key → Value → σ → Bool × σ) (acc : σ) (fuel : Nat), s.count < fuel →
      s.foreach func fuel acc = some (Recency.visit func (Recency.run ops) acc)
      ∧ s.foreachReverse func fuel acc = some (Recency.visit func (Recency.run ops).reverse acc))
    ∧ ∀ fresh op, s.memory fresh = none → ∃ result s', s.step fresh op = some (result, s') := by
  intro ops
  obtain ⟨nodes, hs, hnodes⟩ := represents_run hrun
  refine ⟨⟨nodes, hs, hnodes, hs.count⟩, Recency.aged_run ops, ?_, ?_, ?_⟩
  · intro key
    obtain ⟨s', nodes', hget, -⟩ := hs.get key
    rw [hnodes, Recency.find_run] at hget
    exact ⟨s', hget⟩
  · intro σ func acc fuel hfuel
    rw [← hnodes]
    exact hs.foreach func acc (hs.count ▸ hfuel)
  · intro fresh op hfresh
    obtain ⟨result, s', nodes', hstep, -⟩ := hs.step op hfresh
    exact ⟨result, s', hstep⟩

theorem lruCache_run_put_put_get :
  ∃ (h : List (LruCache Nat Nat × Recency.Op Nat Nat)) (s : LruCache Nat Nat),
    Transition.Run Step {} h s ∧ h.map Prod.snd = [.get 1, .put 2 20, .put 1 10]
    ∧ (∃ s', s.get 2 = some (some 20, s')) ∧ (∃ s', s.get 3 = some (none, s'))
    ∧ s.foreach (fun key _ keys => (true, keys ++ [key])) 3 [] = some [1, 2]
    ∧ s.foreachReverse (fun key _ keys => (true, keys ++ [key])) 3 [] = some [2, 1]
  := by
  obtain ⟨h, s, hrun, hops⟩ := exists_run [.get 1, .put 2 20, .put (1 : Nat) (10 : Nat)]
  obtain ⟨⟨nodes, -, hnodes, hcount⟩, -, hget, hforeach, -⟩ := lruCache_run hrun
  rw [hops] at hnodes hget hforeach
  have hlength : nodes.length = 2 := by
    rw [← List.length_map, hnodes]
    rfl
  have hwalk := hforeach (List Nat) (fun key _ keys => (true, keys ++ [key])) [] 3 (by omega)
  exact ⟨h, s, hrun, hops, hget 2, hget 3, hwalk⟩

end Run

end LruCache

/-! ### The frames -/

/-- `FrameId::hash`, with which `BPFrameIdHasher` hashes. -/
instance : Hashable FrameId where
  hash id := UInt64.ofInt id.bufferPoolId <<< 32 ||| UInt64.ofInt id.pageNum

namespace BPFrameManager

variable {s s' : BPFrameManager} {cache : LruCache FrameId Nat} {key : FrameId} {n : Nat}

/-- The frames of the manager are those of its cache, in the same order. -/
def Caches (s : BPFrameManager) (cache : LruCache FrameId Nat) : Prop :=
  ∃ nodes, cache.Represents nodes ∧ nodes.map Prod.snd = s.frames

theorem find_eq (s : BPFrameManager) (key : FrameId) :
  s.find key = Recency.find s.frames key
  := rfl

theorem filter_ne_eq (s : BPFrameManager) (key : FrameId) :
  s.frames.filter (·.1 ≠ key) = Recency.without s.frames key
  := by
  rw [Recency.without]
  congr 1
  funext x
  rw [decide_not]
  rfl

/-- What an operation makes of the frames it makes of the cache. -/
theorem Caches.step (h : s.Caches cache) (op : Recency.Op FrameId Nat) :
  ∃ cache', LruCache.Step cache op cache'
    ∧ ∀ s' : BPFrameManager, s'.frames = Recency.apply s.frames op → s'.Caches cache'
  := by
  obtain ⟨nodes, hcache, hnodes⟩ := h
  obtain ⟨fresh, hfresh⟩ := hcache.exists_fresh
  obtain ⟨result, cache', nodes', hstep, hcache', hnodes'⟩ := hcache.step op hfresh
  refine ⟨cache', ⟨fresh, result, hfresh, hstep⟩, ?_⟩
  intro s' hframes
  exact ⟨nodes', hcache', by rw [hnodes', hnodes, hframes]⟩

theorem getInternal_frames (s : BPFrameManager) (key : FrameId) :
  ((s.getInternal key).elim s Prod.snd).frames = Recency.apply s.frames (.get key)
  := by
  rw [getInternal, Recency.apply, ← find_eq]
  cases hfind : s.find key with
  | none => rfl
  | some x =>
    obtain ⟨key', n⟩ := x
    have hkey : key' = key := by
      simpa [find] using List.find?_some hfind
    rw [hkey, ← filter_ne_eq]
    rfl

/-- `BPFrameManager::get_internal` gets the frame from the cache. -/
theorem Caches.getInternal (h : s.Caches cache) (key : FrameId) :
  ∃ cache', cache.get key = some ((s.getInternal key).map Prod.fst, cache')
    ∧ ((s.getInternal key).elim s Prod.snd).Caches cache'
  := by
  have hframes := s.getInternal_frames key
  obtain ⟨nodes, hcache, hnodes⟩ := h
  obtain ⟨cache', nodes', hget, hcache', hnodes'⟩ := hcache.get key
  rw [hnodes] at hget hnodes'
  refine ⟨cache', ?_, nodes', hcache', hnodes'.trans hframes.symm⟩
  rw [hget, ← find_eq, BPFrameManager.getInternal]
  cases s.find key <;> rfl

/-- `BPFrameManager::alloc` gets the frame from the cache or puts a free one into it. -/
theorem Caches.alloc (h : s.Caches cache) (halloc : s.alloc key = some (some n, s')) :
  ∃ op cache', (op = .get key ∨ op = .put key n) ∧ LruCache.Step cache op cache'
    ∧ s'.Caches cache'
  := by
  have hframes := s.getInternal_frames key
  rw [BPFrameManager.alloc] at halloc
  cases hget : s.getInternal key with
  | some x =>
    rw [hget] at halloc hframes
    simp only [Option.some.injEq, Prod.mk.injEq] at halloc
    obtain ⟨cache', hstep, hcaches⟩ := h.step (.get key)
    exact ⟨_, cache', .inl rfl, hstep, hcaches s' (halloc.2 ▸ hframes)⟩
  | none =>
    have hfind : s.find key = none := by
      rw [BPFrameManager.getInternal] at hget
      cases hfind : s.find key with
      | none => rfl
      | some x => simp [hfind] at hget
    rw [hget] at halloc
    obtain ⟨cache', hstep, hcaches⟩ := h.step (.put key n)
    refine ⟨_, cache', .inr rfl, hstep, hcaches s' ?_⟩
    rw [Recency.apply, ← find_eq, hfind]
    cases hfrees : s.frees with
    | nil => simp [hfrees] at halloc
    | cons m frees =>
      simp only [hfrees] at halloc
      split at halloc
      · obtain ⟨hn, hs'⟩ := Prod.mk.inj (Option.some.inj halloc)
        rw [← hs', Option.some.inj hn]
      · cases halloc

/-- `BPFrameManager::free_internal` gets the frame from the cache and removes it. -/
theorem Caches.freeInternal (h : s.Caches cache) (hfree : s.freeInternal key n = some s') :
  ∃ history cache', Transition.Run LruCache.Step cache history cache'
    ∧ history.map Prod.snd = [.remove key, .get key] ∧ s'.Caches cache'
  := by
  obtain ⟨cache₁, hget, hcaches₁⟩ := h.step (.get key)
  have hfound := hcaches₁ { s with frames := Recency.apply s.frames (.get key) } rfl
  obtain ⟨cache', hremove, hcaches⟩ := hfound.step (.remove key)
  refine ⟨_, cache', (Transition.Run.refl.tail hget).tail hremove, rfl, hcaches s' ?_⟩
  rw [BPFrameManager.freeInternal] at hfree
  rw [Recency.remove_get, ← filter_ne_eq]
  cases hfind : s.find key with
  | none => simp [hfind] at hfree
  | some x =>
    simp only [hfind] at hfree
    split at hfree
    · rw [← Option.some.inj hfree]
    · cases hfree

end BPFrameManager

end MiniOB.Buffer
