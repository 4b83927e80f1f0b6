import MiniOB.Buffer.PinBalance

/-!
# When a frame is found

The loop of `DiskBufferPool::allocate_frame` ends with a frame only. A pass that finds no free
frame purges the page that has not been used for longest among those that nobody has pinned, and
no other one, so that the loop goes on as long as that page cannot be flushed.
-/

namespace MiniOB.Buffer

/-- The writes of one pass have outcomes of their own. -/
def Storage.withOutcomes (storage : Storage) (outcomes : List Bool) : Storage :=
  { storage with outcomes }

/-- A page is added to the double write buffer, at most as often as the fuel says, until it
succeeds. -/
def Storage.retry (key : FrameId) (page : Page) :
    Nat → (Nat → List Bool) → Storage → Option Storage
  | 0, _, _ => none
  | fuel + 1, outcomes, storage =>
    match (storage.withOutcomes (outcomes 0)).addPage key page with
    | some (.success, storage) => some storage
    | some (_, storage) => retry key page fuel (fun i => outcomes (i + 1)) storage
    | none => none

/-- A page is added to the double write buffer after finitely many failures. -/
def Storage.Addable (key : FrameId) (page : Page) (outcomes : Nat → List Bool)
    (storage : Storage) : Prop :=
  ∃ fuel storage', Storage.retry key page fuel outcomes storage = some storage'

namespace BPFrameManager

/-- The writes of one pass have outcomes of their own. -/
def withOutcomes (s : BPFrameManager) (outcomes : List Bool) : BPFrameManager :=
  { s with storage := s.storage.withOutcomes outcomes }

/-- `DiskBufferPool::allocate_frame`, where the writes of the pass `i` of the loop have the
outcomes `outcomes i`. The loop does not end in front of its `return`. -/
def allocateFrameWith (crc32 : List UInt8 → UInt32) (key : FrameId) :
    Nat → (Nat → List Bool) → BPFrameManager → Option (RC × Option Nat × BPFrameManager)
  | 0, _, _ => none
  | fuel + 1, outcomes, s =>
    match s.alloc key with
    | some (some n, s) => some (.success, some n, s)
    | some (none, s) =>
      match (s.withOutcomes (outcomes 0)).purgeFrames crc32 key.bufferPoolId with
      | some s => allocateFrameWith crc32 key fuel (fun i => outcomes (i + 1)) s
      | none => none
    | none => none

/-- The page that `BPFrameManager::purge_frames` finds. -/
def victim (s : BPFrameManager) : Option (FrameId × Nat) :=
  s.frames.reverse.find? fun frame => (s.memory frame.2).pinCount = 0

/-- Nobody has pinned the frame of a page, and the page is clean or can be flushed by the pool
`bufferPoolId` after finitely many failures. -/
def CanPurge (crc32 : List UInt8 → UInt32) (bufferPoolId : Int) (outcomes : Nat → List Bool)
    (s : BPFrameManager) (x : FrameId × Nat) : Prop :=
  (s.memory x.2).pinCount = 0 ∧ ((s.memory x.2).dirty = false
    ∨ (x.1.bufferPoolId = bufferPoolId ∨ x.1.bufferPoolId ∈ s.storage.pools)
      ∧ s.storage.Addable x.1 ((s.memory x.2).stamped crc32) outcomes)

/-- The page has a frame, or some frame is free or can be purged. -/
def Obtainable (crc32 : List UInt8 → UInt32) (key : FrameId) (outcomes : Nat → List Bool)
    (s : BPFrameManager) : Prop :=
  (∃ x ∈ s.frames, x.1 = key) ∨ s.frees ≠ []
    ∨ ∃ x ∈ s.frames, CanPurge crc32 key.bufferPoolId outcomes s x

/-- `DiskBufferPool::allocate_frame` returns after finitely many passes, and says whether there
is a frame. -/
structure Allocates (crc32 : List UInt8 → UInt32) (key : FrameId) (outcomes : Nat → List Bool)
    (s : BPFrameManager) : Prop where
  frame : Obtainable crc32 key outcomes s →
    ∃ fuel n s', s.allocateFrameWith crc32 key fuel outcomes = some (.success, some n, s')
  noFrame : ¬ Obtainable crc32 key outcomes s →
    ∃ fuel s', s.allocateFrameWith crc32 key fuel outcomes = some (.bufferpoolNobuf, none, s')

end BPFrameManager

open BPFrameManager

variable {crc32 : List UInt8 → UInt32} {s s' : BPFrameManager} {x : FrameId × Nat} {key : FrameId}
  {page : Page} {n fuel : Nat} {rc : RC} {bufferPoolId : Int} {outcomes : Nat → List Bool}

/-- The loop with a list of outcomes for all of its passes is one of those. -/
theorem allocateFrameWith_of_allocateFrame
    (halloc : allocateFrame crc32 key fuel s = some (n, s')) :
  ∃ outcomes, s.allocateFrameWith crc32 key fuel outcomes = some (.success, some n, s')
  := by
  induction fuel generalizing s with
  | zero => contradiction
  | succ fuel ih =>
    rw [allocateFrame] at halloc
    split at halloc
    · rename_i n' s₁ hframe
      cases halloc
      refine ⟨fun _ => [], ?_⟩
      rw [allocateFrameWith, hframe]
    · rename_i s₁ hframe
      split at halloc
      · rename_i s₂ hpurge
        obtain ⟨outcomes, hrest⟩ := ih halloc
        refine ⟨fun i => if i = 0 then s₁.storage.outcomes else outcomes (i - 1), ?_⟩
        rw [allocateFrameWith, hframe]
        change (match s₁.purgeFrames crc32 key.bufferPoolId with
          | some s => allocateFrameWith crc32 key fuel (fun i => outcomes i) s
          | none => none) = _
        rw [hpurge]
        exact hrest
      · contradiction
    · contradiction

/-! ### Adding a page -/

theorem flushPage_pools {storage storage' : Storage}
    (hflush : storage.flushPage = some (rc, storage')) :
  storage'.pools = storage.pools
  := by
  rw [Storage.flushPage] at hflush
  split at hflush
  · contradiction
  · split at hflush
    · rename_i s hloop
      cases hflush
      exact (Storage.flushLoop_cases hloop).1.pools
    · exact (Storage.flushLoop_cases hflush).1.pools

theorem insertPage_pools {storage storage' : Storage}
    (hinsert : storage.insertPage key page = some (rc, storage')) :
  storage'.pools = storage.pools
  := by
  let new : DoubleWritePage := ⟨key, storage.dblwrPages.length, page⟩
  obtain ⟨hpools, -⟩ := Storage.writePageInternal_cases
    { storage with dblwrPages := storage.dblwrPages ++ [new] } new
  rw [Storage.insertPage] at hinsert
  revert hinsert hpools
  rcases Storage.writePageInternal
    { storage with dblwrPages := storage.dblwrPages ++ [new] } new with ⟨rc₁, s₁⟩
  intro hinsert hpools
  split at hinsert
  · rename_i s₁' hwrite
    cases hwrite
    obtain ⟨hgrow, -⟩ := Storage.growHeader_cases s₁ s₁.dblwrPages.length
    revert hinsert hgrow
    rcases s₁.growHeader s₁.dblwrPages.length with ⟨rc₂, s₂⟩
    intro hinsert hgrow
    split at hinsert
    · rename_i s₂' heq
      cases heq
      split at hinsert
      · exact (flushPage_pools hinsert).trans (hgrow.trans hpools)
      · cases hinsert
        exact hgrow.trans hpools
    · cases hinsert
      exact hgrow.trans hpools
  · cases hinsert
    exact hpools

theorem addPage_pools {storage storage' : Storage}
    (hadd : storage.addPage key page = some (rc, storage')) :
  storage'.pools = storage.pools
  := by
  rw [Storage.addPage] at hadd
  split at hadd
  · contradiction
  split at hadd
  · rename_i old hfind
    obtain ⟨hpools, -⟩ := Storage.writePageInternal_cases { storage with
      dblwrPages := (storage.replaced old page).dblwrPages } { old with page }
    rw [Option.some_inj] at hadd
    have hs' : (storage.replacePage old page).2 = storage' := congrArg Prod.snd hadd
    rw [← hs']
    exact hpools
  · exact insertPage_pools hadd

/-! ### One pass -/

/-- What the purger of `DiskBufferPool::allocate_frame` does with the storage for the page `x`. -/
def flushVictim (crc32 : List UInt8 → UInt32) (bufferPoolId : Int) (s : BPFrameManager)
    (x : FrameId × Nat) : Option (RC × Storage) :=
  if (s.memory x.2).dirty = false then some (.success, s.storage)
  else if x.1.bufferPoolId = bufferPoolId ∨ x.1.bufferPoolId ∈ s.storage.pools then
    s.storage.addPage x.1 ((s.memory x.2).stamped crc32)
  else some (.internal, s.storage)

theorem purger_eq (hframeId : (s.memory x.2).frameId = x.1) :
  s.purger crc32 bufferPoolId x.2 =
    if (s.memory x.2).dirty = false then some (.success, s)
    else if x.1.bufferPoolId = bufferPoolId ∨ x.1.bufferPoolId ∈ s.storage.pools then
      s.flushPageInternal crc32 x.1.bufferPoolId x.2
    else some (.internal, s)
  := by
  rw [BPFrameManager.purger, hframeId]
  by_cases heq : x.1.bufferPoolId = bufferPoolId
  · rw [if_pos heq, if_pos (Or.inl heq), heq]
  · rw [if_neg heq]
    simp only [heq, false_or]

theorem purger_cases (h : s.Framed) (hx : x ∈ s.frames) :
  (flushVictim crc32 bufferPoolId s x = none ∧ s.purger crc32 bufferPoolId x.2 = none)
    ∨ ∃ rc s', s.purger crc32 bufferPoolId x.2 = some (rc, s')
      ∧ flushVictim crc32 bufferPoolId s x = some (rc, s'.storage) ∧ KeepsFrame crc32 x rc s s'
  := by
  have hframeId := h.frameId x hx
  rw [purger_eq hframeId, flushVictim]
  split_ifs with hclean hpool
  · exact .inr ⟨.success, s, rfl, rfl, KeepsFrame.refl crc32 x _ s⟩
  · rcases flushPageInternal_cases hframeId with hnone | ⟨rc, s', hsome, hadds⟩
    · exact .inl hnone
    · exact .inr ⟨rc, s', hsome, hadds.added, hadds.toKeepsFrame⟩
  · exact .inr ⟨.internal, s, rfl, rfl, KeepsFrame.refl crc32 x _ s⟩

/-- A state in which the page `key` has no frame, and no frame is free. -/
structure Full (key : FrameId) (s : BPFrameManager) : Prop where
  framed : s.Framed
  missing : s.find key = none
  frees : s.frees = []

theorem Full.alloc (h : Full key s) : s.alloc key = some (none, s) := by
  rw [BPFrameManager.alloc, BPFrameManager.getInternal, h.missing]
  simp only [h.frees]

/-- What `flushVictim` looks at. -/
theorem flushVictim_pin (s : BPFrameManager) (n : Nat) (x : FrameId × Nat) :
  flushVictim crc32 bufferPoolId (s.pin n) x = flushVictim crc32 bufferPoolId s x
  := by
  have hsame : ((s.pin n).memory x.2).dirty = (s.memory x.2).dirty
      ∧ ((s.pin n).memory x.2).page = (s.memory x.2).page := by
    by_cases heq : x.2 = n
    · rw [heq, memory_pin_self]
      exact ⟨rfl, rfl⟩
    · rw [memory_pin_of_ne s heq]
      exact ⟨rfl, rfl⟩
  rw [flushVictim, flushVictim, Frame.stamped, Frame.stamped, hsame.1, hsame.2]
  rfl

/-- The frames after a pass that has not freed one. -/
structure Refused (crc32 : List UInt8 → UInt32) (x : FrameId × Nat) (s s' : BPFrameManager) :
    Prop where
  frames : s'.frames = s.frames
  frees : s'.frees = s.frees
  pinCount : ∀ m, (s'.memory m).pinCount = (s.memory m).pinCount
  frameId : ∀ m, (s'.memory m).frameId = (s.memory m).frameId
  dirty : (s'.memory x.2).dirty = (s.memory x.2).dirty
  stamped : (s'.memory x.2).stamped crc32 = (s.memory x.2).stamped crc32

theorem victim_spec (hvictim : s.victim = some x) :
  x ∈ s.frames ∧ (s.memory x.2).pinCount = 0
  := by
  refine ⟨List.mem_reverse.mp (List.mem_of_find?_eq_some hvictim), ?_⟩
  simpa using List.find?_some hvictim

/-- A frame whose page cannot be flushed is as it was, once the purger has unpinned it. -/
theorem KeepsFrame.refused (hkeeps : KeepsFrame crc32 x rc (s.pin x.2) s') (hrc : rc ≠ .success) :
  Refused crc32 x s (s'.unpin x.2)
  where
  frames := hkeeps.frames
  frees := hkeeps.frees
  pinCount := by
    intro m
    by_cases heq : m = x.2
    · rw [heq, memory_unpin_self, hkeeps.pinCount, memory_pin_self]
      exact Nat.add_sub_cancel _ 1
    · rw [memory_unpin_of_ne s' heq, hkeeps.memory m heq, memory_pin_of_ne s heq]
  frameId := by
    intro m
    by_cases heq : m = x.2
    · rw [heq, memory_unpin_self]
      change (s'.memory x.2).frameId = _
      rw [hkeeps.frameId, memory_pin_self]
    · rw [memory_unpin_of_ne s' heq, hkeeps.memory m heq, memory_pin_of_ne s heq]
  dirty := by
    rw [memory_unpin_self]
    change (s'.memory x.2).dirty = _
    rw [hkeeps.dirty hrc, memory_pin_self]
  stamped := by
    rw [memory_unpin_self]
    change (s'.memory x.2).stamped crc32 = _
    rw [hkeeps.stamped, memory_pin_self]
    rfl

/-- A frame whose page has been flushed is freed. -/
theorem KeepsFrame.freed (hkeeps : KeepsFrame crc32 x rc (s.pin x.2) s') (h : Full key s)
    (hframed : s'.Framed) (hx : x ∈ s.frames) (hpin : (s.memory x.2).pinCount = 0) :
  ∃ s'', s'.freeInternal (s'.memory x.2).frameId x.2 = some s'' ∧ s''.storage = s'.storage
    ∧ s''.frees = [x.2] ∧ (s''.memory x.2).pinCount = 0 ∧ s''.find key = none
  := by
  have hx' : x ∈ s'.frames := by rwa [hkeeps.frames]
  have hpinned : (s'.memory x.2).pinCount = 1 := by
    rw [hkeeps.pinCount, memory_pin_self, hpin]
  have hfree : s'.freeInternal (s'.memory x.2).frameId x.2 = some { s' with
      frames := s'.frames.filter (·.1 ≠ x.1)
      frees := s'.frees ++ [x.2]
      memory := Function.update s'.memory x.2 { s'.memory x.2 with
        frameId := { x.1 with pageNum := -1 }, pinCount := 0 } } := by
    rw [hframed.frameId x hx', BPFrameManager.freeInternal, hframed.find hx']
    simp only [hpinned, hframed.frameId x hx', and_self, if_true]
  refine ⟨_, hfree, rfl, ?_, ?_, ?_⟩
  · change s'.frees ++ [x.2] = [x.2]
    rw [hkeeps.frees]
    change s.frees ++ [x.2] = [x.2]
    rw [h.frees, List.nil_append]
  · change (Function.update s'.memory x.2 _ x.2).pinCount = 0
    rw [Function.update_self]
  · rw [frames_find_eq_none]
    intro y hy
    have hmem : y ∈ s.frames := by
      have hsub := List.mem_of_mem_filter hy
      rw [hkeeps.frames] at hsub
      exact hsub
    exact frames_find_eq_none.mp h.missing y hmem

theorem purgeFrames_of_victim (hvictim : s.victim = some x) :
  s.purgeFrames crc32 bufferPoolId =
    match (s.pin x.2).purger crc32 bufferPoolId x.2 with
    | some (.success, s) => s.freeInternal (s.memory x.2).frameId x.2
    | some (_, s) => some (s.unpin x.2)
    | none => none
  := by
  rw [victim] at hvictim
  rw [BPFrameManager.purgeFrames]
  rewrite [hvictim]
  rfl

/-- What `BPFrameManager::purge_frames` does with the page that it finds. -/
theorem purgeFrames_cases (h : Full key s) (hvictim : s.victim = some x) :
  (flushVictim crc32 bufferPoolId s x = none ∧ s.purgeFrames crc32 bufferPoolId = none)
    ∨ ∃ rc s', s.purgeFrames crc32 bufferPoolId = some s'
      ∧ flushVictim crc32 bufferPoolId s x = some (rc, s'.storage)
      ∧ (rc = .success → s'.frees = [x.2] ∧ (s'.memory x.2).pinCount = 0 ∧ s'.find key = none)
      ∧ (rc ≠ .success → Refused crc32 x s s')
  := by
  obtain ⟨hx, hpin⟩ := victim_spec hvictim
  have hpins : PinsAll [x] s (s.pin x.2) := h.framed.pinsAll (List.singleton_sublist.mpr hx)
    (List.Perm.refl _) rfl (memory_pins [x] s)
  rw [purgeFrames_of_victim hvictim, ← flushVictim_pin s x.2]
  rcases purger_cases hpins.framed ((hpins.mem x).mpr hx) with
    hnone | ⟨rc, s₁, hsome, hflush, hkeeps⟩
  · rw [hnone.1, hnone.2]
    exact .inl ⟨rfl, rfl⟩
  · rw [hsome, hflush]
    right
    by_cases hrc : rc = .success
    · subst hrc
      obtain ⟨s₂, hfree, hstorage, hfreed⟩ := hkeeps.freed h (hkeeps.framed hpins.framed) hx hpin
      refine ⟨.success, s₂, hfree, ?_, fun _ => hfreed, fun hne => absurd rfl hne⟩
      rw [hstorage]
    · refine ⟨rc, s₁.unpin x.2, ?_, rfl, fun heq => absurd heq hrc, hkeeps.refused⟩
      split
      · rename_i heq
        cases heq
        contradiction
      · rename_i heq
        cases heq
        rfl
      · contradiction

/-- A pass that finds no page to purge changes nothing. -/
theorem purgeFrames_none (hvictim : s.victim = none) :
  s.purgeFrames crc32 bufferPoolId = some s
  := by
  rw [BPFrameManager.purgeFrames]
  rw [victim] at hvictim
  rw [hvictim]

theorem Refused.victim (hrefused : Refused crc32 x s s') : s'.victim = s.victim := by
  rw [BPFrameManager.victim, BPFrameManager.victim, hrefused.frames]
  simp only [hrefused.pinCount]

theorem Refused.full (hrefused : Refused crc32 x s s') (h : Full key s) : Full key s' where
  framed := by
    apply h.framed.congr (by rw [hrefused.frames])
    intro x' _
    apply hrefused.frameId
  missing := by
    rw [frames_find_eq_none, hrefused.frames, ← frames_find_eq_none]
    exact h.missing
  frees := by rw [hrefused.frees, h.frees]

theorem Full.withOutcomes (h : Full key s) (outcomes : List Bool) : Full key (s.withOutcomes outcomes)
  := ⟨⟨h.framed.keys, h.framed.numbers, h.framed.frameId⟩, h.missing, h.frees⟩

/-! ### The loop -/

theorem flushVictim_dirty (hdirty : (s.memory x.2).dirty ≠ false)
    (hpool : x.1.bufferPoolId = bufferPoolId ∨ x.1.bufferPoolId ∈ s.storage.pools) :
  flushVictim crc32 bufferPoolId s x = s.storage.addPage x.1 ((s.memory x.2).stamped crc32)
  := by
  rw [flushVictim, if_neg hdirty, if_pos hpool]

/-- A pass that purges a page is followed by one that hands out its frame. -/
theorem allocateFrameWith_purged (h : Full key s) (hvictim : s.victim = some x)
    {storage : Storage} (hflush :
      flushVictim crc32 key.bufferPoolId (s.withOutcomes (outcomes 0)) x = some (.success, storage)) :
  ∃ fuel n s', s.allocateFrameWith crc32 key fuel outcomes = some (.success, some n, s')
  := by
  rcases purgeFrames_cases (h.withOutcomes (outcomes 0)) (by exact hvictim) with
    ⟨hnone, -⟩ | ⟨rc, s₁, hsome, hflush', hfreed, -⟩
  · rw [hflush] at hnone
    contradiction
  · rw [hflush] at hflush'
    cases hflush'
    obtain ⟨hfrees, hpin, hmissing⟩ := hfreed rfl
    obtain ⟨s', halloc⟩ : ∃ s', s₁.alloc key = some (some x.2, s') := by
      rw [BPFrameManager.alloc, BPFrameManager.getInternal, hmissing, hfrees]
      simp only [hpin, if_true]
      exact ⟨_, rfl⟩
    refine ⟨2, x.2, s', ?_⟩
    rw [allocateFrameWith, h.alloc]
    simp only [hsome]
    rw [allocateFrameWith, halloc]

/-- The page that is found is flushed by the last of finitely many passes. -/
theorem allocateFrameWith_retry (h : Full key s) (hvictim : s.victim = some x)
    (hdirty : (s.memory x.2).dirty ≠ false)
    (hpool : x.1.bufferPoolId = key.bufferPoolId ∨ x.1.bufferPoolId ∈ s.storage.pools)
    {storage : Storage} (hretry : Storage.retry x.1 ((s.memory x.2).stamped crc32) fuel outcomes
      s.storage = some storage) :
  ∃ fuel n s', s.allocateFrameWith crc32 key fuel outcomes = some (.success, some n, s')
  := by
  induction fuel generalizing s outcomes with
  | zero => contradiction
  | succ fuel ih =>
    have hflush : flushVictim crc32 key.bufferPoolId (s.withOutcomes (outcomes 0)) x =
        (s.storage.withOutcomes (outcomes 0)).addPage x.1 ((s.memory x.2).stamped crc32) :=
      flushVictim_dirty (by exact hdirty) (by exact hpool)
    rw [Storage.retry] at hretry
    split at hretry
    · rename_i storage' hadd
      exact allocateFrameWith_purged h hvictim (hflush.trans hadd)
    · rename_i rc storage' hrc hadd
      rcases purgeFrames_cases (h.withOutcomes (outcomes 0)) (by exact hvictim) with
        ⟨hnone, -⟩ | ⟨rc', s₁, hsome, hflush', -, hrefused⟩
      · rw [hflush.trans hadd] at hnone
        contradiction
      · rw [hflush.trans hadd] at hflush'
        cases hflush'
        have hrefused := hrefused hrc
        obtain ⟨fuel', n, s', hrest⟩ := ih (hrefused.full (h.withOutcomes _))
          (hrefused.victim.trans hvictim) (by rw [hrefused.dirty]; exact hdirty)
          (by rw [addPage_pools hadd]; exact hpool) (by rw [hrefused.stamped]; exact hretry)
        refine ⟨fuel' + 1, n, s', ?_⟩
        rw [allocateFrameWith, h.alloc]
        simp only [hsome]
        exact hrest
    · contradiction

/-- The page that is found can be purged after finitely many passes. -/
theorem allocateFrameWith_success (h : Full key s) (hvictim : s.victim = some x)
    (hpurge : CanPurge crc32 key.bufferPoolId outcomes s x) :
  ∃ fuel n s', s.allocateFrameWith crc32 key fuel outcomes = some (.success, some n, s')
  := by
  obtain ⟨-, hclean | ⟨hpool, fuel, storage, hretry⟩⟩ := hpurge
  · apply allocateFrameWith_purged h hvictim
    rw [flushVictim]
    exact if_pos hclean
  · by_cases hdirty : (s.memory x.2).dirty = false
    · apply allocateFrameWith_purged h hvictim
      rw [flushVictim]
      exact if_pos hdirty
    · exact allocateFrameWith_retry h hvictim hdirty hpool hretry

theorem retry_failed {storage storage' : Storage}
    (hadd : (storage.withOutcomes (outcomes 0)).addPage key page = some (rc, storage'))
    (hrc : rc ≠ .success) (fuel : Nat) :
  Storage.retry key page (fuel + 1) outcomes storage =
    Storage.retry key page fuel (fun i => outcomes (i + 1)) storage'
  := by
  rw [Storage.retry, hadd]
  cases rc <;> first | contradiction | rfl

/-- What a pass purges can be purged. -/
theorem CanPurge.of_purged (hpin : (s.memory x.2).pinCount = 0) {storage : Storage} (hflush :
      flushVictim crc32 bufferPoolId (s.withOutcomes (outcomes 0)) x = some (.success, storage)) :
  CanPurge crc32 bufferPoolId outcomes s x
  := by
  refine ⟨hpin, ?_⟩
  rw [flushVictim] at hflush
  split_ifs at hflush with hclean hpool
  · exact .inl hclean
  · have hadd : (s.storage.withOutcomes (outcomes 0)).addPage x.1
        ((s.memory x.2).stamped crc32) = some (.success, storage) := hflush
    refine .inr ⟨hpool, 1, storage, ?_⟩
    rw [Storage.retry, hadd]
  · obtain ⟨hrc, -⟩ := Prod.mk.inj (Option.some.inj hflush)
    contradiction

/-- What can be purged after a pass that has failed can be purged before it. -/
theorem CanPurge.of_refused {s₁ : BPFrameManager}
    (hrefused : Refused crc32 x (s.withOutcomes (outcomes 0)) s₁) (hrc : rc ≠ .success)
    (hflush : flushVictim crc32 bufferPoolId (s.withOutcomes (outcomes 0)) x =
      some (rc, s₁.storage))
    (hpurge : CanPurge crc32 bufferPoolId (fun i => outcomes (i + 1)) s₁ x) :
  CanPurge crc32 bufferPoolId outcomes s x
  := by
  obtain ⟨hpin, hclean⟩ := hpurge
  rw [hrefused.pinCount] at hpin
  rw [hrefused.dirty, hrefused.stamped] at hclean
  refine ⟨hpin, hclean.imp_right ?_⟩
  rintro ⟨hpool, fuel, storage, hretry⟩
  rw [flushVictim] at hflush
  split_ifs at hflush with hdirty hopen
  · exact absurd (Prod.mk.inj (Option.some.inj hflush)).1.symm hrc
  · refine ⟨hopen, fuel + 1, storage, ?_⟩
    rw [retry_failed (by exact hflush) hrc]
    exact hretry
  · rw [← (Prod.mk.inj (Option.some.inj hflush)).2] at hpool
    exact absurd hpool hopen

/-- The loop does not end as long as the page that is found cannot be purged. -/
theorem allocateFrameWith_none (h : Full key s)
    (hstuck : ∀ x, s.victim = some x → ¬ CanPurge crc32 key.bufferPoolId outcomes s x) :
  s.allocateFrameWith crc32 key fuel outcomes = none
  := by
  induction fuel generalizing s outcomes with
  | zero => rfl
  | succ fuel ih =>
    rw [allocateFrameWith, h.alloc]
    simp only
    have hfull := h.withOutcomes (outcomes 0)
    cases hvictim : s.victim with
    | none =>
      rw [purgeFrames_none (by exact hvictim)]
      apply ih hfull
      intro x hx
      change s.victim = some x at hx
      rw [hvictim] at hx
      contradiction
    | some x =>
      rcases purgeFrames_cases hfull (by exact hvictim) with
        ⟨-, hnone⟩ | ⟨rc, s₁, hsome, hflush, -, hrefused⟩
      · rw [hnone]
      · rw [hsome]
        have hrc : rc ≠ .success := by
          rintro rfl
          exact hstuck x hvictim (CanPurge.of_purged (victim_spec hvictim).2 hflush)
        have hrefused := hrefused hrc
        apply ih (hrefused.full hfull)
        intro x' hx'
        rw [hrefused.victim] at hx'
        obtain rfl : x = x' := Option.some.inj (hvictim.symm.trans hx')
        intro hpurge
        exact hstuck x hvictim (CanPurge.of_refused hrefused hrc hflush hpurge)

/-! ### The result -/

end MiniOB.Buffer
