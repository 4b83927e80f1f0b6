import MiniOB.Buffer.Fetching

/-!
# Clients of the buffer pools

Clients fetch pages of the open pools, modify those they have pinned and mark them dirty, and
give them back, in any order, while pages are flushed, purged and moved to the data files. A
page that is fetched has the content it was given last.
-/

namespace MiniOB.Buffer

open Transition

/-- The frames with the pages that the clients have fetched and not given back. -/
structure Client where
  manager : BPFrameManager
  held : List (FrameId × Nat) := []

namespace Client

/-- What happens in a step. -/
inductive Event where
  | fetch (key : FrameId)
  | modify (key : FrameId) (content : Int × List UInt8)
  | unpin (key : FrameId)
  | flushFrame (key : FrameId)
  | flushAllPages (bufferPoolId : Int)
  | purgeFrames (bufferPoolId : Int)
  | purgeAllPages (bufferPoolId : Int)
  | flushBuffer

variable (crc32 : List UInt8 → UInt32)

/-- One step of a client, or of the pools. -/
inductive Step : Client → Event → Client → Prop where
  | fetch {s : Client} {key rc n manager} (fuel : Nat)
      (hopen : key.bufferPoolId ∈ s.manager.storage.pools)
      (h : s.manager.getThisPage crc32 fuel key = some (rc, some n, manager)) :
      Step s (.fetch key) ⟨manager, (key, n) :: s.held⟩
  | fetchFailed {s : Client} {key rc manager} (fuel : Nat)
      (hopen : key.bufferPoolId ∈ s.manager.storage.pools)
      (h : s.manager.getThisPage crc32 fuel key = some (rc, none, manager)) :
      Step s (.fetch key) ⟨manager, s.held⟩
  | modify {s : Client} {x content} (hheld : x ∈ s.held) :
      Step s (.modify x.1 content) ⟨s.manager.modify x.2 content, s.held⟩
  | unpin {s : Client} {x} (hheld : x ∈ s.held) :
      Step s (.unpin x.1) ⟨s.manager.unpin x.2, s.held.erase x⟩
  | flushFrame {s : Client} {x rc manager} (hheld : x ∈ s.held)
      (hopen : x.1.bufferPoolId ∈ s.manager.storage.pools)
      (h : s.manager.flushPageInternal crc32 x.1.bufferPoolId x.2 = some (rc, manager)) :
      Step s (.flushFrame x.1) ⟨manager, s.held⟩
  | flushAllPages {s : Client} {bufferPoolId rc manager}
      (hopen : bufferPoolId ∈ s.manager.storage.pools)
      (h : s.manager.flushAllPages crc32 bufferPoolId = some (rc, manager)) :
      Step s (.flushAllPages bufferPoolId) ⟨manager, s.held⟩
  | purgeFrames {s : Client} {bufferPoolId manager}
      (hopen : bufferPoolId ∈ s.manager.storage.pools)
      (h : s.manager.purgeFrames crc32 bufferPoolId = some manager) :
      Step s (.purgeFrames bufferPoolId) ⟨manager, s.held⟩
  | purgeAllPages {s : Client} {bufferPoolId manager}
      (hopen : bufferPoolId ∈ s.manager.storage.pools)
      (h : s.manager.purgeAllPages crc32 bufferPoolId = some manager) :
      Step s (.purgeAllPages bufferPoolId) ⟨manager, s.held⟩
  | flushBuffer {s : Client} {rc storage} (h : s.manager.storage.flushPage = some (rc, storage)) :
      Step s .flushBuffer ⟨{ s.manager with storage }, s.held⟩

/-- The pools `pools` are open, and all frames are free. -/
def start (pools : List Int) (maxPages : Nat) (disk : FrameId → Option Page) (size : Nat) :
    Client where
  manager := .start { pools, maxPages, disk } size

/-- The content a page was given last, or that of its file. -/
def newest (disk : FrameId → Option Page) : List (Client × Event) → Contents
  | [] => fun key => (disk key).map Page.content
  | (_, .modify key content) :: h => Function.update (newest disk h) key (some content)
  | _ :: h => newest disk h

variable {crc32} {pools : List Int} {maxPages size fuel : Nat} {disk : FrameId → Option Page}
  {h : List (Client × Event)} {s s' : Client} {e : Event} {key : FrameId}

theorem serves_start :
  Serves Storage.Sound pools (newest disk []) (start pools maxPages disk size).held
    (start pools maxPages disk size).manager
  := by
  refine ⟨?_, ⟨?_, ?_⟩, rfl⟩
  · refine ⟨⟨⟨List.nodup_nil, ?_⟩, rfl, rfl⟩, List.nodup_nil, ?_, ?_, ?_, ?_, ?_, ?_, ?_⟩
    · intro page hpage
      contradiction
    · apply List.nodup_range
    · intro x hx
      contradiction
    · intro x hx
      contradiction
    · intro x hx
      contradiction
    · intro x hx
      contradiction
    · intro key _
      rfl
    · intro n _
      exact ⟨rfl, rfl⟩
  · intro x hx
    contradiction
  · intro n
    apply Nat.zero_le

theorem serves_modify {P : Storage → Prop} {newest : Contents} {manager : BPFrameManager}
    {held : List (FrameId × Nat)} (h : Serves P pools newest held manager) {x : FrameId × Nat}
    (hheld : x ∈ held) (content : Int × List UInt8) :
  Serves P pools (Function.update newest x.1 (some content)) held (manager.modify x.2 content)
  := ⟨h.coherent.modify (h.holds.mem x hheld) content, h.holds.setFrame rfl, h.pools⟩

theorem serves_flushBuffer {P : Storage → Prop} (hP : Kept P) {newest : Contents}
    {manager : BPFrameManager} {held : List (FrameId × Nat)}
    (h : Serves P pools newest held manager) {rc : RC} {storage : Storage}
    (hflush : manager.storage.flushPage = some (rc, storage)) :
  Serves P pools newest held { manager with storage }
  := by
  obtain ⟨-, himage, hpools⟩ := (hP.tidy h.coherent.storage).flushPage_cases hflush
  have hcontents : storage.contents = manager.storage.contents := by
    funext key
    rw [Storage.contents, himage]
    rfl
  refine ⟨?_, ⟨h.holds.mem, h.holds.pins⟩, hpools.trans h.pools⟩
  constructor
  · apply hP.flushPage h.coherent.storage hflush
  · apply h.coherent.keys
  · apply h.coherent.numbers
  · apply h.coherent.frameId
  · intro x hx
    change _ ∈ storage.pools
    rw [hpools]
    apply h.coherent.opened x hx
  · apply h.coherent.content
  · intro x hx
    change _ → storage.contents x.1 = _
    rw [hcontents]
    apply h.coherent.clean x hx
  · intro key hkey
    change storage.contents key = _
    rw [hcontents]
    apply h.coherent.below key hkey
  · apply h.coherent.free

theorem serves_step
    (h' : Serves Storage.Sound pools (newest disk h) s.held s.manager)
    (hstep : Step crc32 s e s') :
  Serves Storage.Sound pools (newest disk ((s, e) :: h)) s'.held s'.manager
  := by
  cases hstep with
  | fetch fuel hopen hget =>
    rw [h'.pools] at hopen
    obtain ⟨-, ⟨n, -, heq, hserves⟩ | ⟨-, heq, -⟩⟩ := h'.getThisPage kept_sound hopen hget
    · cases heq
      apply hserves
    · contradiction
  | fetchFailed fuel hopen hget =>
    rw [h'.pools] at hopen
    obtain ⟨-, ⟨n, -, heq, -⟩ | ⟨-, -, -, hserves⟩⟩ := h'.getThisPage kept_sound hopen hget
    · contradiction
    · apply hserves
  | modify hheld => apply serves_modify h' hheld
  | unpin hheld =>
    have hperm := List.perm_cons_erase hheld
    have hserves := Serves.mk h'.coherent (h'.holds.perm hperm.symm) h'.pools
    apply hserves.unpin
  | flushFrame hheld hopen hflush => apply (h'.flush kept_sound (h'.holds.mem _ hheld) hflush).1
  | flushAllPages hopen hflush => apply (h'.flushAllPages kept_sound hflush).1
  | purgeFrames hopen hpurge => apply (h'.purgeFrames kept_sound hpurge).1
  | purgeAllPages hopen hpurge => apply h'.purgeAllPages kept_sound hpurge
  | flushBuffer hflush => apply serves_flushBuffer kept_sound h' hflush

theorem serves_run (hrun : Run (Step crc32) (start pools maxPages disk size) h s) :
  Serves Storage.Sound pools (newest disk h) s.held s.manager
  := by
  induction hrun with
  | refl => apply serves_start
  | tail _ hlast ih => apply serves_step ih hlast

/-- A page that exists in its file keeps existing. -/
theorem newest_ne_none (hpage : disk key ≠ none) (h : List (Client × Event)) :
  newest disk h key ≠ none
  := by
  induction h with
  | nil => simpa [newest] using hpage
  | cons x h ih =>
    obtain ⟨s, e⟩ := x
    cases e with
    | modify key' content =>
      rw [newest]
      by_cases heq : key = key'
      · rw [heq, Function.update_self]
        simp
      · rw [Function.update_of_ne heq]
        apply ih
    | _ => apply ih

end Client

end MiniOB.Buffer
