import MiniOB.Index.Redo

/-!
# Recovery of a tree

The pages of a tree after a crash in the middle of writing them back, and what the redo of the
log entry of a mini-transaction makes of them.
-/

namespace MiniOB.BplusTree

open Stateful

variable {K V : Type} {c : Format K V} {lsn : Int} {entry : LogEntryHandler}
  {entries : List LogEntryHandler} {operation : LogOperation} {operations : List LogOperation}
  {page : Int} {frame : Frame K V} {image : Image K V}

/-- A page as a crash leaves it: as it was before an operation, with a number below that of the
log entry, or as it is behind the operation, with that number or a larger one. -/
def Frame.CrashImage (lsn : Int) (before after : Image K V) (frame : Frame K V) : Prop :=
  frame.lsn < lsn ∧ AsBefore before frame.image ∨ lsn ≤ frame.lsn ∧ frame.image = after

/-! ### One page -/

/-- The operations can be applied to the page, unless they have been applied to it. -/
def Frame.Redoes (c : Format K V) (lsn : Int) (operations : List LogOperation)
    (frame : Frame K V) : Prop :=
  frame.lsn < lsn → ∃ image, redoAll c operations frame.image = .ok image

/-- The page behind the operations that are applied to it. -/
def Frame.redone (c : Format K V) (lsn : Int) (operations : List LogOperation)
    (frame : Frame K V) : Frame K V :=
  if frame.lsn < lsn then
    match redoAll c operations frame.image with
    | .ok image => { frame with image }
    | .error _ => frame
  else frame

/-- The page with the number of the log entry that has been applied to it. -/
def Frame.recovered (c : Format K V) (lsn : Int) (operations : List LogOperation)
    (frame : Frame K V) : Frame K V :=
  if frame.lsn < lsn then { frame.redone c lsn operations with lsn } else frame

theorem Frame.redone_nil (frame : Frame K V) : frame.redone c lsn [] = frame := by
  rw [redone]
  split_ifs <;> rfl

theorem Frame.redone_of_le (h : lsn ≤ frame.lsn) : frame.redone c lsn operations = frame :=
  if_neg (by omega)

theorem Frame.recovered_of_le (h : lsn ≤ frame.lsn) :
  frame.recovered c lsn operations = frame
  := if_neg (by omega)

theorem Frame.redone_cons {after : Image K V} (hlt : frame.lsn < lsn)
    (hredo : operation.redo c frame.image = .ok image)
    (hafter : redoAll c operations image = .ok after) :
  frame.redone c lsn (operation :: operations)
    = ({ frame with image } : Frame K V).redone c lsn operations
  := by
  have hlt' : ({ frame with image } : Frame K V).lsn < lsn := hlt
  rw [redone, redone, if_pos hlt, if_pos hlt', redoAll, hredo]
  dsimp only
  rw [hafter]

/-- Whatever has been written back of a page, the redo leaves it as it was behind the
operation. -/
theorem Frame.CrashImage.recovered {before after : Image K V}
    (h : frame.CrashImage lsn before after)
    (hredo : ∀ image, AsBefore before image → redoAll c operations image = .ok after) :
  (frame.recovered c lsn operations).image = after
    ∧ lsn ≤ (frame.recovered c lsn operations).lsn
  := by
  obtain ⟨hlt, hbefore⟩ | ⟨hle, hafter⟩ := h
  · rw [Frame.recovered, if_pos hlt, Frame.redone, if_pos hlt, hredo frame.image hbefore]
    exact ⟨rfl, le_refl lsn⟩
  · rw [Frame.recovered_of_le hle]
    exact ⟨hafter, hle⟩

theorem Frame.CrashImage.redoes {before after : Image K V}
    (h : frame.CrashImage lsn before after)
    (hredo : ∀ image, AsBefore before image → redoAll c operations image = .ok after) :
  frame.Redoes c lsn operations
  := by
  intro hlt
  obtain ⟨-, hbefore⟩ | ⟨hle, -⟩ := h
  · exact ⟨after, hredo frame.image hbefore⟩
  · omega

/-! ### The pages of a file -/

/-- The pages behind the operations that are applied to them. -/
def Pool.redone (c : Format K V) (lsn : Int) (entries : List LogEntryHandler)
    (pool : Pool K V) : Pool K V := fun page =>
  (pool page).map (Frame.redone c lsn (operationsOf page entries))

/-- The entries can be redone on the pages. -/
def Pool.Redoes (c : Format K V) (lsn : Int) (entries : List LogEntryHandler)
    (pool : Pool K V) : Prop :=
  ∀ page ∈ entries.map LogEntryHandler.pageNum, ∃ frame, pool page = some frame
    ∧ frame.Redoes c lsn (operationsOf page entries)

/-- The page has a smaller number than the log entry. -/
def Pool.Older (lsn : Int) (pool : Pool K V) (page : Int) : Prop :=
  ∃ frame, pool page = some frame ∧ frame.lsn < lsn

variable {pool : Pool K V} {s : Redoing K V} {fuel : Nat} {frames : List Int}

theorem Pool.older_iff (hframe : pool page = some frame) :
  pool.Older lsn page ↔ frame.lsn < lsn
  := by
  constructor
  · rintro ⟨frame', hframe', hlt⟩
    rw [hframe] at hframe'
    cases hframe'
    exact hlt
  · intro hlt
    exact ⟨frame, hframe, hlt⟩

theorem operationsOf_cons_self :
  operationsOf entry.pageNum (entry :: entries)
    = entry.operation :: operationsOf entry.pageNum entries
  := by
  rw [operationsOf, List.filterMap_cons, if_pos rfl]
  rfl

theorem operationsOf_cons_of_ne (h : page ≠ entry.pageNum) :
  operationsOf page (entry :: entries) = operationsOf page entries
  := by
  rw [operationsOf, List.filterMap_cons, if_neg h.symm]
  rfl

theorem Pool.redone_nil (pool : Pool K V) : pool.redone c lsn [] = pool := by
  funext page
  change (pool page).map (Frame.redone c lsn []) = pool page
  cases pool page with
  | none => rfl
  | some frame => exact congrArg some frame.redone_nil

/-- An entry that is skipped. -/
theorem Pool.redone_cons_of_le (hframe : pool entry.pageNum = some frame) (hle : lsn ≤ frame.lsn) :
  pool.redone c lsn (entry :: entries) = pool.redone c lsn entries
  := by
  funext page
  rw [redone, redone]
  by_cases hpage : page = entry.pageNum
  · rw [hpage, hframe, Option.map_some, Option.map_some, Frame.redone_of_le hle,
      Frame.redone_of_le hle]
  · rw [operationsOf_cons_of_ne hpage]

/-- An entry that is applied. -/
theorem Pool.redone_cons_of_lt {after : Image K V} (hframe : pool entry.pageNum = some frame)
    (hlt : frame.lsn < lsn) (hredo : entry.operation.redo c frame.image = .ok image)
    (hafter : redoAll c (operationsOf entry.pageNum entries) image = .ok after) :
  pool.redone c lsn (entry :: entries)
    = Pool.redone c lsn entries
        (Function.update pool entry.pageNum (some { frame with image }))
  := by
  funext page
  rw [redone, redone]
  by_cases hpage : page = entry.pageNum
  · rw [hpage, hframe, Function.update_self, operationsOf_cons_self, Option.map_some,
      Option.map_some, Frame.redone_cons hlt hredo hafter]
  · rw [operationsOf_cons_of_ne hpage, Function.update_of_ne hpage]

theorem Pool.Redoes.tail_of_le (h : pool.Redoes c lsn (entry :: entries))
    (hframe : pool entry.pageNum = some frame) (hle : lsn ≤ frame.lsn) :
  pool.Redoes c lsn entries
  := by
  intro page hmem
  obtain ⟨frame', hframe', hredoes⟩ := h page (List.mem_cons_of_mem _ hmem)
  refine ⟨frame', hframe', ?_⟩
  intro hlt
  by_cases hpage : page = entry.pageNum
  · rw [hpage, hframe] at hframe'
    cases hframe'
    omega
  · rw [← operationsOf_cons_of_ne hpage]
    exact hredoes hlt

theorem Pool.Redoes.head (h : pool.Redoes c lsn (entry :: entries))
    (hframe : pool entry.pageNum = some frame) (hlt : frame.lsn < lsn) :
  ∃ image after, entry.operation.redo c frame.image = .ok image
    ∧ redoAll c (operationsOf entry.pageNum entries) image = .ok after
    ∧ Pool.Redoes c lsn entries (Function.update pool entry.pageNum (some { frame with image }))
  := by
  obtain ⟨frame', hframe', hredoes⟩ := h entry.pageNum List.mem_cons_self
  rw [hframe] at hframe'
  cases hframe'
  obtain ⟨after, hafter⟩ := hredoes hlt
  rw [operationsOf_cons_self, redoAll] at hafter
  cases hredo : entry.operation.redo c frame.image with
  | error stop =>
    rw [hredo] at hafter
    cases hafter
  | ok image =>
    rw [hredo] at hafter
    refine ⟨image, after, rfl, hafter, ?_⟩
    intro page hmem
    by_cases hpage : page = entry.pageNum
    · rw [hpage, Function.update_self]
      exact ⟨_, rfl, fun _ => ⟨after, hafter⟩⟩
    · rw [Function.update_of_ne hpage, ← operationsOf_cons_of_ne hpage]
      exact h page (List.mem_cons_of_mem _ hmem)

/-! ### The loop -/

/-- What an entry holds for a rollback does not matter. -/
theorem LogEntryHandler.redo_forget (entry : LogEntryHandler) (s : Redoing K V) :
  (⟨entry.pageNum, entry.operation.forget⟩ : LogEntryHandler).redo c s = entry.redo c s
  := by
  have hoperation := @BplusTree.redo_forget K V c entry.operation
  obtain ⟨pageNum, operation⟩ := entry
  rw [redo, redo]
  have htarget : (⟨pageNum, operation.forget⟩ : LogEntryHandler).target
      = (⟨pageNum, operation⟩ : LogEntryHandler).target := by
    cases operation <;> rfl
  have hroot : operation.forget.headerRoot = operation.headerRoot := by
    cases operation <;> rfl
  simp only [htarget, hroot, hoperation]

theorem LogEntryHandler.redo_eq (hframe : s.pool entry.pageNum = some frame)
    (htarget : entry.target = entry.pageNum)
    (hredo : entry.operation.redo c frame.image = .ok image) :
  ∃ s', entry.redo c s = .ok s'
    ∧ s'.pool = Function.update s.pool entry.pageNum (some { frame with image })
  := by
  rw [LogEntryHandler.redo, htarget, hframe]
  dsimp only
  rw [hredo]
  exact ⟨_, rfl, rfl⟩

/-- The loop of `BplusTreeLogger::__redo` applies the entries to the pages with smaller numbers,
and collects these. -/
theorem redoLoop_serialize (hentries : ∀ entry ∈ entries, entry.Fits ∧ entry.target = entry.pageNum)
    (hfuel : entries.length < fuel) (hpool : s.pool.Redoes c lsn entries) :
  ∃ s' frames', redoLoop c lsn fuel (entries.flatMap LogEntryHandler.serialize) s frames
      = .ok (.success, s', frames')
    ∧ s'.pool = s.pool.redone c lsn entries
    ∧ ∀ page, page ∈ frames' ↔ page ∈ frames
      ∨ page ∈ entries.map LogEntryHandler.pageNum ∧ s.pool.Older lsn page
  := by
  induction entries generalizing fuel s frames with
  | nil =>
    obtain ⟨fuel, rfl⟩ : ∃ n, fuel = n + 1 := ⟨fuel - 1, by simp at hfuel; omega⟩
    rw [List.flatMap_nil, redoLoop, if_pos rfl]
    refine ⟨s, frames, rfl, (Pool.redone_nil s.pool).symm, ?_⟩
    simp
  | cons entry entries ih =>
    obtain ⟨fuel, rfl⟩ : ∃ n, fuel = n + 1 := ⟨fuel - 1, by omega⟩
    obtain ⟨⟨hfits, htarget⟩, hentries⟩ := List.forall_mem_cons.mp hentries
    have hfuel' : entries.length < fuel := by
      rw [List.length_cons] at hfuel
      omega
    obtain ⟨frame, hframe, -⟩ := hpool entry.pageNum List.mem_cons_self
    have hread : s.pool.getThisPage entry.pageNum = .success := by
      rw [Pool.getThisPage, hframe]
      rfl
    rw [List.flatMap_cons, redoLoop,
      if_neg (List.append_ne_nil_of_left_ne_nil entry.serialize_ne_nil _),
      LogEntryHandler.fromBuffer_serialize hfits hread]
    dsimp only
    rw [hframe]
    dsimp only
    by_cases hle : lsn ≤ frame.lsn
    · -- the page is as the entry leaves it, or newer
      rw [if_pos hle]
      obtain ⟨s', frames', hloop, hpool', hframes⟩ :=
        ih hentries hfuel' (hpool.tail_of_le hframe hle)
      refine ⟨s', frames', hloop, ?_, ?_⟩
      · rw [hpool', Pool.redone_cons_of_le hframe hle]
      · intro page
        rw [hframes page, List.map_cons, List.mem_cons]
        by_cases hpage : page = entry.pageNum
        · have hnewer : ¬ s.pool.Older lsn page := by
            rw [hpage, Pool.older_iff hframe]
            omega
          simp only [hnewer, and_false]
        · simp only [hpage, false_or]
    · have hlt : frame.lsn < lsn := by omega
      obtain ⟨image, after, hredo, hafter, hrest⟩ := hpool.head hframe hlt
      obtain ⟨s₁, happly, hpool₁⟩ := LogEntryHandler.redo_eq hframe htarget hredo
      rw [if_neg hle, LogEntryHandler.redo_forget, happly]
      dsimp only
      rw [← hpool₁] at hrest
      obtain ⟨s', frames', hloop, hpool', hframes⟩ := @ih s₁ fuel _ hentries hfuel' hrest
      refine ⟨s', frames', hloop, ?_, ?_⟩
      · rw [hpool', hpool₁, Pool.redone_cons_of_lt hframe hlt hredo hafter]
      · intro page
        rw [hframes page, List.mem_append, List.mem_singleton, List.map_cons, List.mem_cons]
        by_cases hpage : page = entry.pageNum
        · have holder : s.pool.Older lsn page := by
            rw [hpage, Pool.older_iff hframe]
            exact hlt
          simp only [hpage, or_true, true_or, true_and, hpage ▸ holder]
        · have holder : s₁.pool.Older lsn page ↔ s.pool.Older lsn page := by
            rw [Pool.Older, hpool₁, Function.update_of_ne hpage, Pool.Older]
          simp only [hpage, or_false, false_or, holder]

theorem length_le_flatMap_serialize (entries : List LogEntryHandler) :
  entries.length ≤ (entries.flatMap LogEntryHandler.serialize).length
  := by
  induction entries with
  | nil => exact Nat.zero_le _
  | cons entry entries ih =>
    have hpos := List.length_pos_of_ne_nil entry.serialize_ne_nil
    rw [List.flatMap_cons, List.length_append, List.length_cons]
    omega

/-- The pages behind the redo, with their numbers. -/
def Pool.recovered (c : Format K V) (lsn : Int) (entries : List LogEntryHandler)
    (pool : Pool K V) : Pool K V := fun page =>
  if page ∈ entries.map LogEntryHandler.pageNum then
    (pool page).map (Frame.recovered c lsn (operationsOf page entries))
  else pool page

theorem Pool.recovered_of_mem (hmem : page ∈ entries.map LogEntryHandler.pageNum)
    (hframe : pool page = some frame) :
  pool.recovered c lsn entries page
    = some (frame.recovered c lsn (operationsOf page entries))
  := by
  rw [Pool.recovered, if_pos hmem, hframe]
  rfl

/-- Pages that are not older stay as they are. -/
theorem Pool.recovered_of_newer
    (h : ∀ page ∈ entries.map LogEntryHandler.pageNum, ∃ frame, pool page = some frame
      ∧ lsn ≤ frame.lsn) :
  pool.recovered c lsn entries = pool
  := by
  funext page
  by_cases hmem : page ∈ entries.map LogEntryHandler.pageNum
  · obtain ⟨frame, hframe, hle⟩ := h page hmem
    rw [Pool.recovered_of_mem hmem hframe, Frame.recovered_of_le hle, hframe]
  · rw [Pool.recovered, if_neg hmem]

/-- `BplusTreeLogger::__redo`, on entries that can be redone. -/
theorem redoEntries_serialize
    (hentries : ∀ entry ∈ entries, entry.Fits ∧ entry.target = entry.pageNum)
    (hpool : s.pool.Redoes c lsn entries) :
  ∃ s', redoEntries c lsn (entries.flatMap LogEntryHandler.serialize) s = .ok s'
    ∧ s'.pool = s.pool.recovered c lsn entries
  := by
  obtain ⟨s', frames', hloop, hpool', hframes⟩ := @redoLoop_serialize K V c lsn entries s _ []
    hentries (Nat.lt_succ_of_le (length_le_flatMap_serialize entries)) hpool
  rw [redoEntries, hloop]
  refine ⟨_, rfl, ?_⟩
  funext page
  change Pool.setLsn s'.pool frames' lsn page = _
  rw [Pool.setLsn, hpool', Pool.recovered, Pool.redone]
  have hmem := hframes page
  rw [or_iff_right List.not_mem_nil] at hmem
  by_cases htouched : page ∈ entries.map LogEntryHandler.pageNum
  · obtain ⟨frame, hframe, -⟩ := hpool page htouched
    rw [if_pos htouched, hframe, Option.map_some, Option.map_some]
    rw [Pool.older_iff hframe] at hmem
    by_cases hlt : frame.lsn < lsn
    · rw [if_pos (hmem.mpr ⟨htouched, hlt⟩), Option.map_some, Frame.recovered, if_pos hlt]
    · rw [if_neg fun hin => hlt (hmem.mp hin).2, Option.map_some,
        Frame.redone_of_le (not_lt.mp hlt), Frame.recovered_of_le (not_lt.mp hlt)]
  · rw [if_neg htouched, if_neg fun hin => htouched (hmem.mp hin).1,
      operationsOf_of_notMem htouched]
    cases s.pool page with
    | none => rfl
    | some frame => exact congrArg some frame.redone_nil

/-! ### A log entry -/

/-- `BplusTreeLogger::redo`, on entries that can be redone. -/
theorem redo_payload {bufferPoolId rootPage : Int} {pools : Int → Option (Pool K V)}
    (hid : IsInt32 bufferPoolId) (hpools : pools bufferPoolId = some pool)
    (hopen : pool.openTree = .ok rootPage)
    (hentries : ∀ entry ∈ entries, entry.Fits ∧ entry.target = entry.pageNum)
    (hpool : pool.Redoes c lsn entries) :
  redo c lsn (payload bufferPoolId entries) pools
    = .ok (.success, Function.update pools bufferPoolId (some (pool.recovered c lsn entries)))
  := by
  obtain ⟨s', hredo, hpool'⟩ := @redoEntries_serialize K V c lsn entries
    { pool, rootPage, dirty := [] } hentries hpool
  rw [redo, payload, readInt32_writeInt32 hid]
  dsimp only
  rw [hpools]
  dsimp only
  rw [hopen]
  dsimp only
  rw [hredo]
  dsimp only
  rw [hpool']

/-- Where no page is older, nothing is done. -/
theorem redo_payload_of_newer {bufferPoolId rootPage : Int} {pools : Int → Option (Pool K V)}
    (hid : IsInt32 bufferPoolId) (hpools : pools bufferPoolId = some pool)
    (hopen : pool.openTree = .ok rootPage)
    (hentries : ∀ entry ∈ entries, entry.Fits ∧ entry.target = entry.pageNum)
    (hnewer : ∀ page ∈ entries.map LogEntryHandler.pageNum, ∃ frame, pool page = some frame
      ∧ lsn ≤ frame.lsn) :
  redo c lsn (payload bufferPoolId entries) pools = .ok (.success, pools)
  := by
  have hredoes : pool.Redoes c lsn entries := by
    intro page hmem
    obtain ⟨frame, hframe, hle⟩ := hnewer page hmem
    exact ⟨frame, hframe, fun hlt => absurd hlt (not_lt.mpr hle)⟩
  rw [redo_payload hid hpools hopen hentries hredoes, Pool.recovered_of_newer hnewer, ← hpools,
    Function.update_eq_self]

theorem Pool.openTree_eq {rootPage : Int} (hframe : pool firstIndexPage = some frame)
    (himage : frame.image = some (.indexHeader rootPage)) :
  pool.openTree = .ok rootPage
  := by
  rw [Pool.openTree, hframe]
  dsimp only
  rw [himage]

variable [LinearOrder K] {tree : Tree K V} {t : MiniTransaction K V}

/-- The pages of a tree after a crash, as far as the entries and the header page are concerned:
every one is as before the operation or as behind it. -/
def Pool.IsCrash (lsn : Int) (tree : Tree K V) (t : MiniTransaction K V) (pool : Pool K V) : Prop :=
  ∀ page, page = firstIndexPage ∨ page ∈ t.entries.map LogEntryHandler.pageNum →
    ∃ frame, pool page = some frame
      ∧ frame.CrashImage lsn (tree.pages.get page) (t.tree.pages.get page)

/-- The redo of the log entry of an insertion or a deletion leaves every page that the operation
has touched as the operation did, whichever of them had been written back, and to do it again
changes nothing. -/
theorem redo_restores {operation : Operation K V} {dirty : List Int} {answer : Nat → RC}
    {bufferPoolId : Int} {pools : Int → Option (Pool K V)} (hreachable : Reachable c tree)
    (hrun : operation.body c (MiniTransaction.start tree dirty answer) = .ok () t)
    (hid : IsInt32 bufferPoolId) (hpools : pools bufferPoolId = some pool)
    (hcrash : pool.IsCrash lsn tree t) :
  ∃ pool', redo c lsn (payload bufferPoolId t.entries) pools
      = .ok (.success, Function.update pools bufferPoolId (some pool'))
    ∧ (∀ page ∈ t.entries.map LogEntryHandler.pageNum, ∃ frame, pool' page = some frame
      ∧ frame.image = t.tree.pages.get page ∧ lsn ≤ frame.lsn)
    ∧ (∀ page ∉ t.entries.map LogEntryHandler.pageNum,
      pool' page = pool page ∧ t.tree.pages.get page = tree.pages.get page)
    ∧ redo c lsn (payload bufferPoolId t.entries)
        (Function.update pools bufferPoolId (some pool'))
      = .ok (.success, Function.update pools bufferPoolId (some pool'))
  := by
  have hreplay := (Steps.follows steps_replayable).operation operation
    (MiniTransaction.start tree dirty answer) rfl hreachable.fits
  rw [hrun] at hreplay
  obtain ⟨-, hfits, added, hadded, hentries, hbrings⟩ := hreplay
  obtain rfl : t.entries = added := hadded
  have hredo : ∀ page ∈ t.entries.map LogEntryHandler.pageNum, ∀ image,
      AsBefore (tree.pages.get page) image →
        redoAll c (operationsOf page t.entries) image = .ok (t.tree.pages.get page) := by
    intro page hmem
    have hpage := hbrings page
    rw [Brings, if_pos hmem] at hpage
    exact hpage.2
  have hredoes : pool.Redoes c lsn t.entries := by
    intro page hmem
    obtain ⟨frame, hframe, himage⟩ := hcrash page (.inr hmem)
    exact ⟨frame, hframe, himage.redoes (hredo page hmem)⟩
  have hrestored : ∀ page ∈ t.entries.map LogEntryHandler.pageNum, ∃ frame,
      pool.recovered c lsn t.entries page = some frame
        ∧ frame.image = t.tree.pages.get page ∧ lsn ≤ frame.lsn := by
    intro page hmem
    obtain ⟨frame, hframe, himage⟩ := hcrash page (.inr hmem)
    exact ⟨_, Pool.recovered_of_mem hmem hframe, himage.recovered (hredo page hmem)⟩
  obtain ⟨frame, hframe, himage⟩ := hcrash firstIndexPage (.inl rfl)
  obtain ⟨rootPage, hopen⟩ : ∃ rootPage, pool.openTree = .ok rootPage := by
    obtain ⟨-, hbefore⟩ | ⟨-, hafter⟩ := himage
    · obtain ⟨rootPage, hheader⟩ := hreachable.fits.header
      exact ⟨rootPage, Pool.openTree_eq hframe (hbefore _ hheader)⟩
    · obtain ⟨rootPage, hheader⟩ := hfits.header
      exact ⟨rootPage, Pool.openTree_eq hframe (hafter.trans hheader)⟩
  obtain ⟨rootPage', hopen'⟩ : ∃ rootPage,
      (pool.recovered c lsn t.entries).openTree = .ok rootPage := by
    by_cases hmem : firstIndexPage ∈ t.entries.map LogEntryHandler.pageNum
    · obtain ⟨frame', hframe', himage', -⟩ := hrestored firstIndexPage hmem
      obtain ⟨rootPage, hheader⟩ := hfits.header
      exact ⟨rootPage, Pool.openTree_eq hframe' (himage'.trans hheader)⟩
    · refine ⟨rootPage, ?_⟩
      rw [Pool.openTree, Pool.getThisPage, Pool.recovered, if_neg hmem, ← hopen, Pool.openTree,
        Pool.getThisPage]
  refine ⟨pool.recovered c lsn t.entries, redo_payload hid hpools hopen hentries hredoes,
    hrestored, ?_, ?_⟩
  · intro page hmem
    have hpage := hbrings page
    rw [Brings, if_neg hmem] at hpage
    exact ⟨if_neg hmem, hpage⟩
  · apply redo_payload_of_newer hid (Function.update_self ..) hopen' hentries
    intro page hmem
    obtain ⟨frame, hframe, -, hle⟩ := hrestored page hmem
    exact ⟨frame, hframe, hle⟩

/-- Behind a crash that came when the header page had been written back and the new leaf had
not. -/
def headerWritten : Pool (Fin 256) (Fin 256) := fun page =>
  if page = 1 then some ⟨some (.indexHeader 2), 5⟩
  else if page = 2 then some ⟨none, 0⟩
  else none

theorem redo_restores_headerWritten :
  ∃ t, (Operation.insertEntry 7 9).body charFormat
      (MiniTransaction.start Tree.create [] fun _ => .success) = .ok () t
    ∧ ∃ pool', redo charFormat 5 (payload 3 t.entries) (fun _ => some headerWritten)
        = .ok (.success, Function.update (fun _ => some headerWritten) 3 (some pool'))
      ∧ ∃ frame, pool' 2 = some frame
        ∧ frame.image = some (.node ⟨-1, .leaf (-1) [(7, 9)]⟩) ∧ 5 ≤ frame.lsn
  := by
  obtain ⟨t, hrun, hentries, hheader, hleaf⟩ : ∃ t,
      (Operation.insertEntry 7 9).body charFormat
          (MiniTransaction.start Tree.create [] fun _ => .success) = .ok () t
        ∧ t.entries.map LogEntryHandler.pageNum = [2, 2, 1]
        ∧ t.tree.pages.get 1 = some (.indexHeader 2)
        ∧ t.tree.pages.get 2 = some (.node ⟨-1, .leaf (-1) [(7, 9)]⟩) :=
    ⟨_, rfl, rfl, rfl, rfl⟩
  have hcrash : headerWritten.IsCrash 5 Tree.create t := by
    intro page hpage
    rw [hentries] at hpage
    obtain rfl | rfl : page = 1 ∨ page = 2 := by
      simp [firstIndexPage] at hpage
      omega
    · exact ⟨⟨some (.indexHeader 2), 5⟩, rfl, .inr ⟨le_refl 5, hheader.symm⟩⟩
    · refine ⟨⟨none, 0⟩, rfl, .inl ⟨by decide, ?_⟩⟩
      rintro _ ⟨⟩
  obtain ⟨pool', hredo, hrestored, -⟩ :=
    @redo_restores _ _ charFormat 5 headerWritten _ Tree.create t (.insertEntry 7 9) []
      (fun _ => .success) 3 (fun _ => some headerWritten) .create hrun (by decide) rfl hcrash
  obtain ⟨frame, hframe, himage, hle⟩ := hrestored 2 (by rw [hentries]; decide)
  exact ⟨t, hrun, pool', hredo, frame, hframe, himage.trans hleaf, hle⟩

end MiniOB.BplusTree
