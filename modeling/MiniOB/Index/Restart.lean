import MiniOB.Index.Recovery

/-!
# The indexes after a restart

`Db::init` opens all tables, and with them the handlers of their indexes, and replays the log
behind it. The root of a tree is in the header page of its file and in `file_header_` of the
handler. A redo sets it in the header page and in a handler of its own.
-/

namespace MiniOB.BplusTree

variable {K V : Type} {c : Format K V}

/-- A log entry of the module `BPLUS_TREE`. -/
structure TreeLogEntry where
  lsn : Int
  bufferPoolId : Int
  entries : List LogEntryHandler

/-- The files of the indexes by their numbers, and `file_header_.root_page` of the handlers that
are open on them. -/
structure OpenIndexes (K V : Type) where
  pools : Int → Option (Pool K V)
  rootPage : Int → Option Int

/-- `Db::open_all_tables`, as far as the indexes of the tables are opened. -/
def openAllTables (pools : Int → Option (Pool K V)) : OpenIndexes K V where
  pools := pools
  rootPage id := (pools id).bind fun pool => pool.openTree.toOption

/-- The replay of the entries of the log in `Db::recover`, up to the first one that fails. -/
def recover (c : Format K V) :
    List TreeLogEntry → OpenIndexes K V → Except Crash (RC × OpenIndexes K V)
  | [], s => .ok (.success, s)
  | entry :: log, s =>
    match redo c entry.lsn (payload entry.bufferPoolId entry.entries) s.pools with
    | .error crash => .error crash
    | .ok (.success, pools) => recover c log { s with pools }
    | .ok (rc, pools) => .ok (rc, { s with pools })

theorem recover_cons {entry : TreeLogEntry} {log : List TreeLogEntry} {s : OpenIndexes K V}
    {pools : Int → Option (Pool K V)}
    (hredo : redo c entry.lsn (payload entry.bufferPoolId entry.entries) s.pools
      = .ok (.success, pools)) :
  recover c (entry :: log) s = recover c log { s with pools }
  := by
  rw [recover, hredo]

/-- `Db::init`, as far as the indexes are concerned. -/
def init (c : Format K V) (log : List TreeLogEntry) (pools : Int → Option (Pool K V)) :
    Except Crash (RC × OpenIndexes K V) := recover c log (openAllTables pools)

/-- Every open handler has the root that is in the header page. -/
def OpenIndexes.Usable (s : OpenIndexes K V) : Prop :=
  ∀ id rootPage, s.rootPage id = some rootPage →
    ∃ pool, s.pools id = some pool ∧ pool.openTree = .ok rootPage

/-! ### What the log says of a root -/

/-- An entry of a mini-transaction: its numbers fit, and it is one of the header page if it sets
the root. -/
structure LogEntryHandler.WellFormed (entry : LogEntryHandler) : Prop where
  fits : entry.Fits
  header : entry.operation.headerRoot.isSome ↔ entry.pageNum = firstIndexPage

/-- What the redo relies on: the entries are those of mini-transactions, with increasing
numbers. -/
structure IsTreeLog (log : List TreeLogEntry) : Prop where
  isInt32 : ∀ entry ∈ log, IsInt32 entry.bufferPoolId
  wellFormed : ∀ entry ∈ log, ∀ handler ∈ entry.entries, handler.WellFormed
  increasing : log.Pairwise fun entry entry' => entry.lsn < entry'.lsn

/-- The roots that the entries of a mini-transaction set, up to the first entry whose page cannot
be fetched. -/
def rootsOf (readable : Int → Bool) (entries : List LogEntryHandler) : List Int :=
  (entries.takeWhile fun entry => readable entry.pageNum).filterMap fun entry =>
    entry.operation.headerRoot

/-- The roots that the log sets in a file, behind the number of its header page. -/
def newRoots (readable : Int → Bool) (id lsn : Int) (log : List TreeLogEntry) : List Int :=
  log.flatMap fun entry =>
    if entry.bufferPoolId = id ∧ lsn < entry.lsn then rootsOf readable entry.entries else []

/-- The pages that can be fetched. -/
def Pool.readable (pool : Pool K V) : Int → Bool := fun page => (pool page).isSome

/-- The root and the number in the header page. -/
def Pool.HeaderIs (pool : Pool K V) (lsn rootPage : Int) : Prop :=
  pool firstIndexPage = some ⟨some (.indexHeader rootPage), lsn⟩

variable {pool : Pool K V} {s s' : Redoing K V} {entry : LogEntryHandler}
  {entries : List LogEntryHandler} {lsn headerLsn rootPage : Int} {readable : Int → Bool}
  {frame : Frame K V} {image : Image K V}

theorem rootsOf_cons_of_not (h : readable entry.pageNum = false) :
  rootsOf readable (entry :: entries) = []
  := by
  rw [rootsOf, List.takeWhile_cons_of_neg (by simp [h])]
  rfl

theorem getLast?_rootsOf_cons (h : readable entry.pageNum = true) (rootPage : Int) :
  (rootsOf readable (entry :: entries)).getLast?.getD rootPage
    = (rootsOf readable entries).getLast?.getD (entry.operation.headerRoot.getD rootPage)
  := by
  have htake : (entry :: entries).takeWhile (fun entry => readable entry.pageNum)
      = entry :: entries.takeWhile fun entry => readable entry.pageNum :=
    List.takeWhile_cons_of_pos h
  rw [rootsOf, htake, rootsOf, List.filterMap_cons]
  cases entry.operation.headerRoot with
  | none => rfl
  | some root =>
    dsimp only
    rw [List.getLast?_cons]
    rfl

theorem LogEntryHandler.WellFormed.target (h : entry.WellFormed) :
  entry.target = entry.pageNum
  := by
  obtain ⟨pageNum, operation⟩ := entry
  cases operation with
  | updateRootPage rootPageNum oldPageNum => exact (h.header.mp rfl).symm
  | _ => rfl

/-! ### What mini-transactions log -/

section Logged

variable {s s' : MiniTransaction K V} {page : Int}

/-- Across an action, the entries of the logger stay well-formed. -/
def KeepsWellFormed (c : Format K V) (s s' : MiniTransaction K V) : Prop :=
  s.tree.Fits c → (∀ entry ∈ s.entries, entry.WellFormed) →
    s'.tree.Fits c ∧ ∀ entry ∈ s'.entries, entry.WellFormed

/-- An action that adds one entry. -/
theorem keepsWellFormed_of_entry {operation : LogOperation}
    (hentries : s'.entries = (s.appendLogEntry page operation).entries) (hfits : KeepsFits c s s')
    (hentry : s.tree.Fits c → (⟨page, operation⟩ : LogEntryHandler).WellFormed) :
  KeepsWellFormed c s s'
  := by
  intro hbefore hlogged
  refine ⟨hfits hbefore, ?_⟩
  intro entry hmem
  rw [hentries, MiniTransaction.appendLogEntry] at hmem
  split_ifs at hmem
  · obtain hmem | hmem := List.mem_append.mp hmem
    · exact hlogged entry hmem
    · rw [List.mem_singleton.mp hmem]
      exact hentry hbefore
  · exact hlogged entry hmem

/-- An entry for a page that is not that of the header. -/
theorem LogEntryHandler.WellFormed.of_ne {operation : LogOperation}
    (hfits : (⟨page, operation⟩ : LogEntryHandler).Fits) (hnone : operation.headerRoot = none)
    (hne : page ≠ firstIndexPage) :
  (⟨page, operation⟩ : LogEntryHandler).WellFormed
  := by
  refine ⟨hfits, ?_⟩
  rw [hnone]
  exact iff_of_false (by simp) hne

theorem steps_keepsWellFormed : Steps c (KeepsWellFormed c) where
  refl _ hfits hlogged := ⟨hfits, hlogged⟩
  trans h h' hfits hlogged := by
    obtain ⟨hfits', hlogged'⟩ := h hfits hlogged
    exact h' hfits' hlogged'
  request _ _ hfits hlogged := ⟨hfits, hlogged⟩
  markDirty _ _ hfits hlogged := ⟨hfits, hlogged⟩
  disposePage s page hnode hfits hlogged :=
    ⟨steps_keepsFits.disposePage s page hnode hfits, hlogged⟩
  allocate s isLeaf hnext := by
    refine keepsWellFormed_of_entry rfl (steps_keepsFits.allocate s isLeaf hnext) ?_
    intro hfits
    apply LogEntryHandler.WellFormed.of_ne
    · refine ⟨hnext, ?_⟩
      cases isLeaf <;> trivial
    · cases isLeaf <;> rfl
    · intro heq
      obtain ⟨rootPage, hheader⟩ := hfits.header
      rw [← heq, PageFile.get_next] at hheader
      cases hheader
  change s page node operation node' hnode hfits' hchange := by
    refine keepsWellFormed_of_entry rfl
      (steps_keepsFits.change s page node operation node' hnode hfits' hchange) ?_
    intro hfits
    have hsome := Option.isSome_iff_exists.mpr ⟨_, Tree.node_eq_some hnode⟩
    apply LogEntryHandler.WellFormed.of_ne
    · exact ⟨hfits.pageNum page hsome, fits_of_change hchange (hfits.node page node hnode) hfits'⟩
    · cases hchange <;> rfl
    · exact hfits.ne_header hnode
  setRootPage s oldPage rootPage hheader hroot := by
    refine keepsWellFormed_of_entry rfl
      (steps_keepsFits.setRootPage s oldPage rootPage hheader hroot) ?_
    intro hfits
    refine ⟨⟨?_, hroot⟩, iff_of_true rfl rfl⟩
    exact hfits.pageNum _ (Option.isSome_iff_exists.mpr ⟨_, hheader⟩)

/-- What a call on a reachable tree commits to the log. -/
theorem wellFormed_of_exec [LinearOrder K] {tree : Tree K V} {operation : Operation K V}
    {dirty : List Int} {answer : Nat → RC} {finished : Finished K V} (hreachable : Reachable c tree)
    (hexec : operation.exec c tree dirty answer = .ok finished) :
  ∀ entry ∈ finished.committed, entry.WellFormed
  := by
  have hbody := (Steps.follows steps_keepsWellFormed).operation operation
    (MiniTransaction.start tree dirty answer) hreachable.fits (by simp [MiniTransaction.start])
  rw [Operation.exec] at hexec
  cases hrun : operation.body c (MiniTransaction.start tree dirty answer) with
  | ok u s =>
    rw [hrun] at hexec hbody
    cases hexec
    exact hbody.2
  | error e s =>
    rw [hrun] at hexec
    cases e with
    | crash crash => cases hexec
    | returns rc =>
      -- what is rolled back is not committed
      rw [MiniTransaction.finish] at hexec
      cases hlast : (do Mini.rollback c; Mini.release : Mini K V Unit) s with
      | ok u s' =>
        rw [hlast] at hexec
        cases hexec
        simp
      | error e s' =>
        rw [hlast] at hexec
        cases e with
        | crash crash => cases hexec
        | returns rc' =>
          cases hexec
          simp

/-- The entries of the module `BPLUS_TREE` that have been written so far: each is what a call on
a reachable tree has committed, under a number that is greater than those before. The page of the
header is not logged when an index is created. -/
inductive WrittenLog [LinearOrder K] (c : Format K V) : List TreeLogEntry → Prop where
  | nil : WrittenLog c []
  | commit {log : List TreeLogEntry} {lsn bufferPoolId : Int} {tree : Tree K V}
      {operation : Operation K V} {dirty : List Int} {answer : Nat → RC} {finished : Finished K V}
      (hlog : WrittenLog c log) (hid : IsInt32 bufferPoolId)
      (hlsn : ∀ entry ∈ log, entry.lsn < lsn) (hreachable : Reachable c tree)
      (hexec : operation.exec c tree dirty answer = .ok finished) :
      WrittenLog c (log ++ [⟨lsn, bufferPoolId, finished.committed⟩])

theorem WrittenLog.isTreeLog [LinearOrder K] {log : List TreeLogEntry} (h : WrittenLog c log) :
  IsTreeLog log
  := by
  induction h with
  | nil => exact ⟨by simp, by simp, .nil⟩
  | commit hlog hid hlsn hreachable hexec ih =>
    refine ⟨?_, ?_, ?_⟩
    · intro entry hmem
      obtain hmem | hmem := List.mem_append.mp hmem
      · exact ih.isInt32 entry hmem
      · rw [List.mem_singleton.mp hmem]
        exact hid
    · intro entry hmem
      obtain hmem | hmem := List.mem_append.mp hmem
      · exact ih.wellFormed entry hmem
      · rw [List.mem_singleton.mp hmem]
        exact wellFormed_of_exec hreachable hexec
    · rw [List.pairwise_append]
      refine ⟨ih.increasing, List.pairwise_singleton _ _, ?_⟩
      intro entry hmem last hlast
      rw [List.mem_singleton.mp hlast]
      exact hlsn entry hmem

end Logged

/-! ### One entry -/

theorem redo_header {operation : LogOperation} (hsome : operation.headerRoot.isSome)
    (hredo : operation.redo c (some (.indexHeader rootPage)) = .ok image) :
  image = some (.indexHeader (operation.headerRoot.getD rootPage))
  := by
  cases operation with
  | initHeaderPage fileHeader =>
    cases hredo
    rfl
  | updateRootPage rootPageNum oldPageNum =>
    cases hredo
    rfl
  | _ => cases hsome

theorem redo_error {operation : LogOperation} {stop : Stop}
    (hredo : operation.redo c image = .error stop) :
  ∃ crash, stop = .crash crash
  := by
  rw [LogOperation.redo.eq_def] at hredo
  split at hredo
  · cases hredo
  · cases hredo
  · cases hredo
  · cases hredo
  · split at hredo
    · split_ifs at hredo
      cases hredo
      exact ⟨_, rfl⟩
    · cases hredo
      exact ⟨_, rfl⟩
  · cases hredo
    exact ⟨_, rfl⟩

theorem LogEntryHandler.crash_of_redo {stop : Stop} (hredo : entry.redo c s = .error stop) :
  ∃ crash, stop = .crash crash
  := by
  rw [LogEntryHandler.redo] at hredo
  split at hredo
  · cases hredo
    exact ⟨_, rfl⟩
  · rename_i frame hframe
    cases himage : entry.operation.redo c frame.image with
    | error stop' =>
      rw [himage] at hredo
      cases hredo
      exact redo_error himage
    | ok image =>
      rw [himage] at hredo
      cases hredo

/-- The redo of an entry does what it says to the header page, and the pages that can be fetched
stay the same. -/
theorem LogEntryHandler.WellFormed.redo (h : entry.WellFormed) {s' : Redoing K V}
    (hheader : s.pool.HeaderIs headerLsn rootPage) (hframe : s.pool entry.pageNum = some frame)
    (hredo : entry.redo c s = .ok s') :
  s'.pool.HeaderIs headerLsn (entry.operation.headerRoot.getD rootPage)
    ∧ s'.pool.readable = s.pool.readable
  := by
  obtain ⟨image, himage, hpool⟩ : ∃ image, entry.operation.redo c frame.image = .ok image
      ∧ s'.pool = Function.update s.pool entry.pageNum (some { frame with image }) := by
    rw [LogEntryHandler.redo, h.target, hframe] at hredo
    dsimp only at hredo
    cases himage : entry.operation.redo c frame.image with
    | error stop =>
      rw [himage] at hredo
      cases hredo
    | ok image =>
      rw [himage] at hredo
      cases hredo
      exact ⟨image, rfl, rfl⟩
  constructor
  · rw [Pool.HeaderIs, hpool]
    by_cases hpage : entry.pageNum = firstIndexPage
    · have hsome := h.header.mpr hpage
      rw [hpage, hheader] at hframe
      cases hframe
      rw [hpage, Function.update_self, redo_header hsome himage]
    · have hnone : entry.operation.headerRoot = none := by
        rw [← Option.not_isSome_iff_eq_none, h.header]
        exact hpage
      rw [Function.update_of_ne (Ne.symm hpage), hnone]
      exact hheader
  · funext page
    rw [Pool.readable, Pool.readable, hpool]
    by_cases hpage : page = entry.pageNum
    · rw [hpage, Function.update_self, hframe]
      rfl
    · rw [Function.update_of_ne hpage]

/-! ### The entries of a mini-transaction -/

/-- The loop of `BplusTreeLogger::__redo` leaves the last root that the entries set, unless the
header page is newer than they are. -/
theorem redoLoop_header {fuel : Nat} {frames frames' : List Int} {rc : RC}
    (hentries : ∀ entry ∈ entries, entry.WellFormed) (hfuel : entries.length < fuel)
    (hheader : s.pool.HeaderIs headerLsn rootPage)
    (hloop : redoLoop c lsn fuel (entries.flatMap LogEntryHandler.serialize) s frames
      = .ok (rc, s', frames')) :
  s'.pool.HeaderIs headerLsn (if headerLsn < lsn
      then (rootsOf s.pool.readable entries).getLast?.getD rootPage else rootPage)
    ∧ s'.pool.readable = s.pool.readable
    ∧ (firstIndexPage ∈ frames' → firstIndexPage ∈ frames ∨ headerLsn < lsn)
  := by
  induction entries generalizing fuel s frames rootPage with
  | nil =>
    obtain ⟨fuel, rfl⟩ : ∃ n, fuel = n + 1 := ⟨fuel - 1, by simp at hfuel; omega⟩
    rw [List.flatMap_nil, redoLoop, if_pos rfl] at hloop
    cases hloop
    refine ⟨?_, rfl, .inl⟩
    split_ifs <;> exact hheader
  | cons entry entries ih =>
    obtain ⟨fuel, rfl⟩ : ∃ n, fuel = n + 1 := ⟨fuel - 1, by omega⟩
    obtain ⟨hentry, hentries⟩ := List.forall_mem_cons.mp hentries
    have hfuel' : entries.length < fuel := by
      rw [List.length_cons] at hfuel
      omega
    rw [List.flatMap_cons, redoLoop,
      if_neg (List.append_ne_nil_of_left_ne_nil entry.serialize_ne_nil _)] at hloop
    cases hframe : s.pool entry.pageNum with
    | none =>
      -- the loop ends at a page that cannot be fetched
      have hread : s.pool.getThisPage entry.pageNum ≠ .success := by
        rw [Pool.getThisPage, hframe, if_neg (by simp)]
        split_ifs <;> decide
      have hnot : s.pool.readable entry.pageNum = false := by
        rw [Pool.readable, hframe]
        rfl
      rw [LogEntryHandler.fromBuffer_unreadable hentry.fits hread] at hloop
      cases hloop
      rw [rootsOf_cons_of_not hnot, List.getLast?_nil, Option.getD_none, ite_self]
      exact ⟨hheader, rfl, .inl⟩
    | some frame =>
      have hread : s.pool.getThisPage entry.pageNum = .success := by
        rw [Pool.getThisPage, hframe]
        rfl
      have hreadable : s.pool.readable entry.pageNum = true := by
        rw [Pool.readable, hframe]
        rfl
      rw [LogEntryHandler.fromBuffer_serialize hentry.fits hread] at hloop
      dsimp only at hloop
      rw [hframe] at hloop
      dsimp only at hloop
      rw [getLast?_rootsOf_cons hreadable]
      -- only an entry of the header page sets the root
      have hroot : entry.pageNum ≠ firstIndexPage →
          entry.operation.headerRoot.getD rootPage = rootPage := by
        intro hpage
        have hnone : entry.operation.headerRoot = none := by
          rw [← Option.not_isSome_iff_eq_none, hentry.header]
          exact hpage
        rw [hnone, Option.getD_none]
      split_ifs at hloop with hle
      · obtain ⟨hheader', hsame, hframes⟩ := ih hentries hfuel' hheader hloop
        refine ⟨?_, hsame, hframes⟩
        by_cases hpage : entry.pageNum = firstIndexPage
        · rw [hpage, hheader] at hframe
          cases hframe
          rw [if_neg (not_lt.mpr hle)] at hheader' ⊢
          exact hheader'
        · rw [hroot hpage]
          exact hheader'
      · rw [LogEntryHandler.redo_forget] at hloop
        cases hredo : entry.redo c s with
        | error stop =>
          obtain ⟨crash, rfl⟩ := LogEntryHandler.crash_of_redo hredo
          rw [hredo] at hloop
          cases hloop
        | ok s₁ =>
          rw [hredo] at hloop
          dsimp only at hloop
          obtain ⟨hheader₁, hsame₁⟩ := hentry.redo hheader hframe hredo
          obtain ⟨hheader', hsame, hframes⟩ := ih hentries hfuel' hheader₁ hloop
          rw [hsame₁] at hheader' hsame
          refine ⟨?_, hsame, ?_⟩
          · by_cases hlt : headerLsn < lsn
            · rw [if_pos hlt] at hheader' ⊢
              exact hheader'
            · have hpage : entry.pageNum ≠ firstIndexPage := by
                intro hpage
                rw [hpage, hheader] at hframe
                cases hframe
                exact hlt (not_le.mp hle)
              rw [if_neg hlt, hroot hpage] at hheader'
              rw [if_neg hlt]
              exact hheader'
          · intro hmem
            obtain hmem | hlt := hframes hmem
            · obtain hmem | hmem := List.mem_append.mp hmem
              · exact .inl hmem
              · right
                rw [← List.mem_singleton.mp hmem, hheader] at hframe
                cases hframe
                exact not_le.mp hle
            · exact .inr hlt

/-- `BplusTreeLogger::__redo`, which gives the header page the number of the log entry unless it
ends early. -/
theorem redoEntries_header (hentries : ∀ entry ∈ entries, entry.WellFormed)
    (hheader : s.pool.HeaderIs headerLsn rootPage)
    (hredo : redoEntries c lsn (entries.flatMap LogEntryHandler.serialize) s = .ok s') :
  ∃ headerLsn', s'.pool.HeaderIs headerLsn' (if headerLsn < lsn
      then (rootsOf s.pool.readable entries).getLast?.getD rootPage else rootPage)
    ∧ s'.pool.readable = s.pool.readable
    ∧ (headerLsn' = headerLsn ∨ headerLsn' = lsn ∧ headerLsn < lsn)
  := by
  rw [redoEntries] at hredo
  have hfuel := Nat.lt_succ_of_le (length_le_flatMap_serialize entries)
  split at hredo
  · cases hredo
  · rename_i s₁ frames hloop
    obtain ⟨hheader₁, hsame, hframes⟩ := redoLoop_header hentries hfuel hheader hloop
    cases hredo
    have hreadable : Pool.readable (s₁.pool.setLsn frames lsn) = s₁.pool.readable := by
      funext page
      rw [Pool.readable, Pool.readable, Pool.setLsn]
      split_ifs
      · rw [Option.isSome_map]
      · rfl
    by_cases hmem : firstIndexPage ∈ frames
    · refine ⟨lsn, ?_, hreadable.trans hsame, .inr ⟨rfl, ?_⟩⟩
      · change Pool.setLsn s₁.pool frames lsn firstIndexPage = _
        rw [Pool.setLsn, if_pos hmem, hheader₁]
        rfl
      · exact (hframes hmem).resolve_left List.not_mem_nil
    · refine ⟨headerLsn, ?_, hreadable.trans hsame, .inl rfl⟩
      change Pool.setLsn s₁.pool frames lsn firstIndexPage = _
      rw [Pool.setLsn, if_neg hmem, hheader₁]
  · rename_i rc s₁ frames hne hloop
    obtain ⟨hheader₁, hsame, -⟩ := redoLoop_header hentries hfuel hheader hloop
    cases hredo
    exact ⟨headerLsn, hheader₁, hsame, .inl rfl⟩

/-! ### The log -/

section Log

variable {pools pools' : Int → Option (Pool K V)} {id : Int} {record : TreeLogEntry}
  {log : List TreeLogEntry} {pool pool' : Pool K V} {rc : RC}

/-- A log entry of another file. -/
theorem redo_other (hid : IsInt32 record.bufferPoolId) (hne : record.bufferPoolId ≠ id)
    (hredo : redo c record.lsn (payload record.bufferPoolId record.entries) pools
      = .ok (rc, pools')) :
  pools' id = pools id
  := by
  rw [redo, payload, readInt32_writeInt32 hid] at hredo
  dsimp only at hredo
  split at hredo
  · cases hredo
    rfl
  · split at hredo
    · cases hredo
      rfl
    · cases hredo
    · split at hredo
      · cases hredo
      · cases hredo
        exact Function.update_of_ne (Ne.symm hne) _ _

/-- A log entry of the file. -/
theorem redo_self (hid : IsInt32 record.bufferPoolId)
    (hentries : ∀ entry ∈ record.entries, entry.WellFormed)
    (hpool : pools record.bufferPoolId = some pool) (hheader : pool.HeaderIs headerLsn rootPage)
    (hredo : redo c record.lsn (payload record.bufferPoolId record.entries) pools
      = .ok (rc, pools')) :
  ∃ pool' headerLsn', pools' record.bufferPoolId = some pool'
    ∧ pool'.HeaderIs headerLsn' (if headerLsn < record.lsn
      then (rootsOf pool.readable record.entries).getLast?.getD rootPage else rootPage)
    ∧ pool'.readable = pool.readable
    ∧ (headerLsn' = headerLsn ∨ headerLsn' = record.lsn ∧ headerLsn < record.lsn)
  := by
  rw [redo, payload, readInt32_writeInt32 hid] at hredo
  dsimp only at hredo
  rw [hpool] at hredo
  dsimp only at hredo
  rw [Pool.openTree_eq hheader rfl] at hredo
  dsimp only at hredo
  split at hredo
  · cases hredo
  · rename_i s' hentries'
    obtain ⟨headerLsn', hheader', hsame, hlsn⟩ := redoEntries_header hentries hheader hentries'
    cases hredo
    exact ⟨s'.pool, headerLsn', Function.update_self .., hheader', hsame, hlsn⟩

theorem IsTreeLog.tail (h : IsTreeLog (record :: log)) : IsTreeLog log where
  isInt32 entry hmem := h.isInt32 entry (List.mem_cons_of_mem _ hmem)
  wellFormed entry hmem := h.wellFormed entry (List.mem_cons_of_mem _ hmem)
  increasing := (List.pairwise_cons.mp h.increasing).2

theorem getLast?_newRoots_cons (rootPage : Int) :
  (newRoots readable id lsn (record :: log)).getLast?.getD rootPage
    = (newRoots readable id lsn log).getLast?.getD
        (if record.bufferPoolId = id ∧ lsn < record.lsn
          then (rootsOf readable record.entries).getLast?.getD rootPage else rootPage)
  := by
  rw [newRoots, newRoots, List.flatMap_cons, List.getLast?_append]
  split_ifs
  · cases List.getLast? (log.flatMap _) <;> rfl
  · cases List.getLast? (log.flatMap _) <;> rfl

/-- No handler takes notice of a replay. -/
theorem recover_rootPage {s s' : OpenIndexes K V} (hrecover : recover c log s = .ok (rc, s')) :
  s'.rootPage = s.rootPage
  := by
  induction log generalizing s with
  | nil =>
    cases hrecover
    rfl
  | cons record log ih =>
    rw [recover] at hrecover
    split at hrecover
    · cases hrecover
    · rename_i pools₁ hredo
      exact ih (s := { s with pools := pools₁ }) hrecover
    · cases hrecover
      rfl

/-- The replay leaves the last root that the log sets behind the number of the header page. -/
theorem recover_header {s s' : OpenIndexes K V} {firstLsn : Int} (hlog : IsTreeLog log)
    (hpool : s.pools id = some pool) (hheader : pool.HeaderIs headerLsn rootPage)
    (hnewer : ∀ record ∈ log, firstLsn < record.lsn ↔ headerLsn < record.lsn)
    (hrecover : recover c log s = .ok (.success, s')) :
  ∃ pool' headerLsn', s'.pools id = some pool'
    ∧ pool'.HeaderIs headerLsn' ((newRoots pool.readable id firstLsn log).getLast?.getD rootPage)
  := by
  induction log generalizing s pool headerLsn rootPage with
  | nil =>
    cases hrecover
    exact ⟨pool, headerLsn, hpool, hheader⟩
  | cons record log ih =>
    have hid := hlog.isInt32 record List.mem_cons_self
    obtain ⟨hrecord, hlater⟩ := List.forall_mem_cons.mp hnewer
    rw [recover] at hrecover
    split at hrecover
    · cases hrecover
    · rename_i pools hredo
      rw [getLast?_newRoots_cons]
      by_cases hfile : record.bufferPoolId = id
      · subst hfile
        obtain ⟨pool', headerLsn', hpool', hheader', hsame, hlsn⟩ := redo_self hid
          (hlog.wellFormed record List.mem_cons_self) hpool hheader hredo
        have hlater' : ∀ record ∈ log, firstLsn < record.lsn ↔ headerLsn' < record.lsn := by
          intro later hmem
          have hlt := (List.pairwise_cons.mp hlog.increasing).1 later hmem
          rw [hlater later hmem]
          obtain rfl | ⟨rfl, hnew⟩ := hlsn
          · rfl
          · constructor <;> intro <;> omega
        have hfinal := ih hlog.tail hpool' hheader' hlater' hrecover
        rw [hsame] at hfinal
        simp only [true_and, hrecord]
        exact hfinal
      · have hpool' : ({ s with pools } : OpenIndexes K V).pools id = some pool :=
          (redo_other hid hfile hredo).trans hpool
        rw [if_neg fun h => hfile h.1]
        exact ih (s := { s with pools }) hlog.tail hpool' hheader hlater hrecover
    · rename_i rc pools hne hredo
      cases hrecover
      exact absurd rfl hne

theorem Pool.openTree_ok_iff :
  pool.openTree = .ok rootPage ↔ ∃ headerLsn, pool.HeaderIs headerLsn rootPage
  := by
  constructor
  · intro hopen
    rw [Pool.openTree] at hopen
    split at hopen
    · cases hopen
    · rename_i frame hframe
      obtain ⟨image, headerLsn⟩ := frame
      split at hopen
      · rename_i root himage
        cases hopen
        cases himage
        exact ⟨headerLsn, hframe⟩
      · cases hopen
  · rintro ⟨headerLsn, hheader⟩
    exact Pool.openTree_eq hheader rfl

theorem rootPage_openAllTables :
  (openAllTables pools).rootPage id = some rootPage
    ↔ ∃ pool headerLsn, pools id = some pool ∧ pool.HeaderIs headerLsn rootPage
  := by
  change (pools id).bind _ = some rootPage ↔ _
  rw [Option.bind_eq_some_iff]
  constructor
  · rintro ⟨pool, hpool, hopen⟩
    cases hroot : pool.openTree with
    | error stop =>
      rw [hroot] at hopen
      cases hopen
    | ok root =>
      rw [hroot] at hopen
      cases hopen
      obtain ⟨headerLsn, hheader⟩ := Pool.openTree_ok_iff.mp hroot
      exact ⟨pool, headerLsn, hpool, hheader⟩
  · rintro ⟨pool, headerLsn, hpool, hheader⟩
    refine ⟨pool, hpool, ?_⟩
    rw [Pool.openTree_eq hheader rfl]
    rfl

/-- The log leaves the root of every index where it is: the last root that is set in it behind the
number of the header page is the one in the header page, if there is any. -/
def KeepsRoots (log : List TreeLogEntry) (pools : Int → Option (Pool K V)) : Prop :=
  ∀ id pool headerLsn rootPage, pools id = some pool → pool.HeaderIs headerLsn rootPage →
    (newRoots pool.readable id headerLsn log).getLast?.getD rootPage = rootPage

/-- The handlers have the roots that are in the header pages, if and only if the log leaves these
where they are. -/
theorem usable_of_init [LinearOrder K] {s : OpenIndexes K V} (hwritten : WrittenLog c log)
    (hinit : init c log pools = .ok (.success, s)) :
  s.Usable ↔ KeepsRoots log pools
  := by
  have hlog := hwritten.isTreeLog
  have hroots : s.rootPage = (openAllTables pools).rootPage := recover_rootPage hinit
  have hrun : ∀ {id : Int} {pool : Pool K V} {headerLsn rootPage : Int},
      pools id = some pool → pool.HeaderIs headerLsn rootPage →
        ∃ pool', s.pools id = some pool' ∧ pool'.openTree
          = .ok ((newRoots pool.readable id headerLsn log).getLast?.getD rootPage) := by
    intro id pool headerLsn rootPage hpool hheader
    have hpool₀ : (openAllTables pools).pools id = some pool := hpool
    have hnewer : ∀ record ∈ log, headerLsn < record.lsn ↔ headerLsn < record.lsn :=
      fun _ _ => Iff.rfl
    obtain ⟨pool', headerLsn', hpool', hheader'⟩ :=
      recover_header hlog hpool₀ hheader hnewer hinit
    exact ⟨pool', hpool', Pool.openTree_eq hheader' rfl⟩
  constructor
  · intro husable id pool headerLsn rootPage hpool hheader
    have hroot : s.rootPage id = some rootPage := by
      rw [hroots, rootPage_openAllTables]
      exact ⟨pool, headerLsn, hpool, hheader⟩
    obtain ⟨pool', hpool', hopen'⟩ := hrun hpool hheader
    obtain ⟨pool'', hpool'', hopen''⟩ := husable id rootPage hroot
    rw [hpool'] at hpool''
    cases hpool''
    rw [hopen'] at hopen''
    exact Except.ok.inj hopen''
  · intro hkeeps id rootPage hroot
    rw [hroots, rootPage_openAllTables] at hroot
    obtain ⟨pool, headerLsn, hpool, hheader⟩ := hroot
    obtain ⟨pool', hpool', hopen'⟩ := hrun hpool hheader
    rw [hkeeps id pool headerLsn rootPage hpool hheader] at hopen'
    exact ⟨pool', hpool', hopen'⟩

end Log

/-- Behind a crash that came when nothing but the page of the header had been written, as the
creation of the index writes it. -/
def headerCreated : Pool (Fin 256) (Fin 256) := fun page =>
  if page = 1 then some ⟨some (.indexHeader (-1)), 0⟩
  else if page = 2 then some ⟨none, 0⟩
  else none

/-- The first insertion into an index is redone behind the back of its handler. -/
theorem usable_of_init_headerCreated :
  ∃ finished s, (Operation.insertEntry 7 9).exec charFormat Tree.create [] (fun _ => .success)
      = .ok finished
    ∧ init charFormat [⟨5, 3, finished.committed⟩]
        (fun id => if id = 3 then some headerCreated else none) = .ok (.success, s)
    ∧ s.rootPage 3 = some (-1) ∧ ¬ s.Usable
  := by
  obtain ⟨finished, hexec, hcommitted⟩ : ∃ finished,
      (Operation.insertEntry 7 9).exec charFormat Tree.create [] (fun _ => .success) = .ok finished
        ∧ finished.committed = [⟨2, .leafInitEmpty⟩,
          ⟨2, .nodeInsert 0 1 (charFormat.leafBytes [(7, 9)])⟩, ⟨1, .updateRootPage 2 (-1)⟩] :=
    ⟨_, rfl, rfl⟩
  have hwritten : WrittenLog charFormat [⟨5, 3, finished.committed⟩] :=
    .commit .nil (by decide) (by simp) .create hexec
  have hentries : ∀ entry ∈ finished.committed, entry.Fits ∧ entry.target = entry.pageNum := by
    intro entry hmem
    have hentry := hwritten.isTreeLog.wellFormed _ List.mem_cons_self entry hmem
    exact ⟨hentry.fits, hentry.target⟩
  have hredoes : headerCreated.Redoes charFormat 5 finished.committed := by
    intro page hmem
    rw [hcommitted] at hmem ⊢
    obtain rfl | rfl : page = 2 ∨ page = 1 := by simpa using hmem
    · exact ⟨⟨none, 0⟩, rfl, fun _ => ⟨_, rfl⟩⟩
    · exact ⟨⟨some (.indexHeader (-1)), 0⟩, rfl, fun _ => ⟨_, rfl⟩⟩
  have hredo := @redo_payload _ _ charFormat 5 _ headerCreated 3 (-1)
    (fun id => if id = 3 then some headerCreated else none) (by decide) rfl rfl hentries hredoes
  obtain ⟨s, hinit, hroot⟩ : ∃ s, init charFormat [⟨5, 3, finished.committed⟩]
      (fun id => if id = 3 then some headerCreated else none) = .ok (.success, s)
        ∧ s.rootPage 3 = some (-1) := by
    refine ⟨_, recover_cons hredo, ?_⟩
    rfl
  refine ⟨finished, s, hexec, hinit, hroot, ?_⟩
  rw [usable_of_init hwritten hinit]
  intro hkeeps
  have hlast := hkeeps 3 headerCreated 0 (-1) rfl rfl
  rw [hcommitted] at hlast
  revert hlast
  decide

end MiniOB.BplusTree
