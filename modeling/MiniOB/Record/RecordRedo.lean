import MiniOB.Record.RecordFile

/-!
# The redo of record pages

The calls of `RecordPageHandler` with the entries that `RecordLogHandler` appends for them, and
the replay of these entries by `RecordLogReplayer` of `storage/record/record_log.cpp`. A page is
found after a crash as it was at some moment of its own history. The replay of an insertion takes
the first free slot and does not look at the slot of its entry.
-/

namespace MiniOB.Record

open Transition

variable {B : Type}

/-! ### The calls on a page -/

namespace RecordPage

/-- `RecordPageHandler::insert_record`, which answers the slot. -/
def insertRecord (page : RecordPage B) (data : B) :
    Except Fault (Except RC Int × RecordPage B) :=
  if page.recordNum = page.recordCapacity then .ok (.error .recordNomem, page)
  else
    let index := Bitmap.nextUnsettedBit page.bitmap page.recordCapacity.toNat 0
    if index < 0 then .error .outOfPage
    else
      .ok (.ok index, { page with
        recordNum := page.recordNum + 1
        bitmap := Bitmap.setBit page.bitmap index.toNat
        records := Function.update page.records index.toNat data })

/-- The slot that `delete_record` and `update_record` look for. -/
def findSlot (page : RecordPage B) (slotNum : Int) : Except Fault (Except RC Nat) :=
  if page.recordCapacity ≤ slotNum then .ok (.error .invalidArgument)
  else if slotNum < 0 ∨ pageDataSize ≤ pageHeaderSize + slotNum.toNat / 8 then .error .outOfPage
  else if Bitmap.getBit page.bitmap slotNum.toNat then .ok (.ok slotNum.toNat)
  else .ok (.error .recordNotExist)

/-- `RecordPageHandler::delete_record`. -/
def deleteRecord (page : RecordPage B) (slotNum : Int) : Except Fault (RC × RecordPage B) :=
  match page.findSlot slotNum with
  | .error fault => .error fault
  | .ok (.error rc) => .ok (rc, page)
  | .ok (.ok slot) => .ok (.success, { page with
      recordNum := page.recordNum - 1
      bitmap := Bitmap.clearBit page.bitmap slot })

/-- `RecordPageHandler::update_record`. -/
def updateRecord (page : RecordPage B) (slotNum : Int) (data : B) :
    Except Fault (RC × RecordPage B) :=
  match page.findSlot slotNum with
  | .error fault => .error fault
  | .ok (.error rc) => .ok (rc, page)
  | .ok (.ok slot) => .ok (.success, { page with
      records := Function.update page.records slot data })

end RecordPage

/-! ### The log -/

/-- `RecordOperation::Type`, with what an entry of this type carries. -/
inductive RecordOperation (B : Type) where
  | initPage (recordSize : Nat)
  | insert (slotNum : Int) (data : B)
  | delete (slotNum : Int)
  | update (slotNum : Int) (data : B)
  deriving DecidableEq, Repr

/-- An entry of the module `RECORD_MANAGER`, for one file. -/
structure RecordLogEntry (B : Type) where
  lsn : Int
  pageNum : Int
  operation : RecordOperation B
  deriving DecidableEq, Repr

/-- A page with the number in its frame. -/
structure PageImage (B : Type) where
  page : RecordPage B
  lsn : Int

/-- The pages of a file. -/
abbrev Pages (B : Type) := Int → Option (PageImage B)

/-- The pages after one of them has been written. -/
def Pages.write (pages : Pages B) (p : Int) (image : PageImage B) : Pages B :=
  Function.update pages p (some image)

/-- The pages of a file, and the last number that the log has given out. -/
structure LoggedPages (B : Type) where
  pages : Pages B
  lsn : Int

/-- A call of `RecordPageHandler`. -/
inductive RecordCall (B : Type) where
  | initEmptyPage (recordSize : Nat)
  | insertRecord (data : B)
  | deleteRecord (slotNum : Int)
  | updateRecord (slotNum : Int) (data : B)
  deriving DecidableEq, Repr

/-- What a call leaves: its code, the page, and what it appends to the log. -/
structure CallResult (B : Type) where
  rc : RC
  page : RecordPage B
  logged : Option (RecordOperation B)

/-- The call of a page, with the entry of `RecordLogHandler`. -/
def RecordCall.exec (page : RecordPage B) : RecordCall B → Except Fault (CallResult B)
  | .initEmptyPage recordSize =>
    .ok ⟨.success, page.initEmptyPage recordSize, some (.initPage recordSize)⟩
  | .insertRecord data =>
    match page.insertRecord data with
    | .error fault => .error fault
    | .ok (.error rc, page) => .ok ⟨rc, page, none⟩
    | .ok (.ok slot, page) => .ok ⟨.success, page, some (.insert slot data)⟩
  | .deleteRecord slot =>
    match page.deleteRecord slot with
    | .error fault => .error fault
    | .ok (rc, page) => .ok ⟨rc, page, if rc = .success then some (.delete slot) else none⟩
  | .updateRecord slot data =>
    match page.updateRecord slot data with
    | .error fault => .error fault
    | .ok (rc, page) => .ok ⟨rc, page, if rc = .success then some (.update slot data) else none⟩

/-- A call on a page of the file, its code and its entry in the log. -/
structure RecordEvent (B : Type) where
  pageNum : Int
  call : RecordCall B
  rc : RC
  logged : Option (RecordLogEntry B)

/-- A call that appends nothing, or one whose entry gets a number beyond all earlier ones. -/
inductive RecordStep : LoggedPages B → RecordEvent B → LoggedPages B → Prop where
  | silent {s : LoggedPages B} {p : Int} {image : PageImage B} {call : RecordCall B}
      {rc : RC} {page : RecordPage B} (hpage : s.pages p = some image)
      (exec : call.exec image.page = .ok ⟨rc, page, none⟩) :
      RecordStep s ⟨p, call, rc, none⟩
        { s with pages := s.pages.write p { image with page } }
  | logged {s : LoggedPages B} {p lsn : Int} {image : PageImage B} {call : RecordCall B}
      {rc : RC} {page : RecordPage B} {operation : RecordOperation B}
      (hpage : s.pages p = some image) (hlsn : s.lsn < lsn)
      (exec : call.exec image.page = .ok ⟨rc, page, some operation⟩) :
      RecordStep s ⟨p, call, rc, some ⟨lsn, p, operation⟩⟩
        ⟨s.pages.write p ⟨page, if 0 < lsn then lsn else image.lsn⟩, lsn⟩

/-- The log of a history, the oldest entry first. -/
def logOf (h : List (LoggedPages B × RecordEvent B)) : List (RecordLogEntry B) :=
  h.reverse.filterMap fun x => x.2.logged

/-! ### The replay -/

/-- `replay_init_page`, `replay_insert`, `replay_delete` and `replay_update`. -/
def RecordOperation.redo (page : RecordPage B) : RecordOperation B → Except Fault (RC × RecordPage B)
  | .initPage recordSize => .ok (.success, page.initEmptyPage recordSize)
  | .insert _ data =>
    match page.insertRecord data with
    | .error fault => .error fault
    | .ok (.error rc, page) => .ok (rc, page)
    | .ok (.ok _, page) => .ok (.success, page)
  | .delete slot => page.deleteRecord slot
  | .update slot data => page.updateRecord slot data

/-- `RecordLogReplayer::replay` of an entry of this file. -/
def replay (pages : Pages B) (entry : RecordLogEntry B) : Except Fault (RC × Pages B) :=
  match pages entry.pageNum with
  | none => .ok (if entry.pageNum < 0 then .ioerrSeek else .ioerrRead, pages)
  | some image =>
    if entry.lsn ≤ image.lsn then .ok (.success, pages)
    else
      match entry.operation.redo image.page with
      | .error fault => .error fault
      | .ok (rc, page) =>
        .ok (rc, pages.write entry.pageNum
          ⟨page, if rc = .success then entry.lsn else image.lsn⟩)

/-- The entries are replayed one after another, up to the first that fails. -/
def replayLog : Pages B → List (RecordLogEntry B) → Except Fault (RC × Pages B)
  | pages, [] => .ok (.success, pages)
  | pages, entry :: log =>
    match replay pages entry with
    | .error fault => .error fault
    | .ok (.success, pages) => replayLog pages log
    | .ok (rc, pages) => .ok (rc, pages)

/-- The numbers of the pages do not exceed the last number of the log. -/
structure LoggedPages.Bounded (s : LoggedPages B) : Prop where
  nonneg : 0 ≤ s.lsn
  le : ∀ p image, s.pages p = some image → image.lsn ≤ s.lsn

/-- The page `p` as it was at some moment of the history. -/
def IsStage (h : List (LoggedPages B × RecordEvent B)) (last : LoggedPages B) (p : Int)
    (image : Option (PageImage B)) : Prop :=
  image = last.pages p ∨ ∃ x ∈ h, image = x.1.pages p

/-! ### A call and the redo of its entry -/

section Redo

variable {page page' : RecordPage B} {call : RecordCall B} {operation : RecordOperation B} {rc : RC}
  {slot : Int} {data : B}

/-- The redo of an entry does to the page what the call has done. -/
theorem redo_of_exec (hexec : call.exec page = .ok ⟨rc, page', some operation⟩) :
  operation.redo page = .ok (.success, page')
  := by
  cases call with
  | initEmptyPage recordSize =>
    cases hexec
    rfl
  | insertRecord data =>
    rw [RecordCall.exec] at hexec
    split at hexec
    · contradiction
    · cases hexec
    · rename_i hinsert
      cases hexec
      rw [RecordOperation.redo, hinsert]
  | deleteRecord slot =>
    rw [RecordCall.exec] at hexec
    split at hexec
    · contradiction
    · rename_i rc hdelete
      split at hexec
      · rename_i hrc
        cases hexec
        rw [RecordOperation.redo, hdelete, hrc]
      · cases hexec
  | updateRecord slot data =>
    rw [RecordCall.exec] at hexec
    split at hexec
    · contradiction
    · rename_i rc hupdate
      split at hexec
      · rename_i hrc
        cases hexec
        rw [RecordOperation.redo, hupdate, hrc]
      · cases hexec

theorem RecordPage.findSlot_error (hslot : page.findSlot slot = .ok (.error rc)) :
  rc = .invalidArgument ∨ rc = .recordNotExist
  := by
  rw [RecordPage.findSlot] at hslot
  split at hslot
  · cases hslot
    exact .inl rfl
  split at hslot
  · cases hslot
  split at hslot
  · cases hslot
  · cases hslot
    exact .inr rfl

theorem RecordPage.deleteRecord_failed (hdelete : page.deleteRecord slot = .ok (rc, page'))
    (hrc : rc ≠ .success) :
  page' = page
  := by
  rw [RecordPage.deleteRecord] at hdelete
  split at hdelete
  · contradiction
  · cases hdelete
    rfl
  · cases hdelete
    exact absurd rfl hrc

theorem RecordPage.updateRecord_failed (hupdate : page.updateRecord slot data = .ok (rc, page'))
    (hrc : rc ≠ .success) :
  page' = page
  := by
  rw [RecordPage.updateRecord] at hupdate
  split at hupdate
  · contradiction
  · cases hupdate
    rfl
  · cases hupdate
    exact absurd rfl hrc

theorem RecordPage.insertRecord_failed
    (hinsert : page.insertRecord data = .ok (.error rc, page')) :
  page' = page
  := by
  simp only [RecordPage.insertRecord] at hinsert
  split at hinsert
  · cases hinsert
    rfl
  · split at hinsert <;> cases hinsert

/-- A call that appends nothing leaves its page as it is. -/
theorem page_of_exec (hexec : call.exec page = .ok ⟨rc, page', none⟩) : page' = page := by
  cases call with
  | initEmptyPage recordSize => cases hexec
  | insertRecord data =>
    rw [RecordCall.exec] at hexec
    split at hexec
    · contradiction
    · rename_i hinsert
      cases hexec
      apply RecordPage.insertRecord_failed hinsert
    · cases hexec
  | deleteRecord slot =>
    rw [RecordCall.exec] at hexec
    split at hexec
    · contradiction
    · rename_i hdelete
      split at hexec
      · cases hexec
      · rename_i hrc
        cases hexec
        apply RecordPage.deleteRecord_failed hdelete hrc
  | updateRecord slot data =>
    rw [RecordCall.exec] at hexec
    split at hexec
    · contradiction
    · rename_i hupdate
      split at hexec
      · cases hexec
      · rename_i hrc
        cases hexec
        apply RecordPage.updateRecord_failed hupdate hrc

/-- The slot of an entry is the one that the insertion has taken. -/
theorem insertRecord_of_exec (hexec : call.exec page = .ok ⟨rc, page', some (.insert slot data)⟩) :
  page.insertRecord data = .ok (.ok slot, page')
  := by
  cases call with
  | initEmptyPage recordSize => cases hexec
  | insertRecord data =>
    rw [RecordCall.exec] at hexec
    split at hexec
    · contradiction
    · cases hexec
    · rename_i hinsert
      cases hexec
      apply hinsert
  | deleteRecord slot =>
    rw [RecordCall.exec] at hexec
    split at hexec
    · contradiction
    · split at hexec <;> cases hexec
  | updateRecord slot data =>
    rw [RecordCall.exec] at hexec
    split at hexec
    · contradiction
    · split at hexec <;> cases hexec

end Redo

/-! ### The numbers of the pages grow -/

section Stages

variable {s s' last : LoggedPages B} {e : RecordEvent B}
  {h : List (LoggedPages B × RecordEvent B)} {p : Int} {image : PageImage B}
  {found : Pages B}

theorem Pages.write_self (pages : Pages B) (p : Int) (image : PageImage B) :
  pages.write p image p = some image
  := Function.update_self _ _ _

theorem Pages.write_of_ne {pages : Pages B} {q : Int} (hne : q ≠ p) :
  pages.write p image q = pages q
  := Function.update_of_ne hne _ _

/-- A step does nothing, or it writes one page and gives it the number of its entry. -/
theorem RecordStep.inv (hbound : s.Bounded) (hstep : RecordStep s e s') :
  (e.logged = none ∧ s' = s)
    ∨ ∃ image page entry rc, e.logged = some entry ∧ s.pages entry.pageNum = some image
      ∧ s.lsn < entry.lsn ∧ e.call.exec image.page = .ok ⟨rc, page, some entry.operation⟩
      ∧ s' = ⟨s.pages.write entry.pageNum ⟨page, entry.lsn⟩, entry.lsn⟩
  := by
  cases hstep with
  | @silent p image call rc page hpage hexec =>
    left
    refine ⟨rfl, ?_⟩
    rw [page_of_exec hexec, Pages.write, ← hpage, Function.update_eq_self]
  | @logged p lsn image call rc page operation hpage hlsn hexec =>
    right
    have hpos : 0 < lsn := by
      have h0 := hbound.nonneg
      omega
    refine ⟨image, page, ⟨lsn, p, operation⟩, rc, rfl, hpage, hlsn, hexec, ?_⟩
    rw [if_pos hpos]

theorem RecordStep.bounded (hbound : s.Bounded) (hstep : RecordStep s e s') : s'.Bounded := by
  obtain ⟨_, rfl⟩ | ⟨image, page, entry, rc, _, hpage, hlsn, _, rfl⟩ := hstep.inv hbound
  · apply hbound
  · have h0 := hbound.nonneg
    constructor
    · change 0 ≤ entry.lsn
      omega
    · intro q other hother
      change other.lsn ≤ entry.lsn
      change s.pages.write _ _ q = some other at hother
      obtain rfl | hne := eq_or_ne q entry.pageNum
      · rw [Pages.write_self] at hother
        cases hother
        rfl
      · rw [Pages.write_of_ne hne] at hother
        have hle := hbound.le q other hother
        omega

theorem LoggedPages.Bounded.run (hbound : s.Bounded) (hrun : Run RecordStep s h s') : s'.Bounded :=
  hrun.invariant hbound fun _ _ _ hbound hstep => hstep.bounded hbound

/-- Every page of `s` is a page of `s'`, with the same number or a greater one. -/
def Later (s s' : LoggedPages B) : Prop :=
  ∀ p image, s.pages p = some image → ∃ image', s'.pages p = some image' ∧ image.lsn ≤ image'.lsn

theorem Later.refl (s : LoggedPages B) : Later s s :=
  fun _ image himage => ⟨image, himage, Int.le_refl _⟩

theorem Later.trans {s₁ s₂ s₃ : LoggedPages B} (h₁ : Later s₁ s₂) (h₂ : Later s₂ s₃) :
  Later s₁ s₃
  := by
  intro p image himage
  obtain ⟨middle, hmiddle, hle⟩ := h₁ p image himage
  obtain ⟨image', himage', hle'⟩ := h₂ p middle hmiddle
  exact ⟨image', himage', Int.le_trans hle hle'⟩

theorem RecordStep.later (hbound : s.Bounded) (hstep : RecordStep s e s') : Later s s' := by
  obtain ⟨_, rfl⟩ | ⟨image, page, entry, rc, _, hpage, hlsn, _, rfl⟩ := hstep.inv hbound
  · apply Later.refl
  · intro q other hother
    obtain rfl | hne := eq_or_ne q entry.pageNum
    · refine ⟨⟨page, entry.lsn⟩, Pages.write_self _ _ _, ?_⟩
      have hle := hbound.le _ other hother
      change other.lsn ≤ entry.lsn
      omega
    · refine ⟨other, ?_, Int.le_refl _⟩
      change s.pages.write _ _ q = some other
      rw [Pages.write_of_ne hne, hother]

/-- All states of a run are later than its first. -/
theorem later_of_run (hbound : s.Bounded) (hrun : Run RecordStep s h last) :
  Later s last ∧ ∀ x ∈ h, Later s x.1
  := by
  induction hrun with
  | refl => exact ⟨Later.refl s, List.forall_mem_nil _⟩
  | tail hrun hlast ih =>
    obtain ⟨hend, hstates⟩ := ih
    refine ⟨hend.trans (hlast.later (hbound.run hrun)), ?_⟩
    intro x hx
    obtain rfl | hx := List.mem_cons.mp hx
    · apply hend
    · apply hstates x hx

theorem isStage_start (hrun : Run RecordStep s h last) (p : Int) : IsStage h last p (s.pages p) := by
  induction hrun with
  | refl => exact .inl rfl
  | @tail h middle last e hrun hlast ih =>
    obtain hend | ⟨x, hx, heq⟩ := ih
    · exact .inr ⟨(middle, e), List.mem_cons_self, hend⟩
    · exact .inr ⟨x, List.mem_cons_of_mem _ hx, heq⟩

/-- No stage of a page has a smaller number than the first. -/
theorem lsn_le_of_isStage (hbound : s.Bounded) (hrun : Run RecordStep s h last)
    {stage : Option (PageImage B)} (hstage : IsStage h last p stage)
    (himage : s.pages p = some image) :
  ∃ image', stage = some image' ∧ image.lsn ≤ image'.lsn
  := by
  obtain ⟨hend, hstates⟩ := later_of_run hbound hrun
  obtain rfl | ⟨x, hx, rfl⟩ := hstage
  · apply hend p image himage
  · apply hstates x hx p image himage

/-! ### The replay of a step -/

theorem isStage_concat {stage : Option (PageImage B)}
    (hstage : IsStage (h ++ [(s, e)]) last p stage) :
  IsStage h last p stage ∨ stage = s.pages p
  := by
  obtain hend | ⟨x, hx, heq⟩ := hstage
  · exact .inl (.inl hend)
  · obtain hx | hx := List.mem_append.mp hx
    · exact .inl (.inr ⟨x, hx, heq⟩)
    · rw [List.mem_singleton.mp hx] at heq
      exact .inr heq

theorem replay_skip {entry : RecordLogEntry B} (himage : found entry.pageNum = some image)
    (hle : entry.lsn ≤ image.lsn) :
  replay found entry = .ok (.success, found)
  := by
  rw [replay, himage]
  apply if_pos hle

theorem replay_redo {entry : RecordLogEntry B} {page : RecordPage B}
    (himage : found entry.pageNum = some image) (hlt : image.lsn < entry.lsn)
    (hredo : entry.operation.redo image.page = .ok (.success, page)) :
  replay found entry
    = .ok (.success, found.write entry.pageNum ⟨page, entry.lsn⟩)
  := by
  rw [replay, himage]
  simp only [hredo]
  rw [if_neg (by omega)]
  rfl

theorem replayLog_singleton {entry : RecordLogEntry B} {pages : Pages B}
    (hreplay : replay found entry = .ok (.success, pages)) :
  replayLog found [entry] = .ok (.success, pages)
  := by
  rw [replayLog, hreplay]
  rfl

/-- The pages are at stages of what follows a step before its entry is replayed, and at stages of
what follows the step afterwards. -/
theorem replay_step (hbound : s.Bounded) (hstep : RecordStep s e s')
    (hrest : Run RecordStep s' h last)
    (hfound : ∀ p, IsStage (h ++ [(s, e)]) last p (found p)) :
  ∃ pages, replayLog found e.logged.toList = .ok (.success, pages)
    ∧ ∀ p, IsStage h last p (pages p)
  := by
  have hstart := isStage_start hrest
  obtain ⟨hnone, rfl⟩ | ⟨image, page, entry, rc, hsome, hpage, hlsn, hexec, rfl⟩ :=
    hstep.inv hbound
  · refine ⟨found, ?_, ?_⟩
    · rw [hnone]
      rfl
    · intro p
      obtain hstage | heq := isStage_concat (hfound p)
      · apply hstage
      · rw [heq]
        apply hstart
  rw [hsome]
  have hothers : ∀ p, p ≠ entry.pageNum → IsStage h last p (found p) := by
    intro p hne
    obtain hstage | heq := isStage_concat (hfound p)
    · apply hstage
    · have hstage := hstart p
      change IsStage h last p (s.pages.write _ _ p) at hstage
      rwa [Pages.write_of_ne hne, ← heq] at hstage
  obtain hstage | heq := isStage_concat (hfound entry.pageNum)
  · -- The page is at a later stage: the entry is skipped.
    obtain ⟨image', himage', hle⟩ := lsn_le_of_isStage (hstep.bounded hbound) hrest hstage
      (Pages.write_self _ _ _)
    refine ⟨found, replayLog_singleton (replay_skip himage' hle), ?_⟩
    intro p
    obtain rfl | hne := eq_or_ne p entry.pageNum
    · apply hstage
    · apply hothers p hne
  · -- The page is as the call has found it: the entry is redone.
    have hlt := hbound.le _ image hpage
    rw [hpage] at heq
    refine ⟨_, replayLog_singleton (replay_redo heq (by omega) (redo_of_exec hexec)), ?_⟩
    intro p
    obtain rfl | hne := eq_or_ne p entry.pageNum
    · have hstage := hstart entry.pageNum
      change IsStage h last _ (s.pages.write _ _ entry.pageNum) at hstage
      rw [Pages.write_self] at hstage ⊢
      apply hstage
    · rw [Pages.write_of_ne hne]
      apply hothers p hne

/-! ### The replay of a history -/

variable {start : LoggedPages B} {h' : List (LoggedPages B × RecordEvent B)}

theorem replayLog_append {log log' : List (RecordLogEntry B)} {pages : Pages B}
    (hlog : replayLog found log = .ok (.success, pages)) :
  replayLog found (log ++ log') = replayLog pages log'
  := by
  induction log generalizing found with
  | nil =>
    cases hlog
    rfl
  | cons entry log ih =>
    rw [replayLog] at hlog
    split at hlog
    · contradiction
    · rename_i next hentry
      rw [List.cons_append, replayLog, hentry]
      apply ih hlog
    · rename_i rc next hne hentry
      cases hlog
      exact absurd rfl hne

theorem logOf_append (h h' : List (LoggedPages B × RecordEvent B)) :
  logOf (h' ++ h) = logOf h ++ logOf h'
  := by
  rw [logOf, List.reverse_append, List.filterMap_append, logOf, logOf]

theorem logOf_singleton (s : LoggedPages B) (e : RecordEvent B) :
  logOf [(s, e)] = e.logged.toList
  := by
  rw [logOf, List.reverse_singleton]
  cases hlogged : e.logged <;> simp [hlogged]

/-- The replay of the log of the first part of a history. Its pages are at stages of what
follows. -/
theorem replayLog_part (hbound : start.Bounded) (hrun : Run RecordStep start h s)
    (hrest : Run RecordStep s h' last) (hfound : ∀ p, IsStage (h' ++ h) last p (found p)) :
  ∃ pages, replayLog found (logOf h) = .ok (.success, pages) ∧ ∀ p, IsStage h' last p (pages p)
  := by
  induction hrun generalizing h' with
  | refl =>
    rw [List.append_nil] at hfound
    exact ⟨found, rfl, hfound⟩
  | @tail h middle s e hrun hlast ih =>
    have hnext := (Run.refl.tail hlast).trans hrest
    rw [List.append_cons] at hfound
    obtain ⟨pages, hreplay, hpages⟩ := ih hnext hfound
    obtain ⟨pages', hreplay', hpages'⟩ := replay_step (hbound.run hrun) hlast hrest hpages
    refine ⟨pages', ?_, hpages'⟩
    rw [← List.singleton_append, logOf_append, replayLog_append hreplay, logOf_singleton, hreplay']

/-- The replay of the whole log leads to the pages at the end of the history. -/
theorem replayLog_all (hbound : start.Bounded) (hrun : Run RecordStep start h last)
    (hfound : ∀ p, IsStage h last p (found p)) :
  replayLog found (logOf h) = .ok (.success, last.pages)
  := by
  obtain ⟨pages, hreplay, hpages⟩ := replayLog_part hbound hrun Run.refl hfound
  rw [hreplay]
  have heq : pages = last.pages := by
    funext p
    obtain heq | ⟨x, hx, _⟩ := hpages p
    · apply heq
    · exact absurd hx List.not_mem_nil
  rw [heq]

/-! ### The slots of the insertions -/

/-- The part of a history before one of its entries, and the part after it. -/
theorem logOf_cons {log rest : List (RecordLogEntry B)} {entry : RecordLogEntry B}
    (hlog : logOf h = log ++ entry :: rest) :
  ∃ h₁ x h₂, h = h₂ ++ [x] ++ h₁ ∧ logOf h₁ = log ∧ x.2.logged = some entry
  := by
  obtain ⟨l₁, l₂, hl, hlog₁, hlog₂⟩ := List.filterMap_eq_append_iff.mp hlog
  obtain ⟨k₁, x, k₂, rfl, hsilent, hx, _⟩ := List.filterMap_eq_cons_iff.mp hlog₂
  refine ⟨(l₁ ++ k₁).reverse, x, k₂.reverse, ?_, ?_, hx⟩
  · rw [← List.reverse_reverse h, hl]
    simp
  · rw [logOf, List.reverse_reverse, List.filterMap_append, hlog₁,
      List.filterMap_eq_nil_iff.mpr hsilent, List.append_nil]

/-- An insertion that is redone after the entries `done` takes the slot of its entry. -/
def LandsInSlot (found : Pages B) (done : List (RecordLogEntry B)) (entry : RecordLogEntry B) :
    Prop :=
  ∀ slot data, entry.operation = .insert slot data → ∃ pages image,
    replayLog found done = .ok (.success, pages) ∧ pages entry.pageNum = some image
    ∧ (image.lsn < entry.lsn → ∃ page, image.page.insertRecord data = .ok (.ok slot, page))

theorem landsInSlot (hbound : start.Bounded) (hrun : Run RecordStep start h last)
    (hfound : ∀ p, IsStage h last p (found p)) {log rest : List (RecordLogEntry B)}
    {entry : RecordLogEntry B} (hlog : logOf h = log ++ entry :: rest) :
  LandsInSlot found log entry
  := by
  intro slot data hinsert
  obtain ⟨h₁, x, h₂, rfl, rfl, hx⟩ := logOf_cons hlog
  obtain ⟨s, hfirst, hlast⟩ := hrun.split
  obtain ⟨s', hone, hrest⟩ := hlast.split
  obtain ⟨pages, hreplay, hpages⟩ := replayLog_part hbound hfirst hlast hfound
  cases hone with
  | @tail _ _ _ e hnil hstep =>
  cases hnil
  have hs := hbound.run hfirst
  obtain ⟨hnone, _⟩ | ⟨image, page, entry', rc, hsome, hpage, hlsn, hexec, rfl⟩ := hstep.inv hs
  · rw [hnone] at hx
    cases hx
  rw [hsome] at hx
  cases hx
  rw [hinsert] at hexec
  obtain hstage | heq := isStage_concat (hpages entry.pageNum)
  · obtain ⟨image', himage', hle⟩ := lsn_le_of_isStage (hstep.bounded hs) hrest hstage
      (Pages.write_self _ _ _)
    refine ⟨pages, image', hreplay, himage', ?_⟩
    intro hlt
    change entry.lsn ≤ image'.lsn at hle
    omega
  · exact ⟨pages, image, hreplay, heq.trans hpage, fun _ => ⟨page, insertRecord_of_exec hexec⟩⟩

/-- After a crash every page is found at some stage of its own history. The replay of the whole
log fails nowhere and leads to the pages at the end of the history, a second replay changes
nothing, and every insertion that is redone takes the slot of its entry. -/
theorem replayLog_stages (hbound : start.Bounded) (hrun : Run RecordStep start h last)
    (hfound : ∀ p, IsStage h last p (found p)) :
  replayLog found (logOf h) = .ok (.success, last.pages)
    ∧ replayLog last.pages (logOf h) = .ok (.success, last.pages)
    ∧ ∀ log entry rest, logOf h = log ++ entry :: rest → LandsInSlot found log entry
  := by
  refine ⟨replayLog_all hbound hrun hfound, ?_, ?_⟩
  · apply replayLog_all hbound hrun
    intro p
    exact .inl rfl
  · intro log entry rest hlog
    apply landsInSlot hbound hrun hfound hlog

end Stages

/-- A page of a file that has been cleared. -/
def clearedPages : LoggedPages (List UInt8) where
  pages := fun p => if p = 1 then some ⟨RecordPage.blank, 0⟩ else none
  lsn := 0

/-- A page is made a record page, gets a record, loses it and gets another one. It is found as it
was before the deletion. -/
theorem replayLog_stages_slot :
  ∃ h last found, Run RecordStep clearedPages h last
    ∧ logOf h = [⟨1, 1, .initPage 4⟩, ⟨2, 1, .insert 0 [1, 2, 3, 4]⟩, ⟨3, 1, .delete 0⟩,
        ⟨4, 1, .insert 0 [5, 6, 7, 8]⟩]
    ∧ (found 1).map (fun image => image.lsn) = some 2
    ∧ replayLog found (logOf h) = .ok (.success, last.pages)
  := by
  have hbound : clearedPages.Bounded := by
    refine ⟨Int.le_refl _, ?_⟩
    intro p image himage
    rw [clearedPages] at himage
    dsimp only at himage
    split at himage <;> cases himage
    rfl
  have hinit := (Run.refl : Run RecordStep clearedPages [] _).tail
    (e := ⟨1, .initEmptyPage 4, .success, some ⟨1, 1, .initPage 4⟩⟩)
    (.logged rfl (by decide) rfl)
  have hinsert := hinit.tail
    (e := ⟨1, .insertRecord [1, 2, 3, 4], .success, some ⟨2, 1, .insert 0 [1, 2, 3, 4]⟩⟩)
    (.logged rfl (by decide) rfl)
  have hdelete := hinsert.tail
    (e := ⟨1, .deleteRecord 0, .success, some ⟨3, 1, .delete 0⟩⟩)
    (.logged rfl (by decide) rfl)
  have hrun := hdelete.tail
    (e := ⟨1, .insertRecord [5, 6, 7, 8], .success, some ⟨4, 1, .insert 0 [5, 6, 7, 8]⟩⟩)
    (.logged rfl (by decide) rfl)
  have hreplay := (replayLog_stages hbound hrun fun p =>
    .inr ⟨_, List.mem_cons_of_mem _ List.mem_cons_self, rfl⟩).1
  refine ⟨_, _, _, hrun, rfl, ?_, hreplay⟩
  rfl

/-! ### The calls of a record file -/

section RecordFile

variable {f : RecordFile B} {rid : RID}

/-- The insertion into a page of a file is the call on this page. -/
theorem insertRecordInPage_page (f : RecordFile B) (pageNum : Int) (data : B) :
  f.insertRecordInPage pageNum data
    = match (f.pages pageNum).insertRecord data with
      | .error fault => .error fault
      | .ok (.error rc, _) => .ok (.error rc, f)
      | .ok (.ok slot, page) => .ok (.ok ⟨pageNum, slot⟩, f.setPage pageNum page)
  := by
  simp only [RecordFile.insertRecordInPage, RecordPage.insertRecord]
  split
  · rfl
  · split <;> rfl

variable [Inhabited B]

theorem findSlot_page (hpage : f.IsRecordPage rid.pageNum) :
  f.findSlot rid .invalidArgument = (f.pages rid.pageNum).findSlot rid.slotNum
  := by
  have hpos := hpage.1
  simp only [RecordFile.findSlot, RecordFile.getThisPage_of_isRecordPage hpage,
    RecordPage.findSlot]
  rw [if_neg (show ¬ rid.pageNum = 0 by omega)]

/-- The deletion from a record page of a file is the call on this page. -/
theorem deleteRecord_page (hpage : f.IsRecordPage rid.pageNum) :
  f.deleteRecord rid
    = match (f.pages rid.pageNum).deleteRecord rid.slotNum with
      | .error fault => .error fault
      | .ok (.success, page) =>
        .ok (.success, { f.setPage rid.pageNum page with
          freePages := insert rid.pageNum f.freePages })
      | .ok (rc, _) => .ok (rc, f)
  := by
  rw [RecordFile.deleteRecord, RecordPage.deleteRecord, findSlot_page hpage]
  cases hslot : (f.pages rid.pageNum).findSlot rid.slotNum with
  | error fault => rfl
  | ok slot =>
    cases slot with
    | error rc => obtain rfl | rfl := RecordPage.findSlot_error hslot <;> rfl
    | ok slot => rfl

/-- The update on a record page of a file is the call on this page. -/
theorem updateRecord_page (hpage : f.IsRecordPage rid.pageNum) (data : B) :
  f.updateRecord rid data
    = match (f.pages rid.pageNum).updateRecord rid.slotNum data with
      | .error fault => .error fault
      | .ok (.success, page) => .ok (.success, f.setPage rid.pageNum page)
      | .ok (rc, _) => .ok (rc, f)
  := by
  rw [RecordFile.updateRecord, RecordPage.updateRecord, findSlot_page hpage]
  cases hslot : (f.pages rid.pageNum).findSlot rid.slotNum with
  | error fault => rfl
  | ok slot =>
    cases slot with
    | error rc => obtain rfl | rfl := RecordPage.findSlot_error hslot <;> rfl
    | ok slot => rfl

end RecordFile

end MiniOB.Record
