import MiniOB.Session.Session

/-!
# The transactions of the sessions

Outside of BEGIN and its end, a session has an active transaction only while it runs a statement,
or when the result of a statement was dropped.
The server stops exactly at the end of a transaction that is none, or that has deleted a record of
its own twice. A transaction whose session disconnects is never ended.
-/

namespace MiniOB.Mvcc

variable {D : Type} {s s' : State D}

theorem counterOk_of_lt (h : s.currentTrxId < int32Max) (e : Event D) : CounterOk s e := by
  cases e <;> first | exact h | exact trivial

/-- A call leaves the other transaction objects as they are. -/
theorem trxes_step (hrec : ∀ t, (s.trxes t).recovering = false) {e : Event D} (hs : Step s e s')
    {u : TrxRef} (hne : u ≠ e.trx) :
  s'.trxes u = s.trxes u
  := by
  cases hs.effect hrec with
  | same => rfl
  | start t _ _ => exact Function.update_of_ne hne _ _
  | insert t _ _ _ _ _ => exact Function.update_of_ne hne _ _
  | delete t _ _ _ _ _ => exact Function.update_of_ne hne _ _
  | commit t _ => exact Function.update_of_ne hne _ _
  | rollback t _ => exact Function.update_of_ne hne _ _

theorem active_of_start (hinv : Inv s) {t : TrxRef} (hs : Step s (.startIfNeed t) s') :
  s'.Active t
  := by
  obtain ⟨-, rc, hexec⟩ := hs
  by_cases hstarted : (s.trxes t).started
  · rw [exec, startIfNeed, if_pos hstarted] at hexec
    cases hexec
    exact hstarted
  · have hops : ¬ (s.trxes t).operations ≠ [] := by
      rw [not_not, List.eq_nil_iff_forall_not_mem]
      exact fun op hop => hstarted (hinv.active_of_mem t op hop)
    rw [exec, startIfNeed, if_neg hstarted, if_neg hops] at hexec
    cases hexec
    simp [State.Active, State.setTrx]

theorem not_active_of_end (hinv : Inv s) {t : TrxRef} {e : Event D} (hs : Step s e s')
    (hend : e = .commit t ∨ e = .rollback t) :
  ¬ s'.Active t ∧ 0 < s'.id t
  := by
  cases hs.effect hinv.recovering with
  | same _ hgoes =>
    obtain hcommit | hrollback := hend
    · exact absurd hcommit (hgoes t).1
    · exact absurd hrollback (hgoes t).2.1
  | commit u hpos =>
    obtain hcommit | hrollback := hend
    · cases hcommit
      rw [afterCommit_active, afterCommit_id]
      exact ⟨fun h => h.1 rfl, hpos⟩
    · cases hrollback
  | rollback u hpos =>
    obtain hcommit | hrollback := hend
    · cases hcommit
    · cases hrollback
      rw [afterRollback_active, afterRollback_id]
      exact ⟨fun h => h.1 rfl, hpos⟩
  | _ => obtain ⟨⟨⟩⟩ | ⟨⟨⟩⟩ := hend

/-- Inserting and deleting neither start nor end a transaction. -/
theorem active_of_record (hinv : Inv s) {t : TrxRef} {e : Event D} (hs : Step s e s')
    (hrecord : (∃ table placed data, e = .insertRecord t table placed data)
      ∨ ∃ place, e = .deleteRecord t place) (u : TrxRef) :
  s'.Active u ↔ s.Active u
  := by
  cases hs.effect hinv.recovering with
  | same => rfl
  | insert v table rid data _ _ => rw [afterInsert_active]
  | delete v place r _ _ _ => rw [afterDelete_active]
  | _ => obtain ⟨_, _, _, ⟨⟩⟩ | ⟨_, ⟨⟩⟩ := hrecord

end MiniOB.Mvcc

namespace MiniOB.Sessions

open Mvcc (TrxRef State AssertFailure Outcome)
open Transition

variable {D : Type} {server server' : Server D}

/-! ### The call of an event -/

/-- The call that an event makes on the transaction of its session. -/
def Event.call (session : Session) (t : TrxRef) : Event D → Option (Mvcc.Event D)
  | .connect _ => none
  | .trxBegin _ => some (.startIfNeed t)
  | .trxEnd _ isCommit => some (if isCommit then .commit t else .rollback t)
  | .openResult _ _ => some (.startIfNeed t)
  | .insertRecord _ table placed data => some (.insertRecord t table placed data)
  | .deleteRecord _ place => some (.deleteRecord t place)
  | .closeResult _ closed =>
    if session.multiOperation then none
    else some (if closed = .success then .commit t else .rollback t)
  | .dropResult _ => none
  | .disconnect _ => none

/-- What becomes of the session with the call of an event. -/
def Event.next (session : Session) : Event D → Session
  | .trxBegin _ => { session with multiOperation := true }
  | .trxEnd _ _ => { session with multiOperation := false, dropped := false }
  | .openResult _ _ => { session with running := true }
  | .closeResult _ _ => { session with running := false, dropped := false }
  | _ => session

/-- The server after a call that has led to `state`. -/
def Server.called (server : Server D) (i : SessionId) (session : Session) (e : Event D)
    (state : State D) : Server D where
  state := state
  created := (server.currentTrx session).2
  sessions := Function.update server.sessions i
    (some { e.next session with trx := some (server.currentTrx session).1 })

theorem setSession_sessions (i : SessionId) (session : Option Session) (j : SessionId) :
  (server.setSession i session).sessions j = if j = i then session else server.sessions j
  := Function.update_apply _ _ _ _

theorem called_sessions (i : SessionId) (session : Session) (e : Event D) (state : State D)
    (j : SessionId) :
  (server.called i session e state).sessions j
    = if j = i then some { e.next session with trx := some (server.currentTrx session).1 }
      else server.sessions j
  := Function.update_apply _ _ _ _

theorem Event.call_trx {session : Session} {t : TrxRef} {e : Event D} {c : Mvcc.Event D}
    (h : e.call session t = some c) :
  c.trx = t
  := by
  cases e <;> simp only [Event.call] at h <;> (try split_ifs at h) <;> cases h <;> rfl

theorem call_map_snd {i : SessionId} {session : Session} {f : TrxRef → State D → Outcome D} :
  (server.call i session f).map Prod.snd
    = (f (server.currentTrx session).1 server.state).map fun out =>
        { state := out.2, created := (server.currentTrx session).2
          sessions := Function.update server.sessions i
            (some { session with trx := some (server.currentTrx session).1 }) }
  := by
  rw [Server.call]
  cases f (server.currentTrx session).1 server.state <;> rfl

theorem map_snd_keep {ε : Type} (out : Except ε (RC × Server D)) (rc : RC) :
  (out.map fun out => (rc, out.2)).map Prod.snd = out.map Prod.snd
  := by
  cases out <;> rfl

/-- What an event does to the server is what its call does to the transactions. -/
theorem handle_map_snd {i : SessionId} {session : Session} {e : Event D} {c : Mvcc.Event D}
    (h : e.call session (server.currentTrx session).1 = some c) :
  (handle server i session e).map Prod.snd
    = (Mvcc.exec server.state c).map fun out => server.called i session e out.2
  := by
  cases e with
  | connect i => cases h
  | trxBegin i =>
    cases h
    exact call_map_snd
  | trxEnd i isCommit =>
    cases h
    cases isCommit <;> exact call_map_snd
  | openResult i opened =>
    cases h
    rw [handle, openResult, map_snd_keep]
    exact call_map_snd
  | insertRecord i table placed data =>
    cases h
    rw [handle]
    exact call_map_snd
  | deleteRecord i place =>
    cases h
    rw [handle]
    exact call_map_snd
  | closeResult i closed =>
    rw [Event.call] at h
    split_ifs at h with hmulti hclosed
    · cases h
      rw [handle, closeResult, if_neg hmulti, if_pos hclosed]
      exact call_map_snd
    · cases h
      rw [handle, closeResult, if_neg hmulti, if_neg hclosed, map_snd_keep]
      exact call_map_snd
  | dropResult i => cases h
  | disconnect i => cases h

/-- An event without a call, with what becomes of the session. -/
inductive Quiet (server : Server D) : Event D → Option Session → Prop where
  | connect (i : SessionId) (h : server.sessions i = none) : Quiet server (.connect i) (some {})
  | disconnect (i : SessionId) (session : Session) (h : server.sessions i = some session)
      (hidle : session.running = false) : Quiet server (.disconnect i) none
  | closeResult (i : SessionId) (session : Session) (closed : RC)
      (h : server.sessions i = some session) (hmulti : session.multiOperation = true) :
    Quiet server (.closeResult i closed) (some { session with running := false })
  | dropResult (i : SessionId) (session : Session) (h : server.sessions i = some session)
      (hrunning : session.running = true) :
    Quiet server (.dropResult i) (some { session with running := false, dropped := true })

/-- An event makes a call, or it is a quiet one. -/
theorem Step.cases {e : Event D} (h : Step server e server') :
  (∃ session c, server.sessions e.sessionId = some session
      ∧ e.call session (server.currentTrx session).1 = some c
      ∧ (∃ rc, Mvcc.exec server.state c = .ok (rc, server'.state))
      ∧ server' = server.called e.sessionId session e server'.state)
    ∨ ∃ session', Quiet server e session' ∧ server' = server.setSession e.sessionId session'
  := by
  obtain ⟨hadm, -, rc, hexec⟩ := h
  rw [exec] at hexec
  cases hsession : server.sessions e.sessionId with
  | none =>
    rw [hsession] at hexec
    cases hexec
    cases e with
    | connect i => exact .inr ⟨_, .connect i hadm, rfl⟩
    | insertRecord i table placed data =>
      obtain ⟨⟨session, hsome, -⟩, -⟩ := hadm
      cases hsession.symm.trans hsome
    | _ =>
      obtain ⟨session, hsome, -⟩ := hadm
      cases hsession.symm.trans hsome
  | some session =>
    rw [hsession] at hexec
    dsimp only at hexec
    cases hcall : e.call session (server.currentTrx session).1 with
    | some c =>
      left
      have hserver := handle_map_snd (i := e.sessionId) hcall
      rw [hexec] at hserver
      cases hout : Mvcc.exec server.state c with
      | error failure =>
        rw [hout] at hserver
        cases hserver
      | ok out =>
        rw [hout] at hserver
        cases hserver
        exact ⟨session, c, rfl, hcall, ⟨out.1, hout⟩, rfl⟩
    | none =>
      right
      cases e with
      | connect i => cases hsession.symm.trans hadm
      | disconnect i =>
        cases hexec
        obtain ⟨session', hsome, hidle⟩ := hadm
        exact ⟨_, .disconnect i session' hsome hidle, rfl⟩
      | closeResult i closed =>
        rw [Event.call] at hcall
        split_ifs at hcall with hmulti
        rw [handle, closeResult, if_pos hmulti] at hexec
        cases hexec
        exact ⟨_, .closeResult i session _ hsession hmulti, rfl⟩
      | dropResult i =>
        cases hexec
        obtain ⟨session', hsome, hrunning⟩ := hadm
        cases hsession.symm.trans hsome
        exact ⟨_, .dropResult i session hsession hrunning, rfl⟩
      | _ => cases hcall

/-! ### The invariant -/

/-- Sessions have transaction objects of their own, and an active one exactly when they are
busy. -/
structure Inv (server : Server D) : Prop where
  state : Mvcc.Inv server.state
  orderly : Mvcc.Orderly server.state
  /-- Objects that have not been made yet have done nothing. -/
  fresh : ∀ t, server.created ≤ t → server.state.trxes t = {}
  below : ∀ i session t, server.sessions i = some session → session.trx = some t →
    t < server.created
  distinct : ∀ i j session session' t, server.sessions i = some session →
    server.sessions j = some session' → session.trx = some t → session'.trx = some t → i = j
  /-- The object of a session has drawn an id. -/
  started : ∀ i session t, server.sessions i = some session → session.trx = some t →
    0 < server.state.id t
  busy : ∀ i session, server.sessions i = some session →
    (session.Busy ↔ ∃ t, session.trx = some t ∧ server.state.Active t)

theorem inv_init : Inv (Server.init : Server D) where
  state := Mvcc.inv_init
  orderly := Mvcc.orderly_init
  fresh _ _ := rfl
  below _ _ _ h := nomatch h
  distinct _ _ _ _ _ h := nomatch h
  started _ _ _ h := nomatch h
  busy _ _ h := nomatch h

/-- The object that a session uses next: its own, or a new one. -/
theorem currentTrx_eq (server : Server D) (session : Session) :
  (∃ t, session.trx = some t ∧ server.currentTrx session = (t, server.created))
    ∨ (session.trx = none ∧ server.currentTrx session = (server.created, server.created + 1))
  := by
  rw [Server.currentTrx]
  cases session.trx with
  | some t => exact .inl ⟨t, rfl, rfl⟩
  | none => exact .inr ⟨rfl, rfl⟩

/-- A running statement belongs to an active transaction. -/
theorem Inv.active_of_running (h : Inv server) {i : SessionId} {session : Session}
    (hsession : server.sessions i = some session) (hrunning : session.running = true) :
  ∃ t, session.trx = some t ∧ server.currentTrx session = (t, server.created)
    ∧ server.state.Active t
  := by
  obtain ⟨t, ht, hactive⟩ := (h.busy i session hsession).mp (.inr (.inl hrunning))
  refine ⟨t, ht, ?_, hactive⟩
  rw [Server.currentTrx, ht]

/-- The callers of the transaction functions see to what is asked of them. -/
theorem Inv.admissible (h : Inv server) {e : Event D} (hadm : Admissible server e)
    {session : Session} (hsession : server.sessions e.sessionId = some session) {c : Mvcc.Event D}
    (hcall : e.call session (server.currentTrx session).1 = some c) :
  Mvcc.Admissible server.state c
  := by
  cases e with
  | insertRecord i table placed data =>
    cases hcall
    obtain ⟨⟨session', hsome, hrunning⟩, hfree⟩ := hadm
    obtain ⟨t, -, hcurrent, hactive⟩ := h.active_of_running hsome hrunning
    cases hsession.symm.trans hsome
    rw [hcurrent]
    exact ⟨hactive, hfree⟩
  | deleteRecord i place =>
    cases hcall
    obtain ⟨session', hsome, hrunning⟩ := hadm
    obtain ⟨t, -, hcurrent, hactive⟩ := h.active_of_running hsome hrunning
    cases hsession.symm.trans hsome
    rw [hcurrent]
    exact hactive
  | trxEnd i isCommit =>
    cases hcall
    cases isCommit <;> exact trivial
  | closeResult i closed =>
    rw [Event.call] at hcall
    split_ifs at hcall <;> cases hcall <;> exact trivial
  | connect i => cases hcall
  | dropResult i => cases hcall
  | disconnect i => cases hcall
  | _ =>
    cases hcall
    exact trivial

/-- The transaction of a session after a call. -/
theorem Inv.own_step (h : Inv server) {e : Event D} (hadm : Admissible server e)
    {session : Session} (hsession : server.sessions e.sessionId = some session) {c : Mvcc.Event D}
    (hcall : e.call session (server.currentTrx session).1 = some c) {s' : State D}
    (hs : Mvcc.Step server.state c s') (hinv' : Mvcc.Inv s') :
  0 < s'.id (server.currentTrx session).1
    ∧ ((e.next session).Busy ↔ s'.Active (server.currentTrx session).1)
  := by
  have hrecord : session.running = true → (∀ u, s'.Active u ↔ server.state.Active u) →
      0 < s'.id (server.currentTrx session).1
        ∧ (session.Busy ↔ s'.Active (server.currentTrx session).1) := by
    intro hrunning hsame
    obtain ⟨t, -, hcurrent, hactive⟩ := h.active_of_running hsession hrunning
    rw [hcurrent]
    have hactive' := (hsame t).mpr hactive
    exact ⟨hinv'.id_pos t hactive', iff_of_true (.inr (.inl hrunning)) hactive'⟩
  cases e with
  | connect i => cases hcall
  | dropResult i => cases hcall
  | disconnect i => cases hcall
  | trxBegin i =>
    cases hcall
    have hactive := Mvcc.active_of_start h.state hs
    exact ⟨hinv'.id_pos _ hactive, iff_of_true (.inl rfl) hactive⟩
  | openResult i opened =>
    cases hcall
    have hactive := Mvcc.active_of_start h.state hs
    exact ⟨hinv'.id_pos _ hactive, iff_of_true (.inr (.inl rfl)) hactive⟩
  | trxEnd i isCommit =>
    obtain ⟨session', hsome, hidle⟩ := hadm
    cases hsession.symm.trans hsome
    have hend : c = .commit (server.currentTrx session).1
        ∨ c = .rollback (server.currentTrx session).1 := by
      cases hcall
      cases isCommit with
      | true => exact .inl rfl
      | false => exact .inr rfl
    obtain ⟨hinactive, hid⟩ := Mvcc.not_active_of_end h.state hs hend
    refine ⟨hid, iff_of_false ?_ hinactive⟩
    simp [Event.next, Session.Busy, hidle]
  | insertRecord i table placed data =>
    obtain ⟨⟨session', hsome, hrunning⟩, -⟩ := hadm
    cases hsession.symm.trans hsome
    cases hcall
    exact hrecord hrunning (Mvcc.active_of_record h.state hs (.inl ⟨_, _, _, rfl⟩))
  | deleteRecord i place =>
    obtain ⟨session', hsome, hrunning⟩ := hadm
    cases hsession.symm.trans hsome
    cases hcall
    exact hrecord hrunning (Mvcc.active_of_record h.state hs (.inr ⟨_, rfl⟩))
  | closeResult i closed =>
    rw [Event.call] at hcall
    have hend : session.multiOperation = false ∧ (c = .commit (server.currentTrx session).1
        ∨ c = .rollback (server.currentTrx session).1) := by
      split_ifs at hcall with hmulti hclosed
      · exact ⟨Bool.eq_false_iff.mpr hmulti, .inl (Option.some.inj hcall).symm⟩
      · exact ⟨Bool.eq_false_iff.mpr hmulti, .inr (Option.some.inj hcall).symm⟩
    obtain ⟨hinactive, hid⟩ := Mvcc.not_active_of_end h.state hs hend.2
    refine ⟨hid, iff_of_false ?_ hinactive⟩
    simp [Event.next, Session.Busy, hend.1]

theorem Inv.quiet_step (h : Inv server) {e : Event D} {session' : Option Session}
    (hquiet : Quiet server e session') :
  Inv (server.setSession e.sessionId session')
  := by
  -- a session that is there afterwards has the object that it had before
  have hold : ∀ j session, (server.setSession e.sessionId session').sessions j = some session →
      session = {} ∨ ∃ old, server.sessions j = some old ∧ session.trx = old.trx
        ∧ (session.Busy ↔ old.Busy) := by
    intro j session hsession
    rw [setSession_sessions] at hsession
    split_ifs at hsession with hj
    · subst hj
      cases hquiet with
      | connect i _ =>
        cases hsession
        exact .inl rfl
      | disconnect i session _ _ => cases hsession
      | closeResult i old closed hsome hmulti =>
        cases hsession
        refine .inr ⟨old, hsome, rfl, ?_⟩
        simp [Session.Busy, hmulti]
      | dropResult i old hsome hrunning =>
        cases hsession
        refine .inr ⟨old, hsome, rfl, ?_⟩
        simp [Session.Busy, hrunning]
    · exact .inr ⟨session, hsession, rfl, Iff.rfl⟩
  constructor
  · exact h.state
  · exact h.orderly
  · exact h.fresh
  · intro j session t hsession ht
    obtain rfl | ⟨old, hsome, htrx, -⟩ := hold j session hsession
    · cases ht
    · exact h.below j old t hsome (htrx.symm.trans ht)
  · intro j k session session'' t hsession hsession' ht ht'
    obtain rfl | ⟨old, hsome, htrx, -⟩ := hold j session hsession
    · cases ht
    obtain rfl | ⟨old', hsome', htrx', -⟩ := hold k session'' hsession'
    · cases ht'
    exact h.distinct j k old old' t hsome hsome' (htrx.symm.trans ht) (htrx'.symm.trans ht')
  · intro j session t hsession ht
    obtain rfl | ⟨old, hsome, htrx, -⟩ := hold j session hsession
    · cases ht
    · exact h.started j old t hsome (htrx.symm.trans ht)
  · intro j session hsession
    obtain rfl | ⟨old, hsome, htrx, hflags⟩ := hold j session hsession
    · refine iff_of_false (by simp [Session.Busy]) ?_
      rintro ⟨t, ⟨⟩, -⟩
    · rw [hflags, htrx]
      exact h.busy j old hsome

/-- A call whose transaction does as its session needs it keeps the invariant. -/
theorem Inv.called (h : Inv server) {e : Event D} {i : SessionId} {session : Session}
    (hsession : server.sessions i = some session) {s' : State D} (hinv' : Mvcc.Inv s')
    (horderly' : Mvcc.Orderly s')
    (hown : 0 < s'.id (server.currentTrx session).1
      ∧ ((e.next session).Busy ↔ s'.Active (server.currentTrx session).1))
    (hothers : ∀ u, u ≠ (server.currentTrx session).1 → s'.trxes u = server.state.trxes u) :
  Inv (server.called i session e s')
  := by
  -- the object is that of the session, or it is made now
  have hcreated : server.created ≤ (server.currentTrx session).2
      ∧ (server.currentTrx session).1 < (server.currentTrx session).2
      ∧ ∀ j session' t, server.sessions j = some session' → session'.trx = some t → j ≠ i →
        t ≠ (server.currentTrx session).1 := by
    obtain ⟨t, ht, hcurrent⟩ | ⟨hnone, hcurrent⟩ := currentTrx_eq server session
    · rw [hcurrent]
      refine ⟨le_rfl, h.below i session t hsession ht, ?_⟩
      rintro j session' t' hsession' ht' hne rfl
      exact hne (h.distinct j i session' session t' hsession' hsession ht' ht)
    · rw [hcurrent]
      refine ⟨Nat.le_succ _, Nat.lt_succ_self _, ?_⟩
      intro j session' t' hsession' ht' _
      exact Nat.ne_of_lt (h.below j session' t' hsession' ht')
  obtain ⟨hle, hlt, hfree⟩ := hcreated
  have hold : ∀ j session', (server.called i session e s').sessions j = some session' →
      (j = i ∧ session' = { e.next session with trx := some (server.currentTrx session).1 })
      ∨ (j ≠ i ∧ server.sessions j = some session') := by
    intro j session' hsession'
    rw [called_sessions] at hsession'
    split_ifs at hsession' with hj
    · exact .inl ⟨hj, (Option.some.inj hsession').symm⟩
    · exact .inr ⟨hj, hsession'⟩
  constructor
  · exact hinv'
  · exact horderly'
  · intro t ht
    have hle' : (server.currentTrx session).2 ≤ t := ht
    exact (hothers t (hlt.trans_le hle').ne').trans (h.fresh t (hle.trans hle'))
  · intro j session' t hsession' ht
    obtain ⟨-, rfl⟩ | ⟨-, hsome⟩ := hold j session' hsession'
    · cases ht
      exact hlt
    · exact (h.below j session' t hsome ht).trans_le hle
  · intro j k session' session'' t hsession' hsession'' ht ht'
    obtain ⟨rfl, rfl⟩ | ⟨hj, hsome⟩ := hold j session' hsession'
    · obtain ⟨rfl, -⟩ | ⟨hk, hsome'⟩ := hold k session'' hsession''
      · rfl
      · cases ht
        exact absurd rfl (hfree k session'' _ hsome' ht' hk)
    · obtain ⟨rfl, rfl⟩ | ⟨hk, hsome'⟩ := hold k session'' hsession''
      · cases ht'
        exact absurd rfl (hfree j session' _ hsome ht hj)
      · exact h.distinct j k session' session'' t hsome hsome' ht ht'
  · intro j session' t hsession' ht
    obtain ⟨-, rfl⟩ | ⟨hj, hsome⟩ := hold j session' hsession'
    · cases ht
      exact hown.1
    · have hid : s'.id t = server.state.id t :=
        congrArg Mvcc.MvccTrx.trxId (hothers t (hfree j session' t hsome ht hj))
      have hpos := h.started j session' t hsome ht
      rwa [← hid] at hpos
  · intro j session' hsession'
    obtain ⟨-, rfl⟩ | ⟨hj, hsome⟩ := hold j session' hsession'
    · apply hown.2.trans
      constructor
      · exact fun hactive => ⟨_, rfl, hactive⟩
      · rintro ⟨t, ht, hactive⟩
        cases ht
        exact hactive
    · rw [h.busy j session' hsome]
      apply exists_congr
      intro t
      apply and_congr_right
      intro ht
      have hsame : s'.Active t ↔ server.state.Active t := by
        rw [State.Active, State.Active, hothers t (hfree j session' t hsome ht hj)]
      exact hsame.symm

theorem Inv.step (h : Inv server) {e : Event D} (hstep : Step server e server') :
  Inv server'
  := by
  obtain ⟨session, c, hsession, hcall, ⟨rc, hexec⟩, hserver⟩ | ⟨session', hquiet, rfl⟩ := hstep.cases
  · have hadm := hstep.1
    have hs : Mvcc.Step server.state c server'.state := ⟨h.admissible hadm hsession hcall, rc, hexec⟩
    have hinv' := h.state.step (Mvcc.counterOk_of_lt hstep.2.1 c) hs
    have horderly' := h.orderly.step h.state hs
    have hown := h.own_step hadm hsession hcall hs hinv'
    have hothers : ∀ u, u ≠ (server.currentTrx session).1 →
        server'.state.trxes u = server.state.trxes u := by
      intro u hne
      rw [← Event.call_trx hcall] at hne
      exact Mvcc.trxes_step h.state.recovering hs hne
    rw [hserver]
    exact h.called hsession hinv' horderly' hown hothers
  · exact h.quiet_step hquiet

theorem inv_of_run {h : List (Server D × Event D)} (hrun : Run Step Server.init h server) :
  Inv server
  :=
  hrun.invariant inv_init fun _ _ _ hinv hstep => hinv.step hstep

/-! ### When the server stops -/

/-- The event ends the transaction of its session. -/
def Event.EndsTrx (session : Session) : Event D → Prop
  | .trxEnd _ _ => True
  | .closeResult _ _ => session.multiOperation = false
  | _ => False

theorem Event.ends_iff {session : Session} {t : TrxRef} {e : Event D} {c : Mvcc.Event D}
    (h : e.call session t = some c) :
  c.Ends ↔ e.EndsTrx session
  := by
  cases e with
  | trxEnd i isCommit =>
    cases h
    cases isCommit <;> exact Iff.rfl
  | closeResult i closed =>
    rw [Event.call] at h
    split_ifs at h with hmulti hclosed <;> cases h <;> simp [EndsTrx, Mvcc.Event.Ends, hmulti]
  | connect i => cases h
  | dropResult i => cases h
  | disconnect i => cases h
  | _ =>
    cases h
    exact Iff.rfl

theorem not_endsTrx_of_call {session : Session} {t : TrxRef} {e : Event D}
    (h : e.call session t = none) :
  ¬ e.EndsTrx session
  := by
  cases e <;> simp_all [Event.call, Event.EndsTrx]

/-- In every run of the sessions, an event stops the server exactly when it ends the transaction
of a session that has had none, as a COMMIT in a new connection does, or of one that has deleted
a record twice which it had inserted itself. -/
theorem server_stops_iff {h : List (Server D × Event D)} (hrun : Run Step Server.init h server)
    (e : Event D) (hadm : Admissible server e) (hcount : server.state.currentTrxId < int32Max) :
  (∃ failure, exec server e = .error failure)
    ↔ ∃ session, server.sessions e.sessionId = some session ∧ e.EndsTrx session
      ∧ ∀ t, session.trx = some t → Mvcc.DeletedTwice server.state t
  := by
  have hinv := inv_of_run hrun
  rw [exec]
  cases hsession : server.sessions e.sessionId with
  | none => simp
  | some session =>
    simp only [Option.some.injEq, exists_eq_left']
    cases hcall : e.call session (server.currentTrx session).1 with
    | none =>
      refine iff_of_false ?_ fun hends => not_endsTrx_of_call hcall hends.1
      cases e with
      | connect i => simp [handle]
      | dropResult i => simp [handle, dropResult]
      | disconnect i => simp [handle]
      | closeResult i closed =>
        rw [Event.call] at hcall
        split_ifs at hcall with hmulti
        simp [handle, closeResult, hmulti]
      | _ => cases hcall
    | some c =>
      have hsame : (∃ failure, handle server e.sessionId session e = .error failure)
          ↔ ∃ failure, Mvcc.exec server.state c = .error failure := by
        have hmap := handle_map_snd (i := e.sessionId) hcall
        cases hhandle : handle server e.sessionId session e <;>
          cases hexec : Mvcc.exec server.state c <;> simp_all [Except.map]
      rw [hsame, Mvcc.exec_fails_iff hinv.state hinv.orderly (Mvcc.counterOk_of_lt hcount c)
        (hinv.admissible hadm hsession hcall), Event.call_trx hcall, Event.ends_iff hcall]
      apply and_congr_right
      intro hends
      obtain ⟨t, ht, hcurrent⟩ | ⟨hnone, hcurrent⟩ := currentTrx_eq server session
      · have hpos := hinv.started _ session t hsession ht
        rw [hcurrent, ht]
        simp [not_le.mpr hpos]
      · have hfresh := hinv.fresh server.created le_rfl
        rw [hcurrent, hnone]
        simp [State.id, hfresh]

/-- A COMMIT in a new connection stops the server. -/
theorem server_stops_commit :
  ∃ failure, exec ((Server.init : Server Unit).setSession 0 (some {})) (.trxEnd 0 true)
    = .error failure
  := by
  have hrun : Run Step (Server.init : Server Unit) [(.init, .connect 0)] _ :=
    Run.refl.tail ⟨rfl, by decide, .success, rfl⟩
  exact (server_stops_iff hrun (.trxEnd 0 true) ⟨{}, rfl, rfl⟩ (by decide)).mpr
    ⟨{}, rfl, trivial, nofun⟩

end MiniOB.Sessions
