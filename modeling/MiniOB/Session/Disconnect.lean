import MiniOB.Session.Lifecycle

/-!
# Connections that are lost within a transaction

`Session::~Session` destroys the transaction object and leaves the transaction as it is. Nobody
sees what it has inserted, or misses what it has deleted. But the records stay locked: no other
session can delete them as long as the server runs.
-/

namespace MiniOB.Sessions

open Mvcc (TrxRef State maxTrxId view rollbackEffect)
open Transition

variable {D : Type} {server server' : Server D} {t : TrxRef}

/-- No session has the transaction object any more. -/
def Lost (t : TrxRef) (server : Server D) : Prop :=
  t < server.created
    ∧ ∀ i session, server.sessions i = some session → session.trx ≠ some t

theorem Lost.ne_currentTrx (h : Lost t server) {i : SessionId} {session : Session}
    (hsession : server.sessions i = some session) :
  (server.currentTrx session).1 ≠ t
  := by
  obtain ⟨t', ht', hcurrent⟩ | ⟨-, hcurrent⟩ := currentTrx_eq server session
  · rw [hcurrent]
    rintro rfl
    exact h.2 i session hsession ht'
  · rw [hcurrent]
    exact h.1.ne'

/-- The object is lost for good, and the calls of the sessions are about others. -/
theorem Lost.step (h : Lost t server) (hinv : Inv server) (hactive : server.state.Active t)
    {e : Event D} (hstep : Step server e server') :
  Lost t server' ∧ Mvcc.Rests t server.state server'.state
  := by
  obtain ⟨session, c, hsession, hcall, ⟨rc, hexec⟩, hserver⟩ | ⟨session', hquiet, rfl⟩ := hstep.cases
  · have hne := h.ne_currentTrx hsession
    constructor
    · rw [hserver]
      obtain ⟨t', ht', hcurrent⟩ | ⟨-, hcurrent⟩ := currentTrx_eq server session
      all_goals
        rw [hcurrent] at hne
        constructor
        · rw [Server.called, hcurrent]
          first | exact h.1 | exact h.1.trans (Nat.lt_succ_self _)
        · intro j session' hsome
          rw [called_sessions] at hsome
          split_ifs at hsome
          · cases hsome
            rw [hcurrent]
            exact fun heq => hne (Option.some.inj heq)
          · exact h.2 j session' hsome
    · have hs : Mvcc.Step server.state c server'.state :=
        ⟨hinv.admissible hstep.1 hsession hcall, rc, hexec⟩
      refine Mvcc.rests_step hinv.state hactive (Mvcc.counterOk_of_lt hstep.2.1 c) ?_ hs
      rw [Event.call_trx hcall]
      exact hne
  · refine ⟨⟨h.1, ?_⟩, Mvcc.Rests.refl hactive⟩
    intro j session hsome
    rw [setSession_sessions] at hsome
    split_ifs at hsome with hj
    · cases hquiet with
      | connect i _ =>
        cases hsome
        simp
      | disconnect i _ _ _ => cases hsome
      | closeResult i old closed hold _ =>
        cases hsome
        exact h.2 i old hold
      | dropResult i old hold _ =>
        cases hsome
        exact h.2 i old hold
    · exact h.2 j session hsome

theorem Lost.run (h : Lost t server) (hinv : Inv server) (hactive : server.state.Active t)
    {es : List (Server D × Event D)} (hrun : Run Step server es server') :
  Inv server' ∧ Lost t server' ∧ Mvcc.Rests t server.state server'.state
  := by
  apply hrun.invariant ⟨hinv, h, Mvcc.Rests.refl hactive⟩
  rintro server₁ e server₂ ⟨hinv₁, hlost, hrests⟩ hstep
  obtain ⟨hlost', hrests'⟩ := hlost.step hinv₁ hrests.active hstep
  exact ⟨hinv₁.step hstep, hlost', hrests.trans hrests'⟩

/-- A session that disconnects within its transaction loses it. -/
theorem Inv.lost (h : Inv server) {i : SessionId} {session : Session}
    (hsession : server.sessions i = some session) (ht : session.trx = some t) :
  Lost t (server.setSession i none)
  := by
  refine ⟨h.below i session t hsession ht, ?_⟩
  intro j session' hsome ht'
  rw [setSession_sessions] at hsome
  split_ifs at hsome with hj
  exact hj (h.distinct j i session' session t hsome hsession ht' ht)

/-! ### The active transactions -/

/-- The transaction is that of a busy session. -/
def InSession (server : Server D) (t : TrxRef) : Prop :=
  ∃ i session, server.sessions i = some session ∧ session.trx = some t ∧ session.Busy

/-- The session of the transaction was busy when it disconnected. -/
def LostIn (h : List (Server D × Event D)) (t : TrxRef) : Prop :=
  ∃ server i session, (server, .disconnect i) ∈ h ∧ server.sessions i = some session
    ∧ session.trx = some t ∧ session.Busy

/-- What an event leaves active was active, and stays in its session unless that disconnects. -/
theorem Inv.inSession_step (h : Inv server) {e : Event D} (hstep : Step server e server')
    (hactive : server'.state.Active t) :
  InSession server' t ∨ (server.state.Active t
    ∧ (InSession server t → LostIn [(server, e)] t))
  := by
  have hinv' := h.step hstep
  have hmine : ∀ i session, server'.sessions i = some session → session.trx = some t →
      InSession server' t := by
    intro i session hsession ht
    exact ⟨i, session, hsession, ht, (hinv'.busy i session hsession).mpr ⟨t, ht, hactive⟩⟩
  obtain ⟨session, c, hsession, hcall, ⟨rc, hexec⟩, hserver⟩ | ⟨session', hquiet, rfl⟩ := hstep.cases
  · have hsessions : server'.sessions = Function.update server.sessions e.sessionId
        (some { e.next session with trx := some (server.currentTrx session).1 }) := by
      rw [hserver]
      rfl
    by_cases hcurrent : (server.currentTrx session).1 = t
    · left
      apply hmine e.sessionId
      · rw [hsessions, Function.update_self]
      · rw [hcurrent]
    · have hs : Mvcc.Step server.state c server'.state :=
        ⟨h.admissible hstep.1 hsession hcall, rc, hexec⟩
      have hsame : server'.state.trxes t = server.state.trxes t := by
        apply Mvcc.trxes_step h.state.recovering hs
        rw [Event.call_trx hcall]
        exact Ne.symm hcurrent
      by_cases hin : InSession server t
      · -- its session is not that of the event
        obtain ⟨j, old, hold, ht, -⟩ := hin
        left
        apply hmine j old _ ht
        rw [hsessions, Function.update_of_ne, hold]
        rintro rfl
        cases hold.symm.trans hsession
        rw [Server.currentTrx, ht] at hcurrent
        exact hcurrent rfl
      · right
        rw [State.Active, hsame] at hactive
        exact ⟨hactive, fun hin' => absurd hin' hin⟩
  · by_cases hin : InSession server t
    · obtain ⟨j, old, hold, ht, hbusy⟩ := hin
      by_cases hj : j = e.sessionId
      · subst hj
        cases hquiet with
        | connect i hnone => cases hold.symm.trans hnone
        | disconnect i session hsession hidle =>
          cases hold.symm.trans hsession
          right
          exact ⟨hactive, fun _ => ⟨server, i, old, List.mem_singleton_self _, hold, ht, hbusy⟩⟩
        | closeResult i session closed hsession hmulti =>
          cases hold.symm.trans hsession
          left
          apply hmine i { old with running := false } _ ht
          exact Function.update_self _ _ _
        | dropResult i session hsession hrunning =>
          cases hold.symm.trans hsession
          left
          apply hmine i { old with running := false, dropped := true } _ ht
          exact Function.update_self _ _ _
      · left
        apply hmine j old _ ht
        exact (Function.update_of_ne hj _ _).trans hold
    · exact .inr ⟨hactive, fun hin' => absurd hin' hin⟩

/-- In every run of the sessions, the transactions that are active at its end are exactly those
of the busy sessions, and those of the sessions that were busy when they disconnected. -/
theorem active_iff {h : List (Server D × Event D)} (hrun : Run Step Server.init h server) :
  server.state.Active t ↔ InSession server t ∨ LostIn h t
  := by
  constructor
  · induction hrun with
    | refl => exact nofun
    | tail hrun hlast ih =>
      intro hactive
      obtain hin | ⟨hactive', hlost⟩ := (inv_of_run hrun).inSession_step hlast hactive
      · exact .inl hin
      · right
        obtain hin | ⟨server₀, i, session, hmem, hrest⟩ := ih hactive'
        · obtain ⟨server₀, i, session, hmem, hrest⟩ := hlost hin
          exact ⟨server₀, i, session, List.mem_cons.mpr (.inl (List.mem_singleton.mp hmem)), hrest⟩
        · exact ⟨server₀, i, session, List.mem_cons_of_mem _ hmem, hrest⟩
  · rintro (⟨i, session, hsession, ht, hbusy⟩ | ⟨server₀, i, session, hmem, hsession, ht, hbusy⟩)
    · obtain ⟨u, hu, hactive⟩ := ((inv_of_run hrun).busy i session hsession).mp hbusy
      cases ht.symm.trans hu
      exact hactive
    · -- from its session's end on, the transaction rests
      obtain ⟨h₁, h₀, rfl⟩ := List.append_of_mem hmem
      obtain ⟨server₁, hrun₁, hlater⟩ := hrun.split
      cases hrun₁ with
      | tail hrun₀ hlast =>
        have hinv := inv_of_run hrun₀
        obtain ⟨u, hu, hactive⟩ := (hinv.busy i session hsession).mp hbusy
        cases ht.symm.trans hu
        have hserver : server₁ = server₀.setSession i none := by
          obtain ⟨-, -, rc, hexec⟩ := hlast
          rw [exec] at hexec
          dsimp only [Event.sessionId] at hexec
          rw [hsession] at hexec
          cases hexec
          rfl
        subst hserver
        have hrests := (hinv.lost hsession ht).run (hinv.step hlast) hactive hlater
        exact hrests.2.2.active

/-- A transaction is active after a result was dropped that could not be opened. -/
theorem active_after_drop :
  let es : List (Event Unit) := [.connect 0, .openResult 0 .nomem, .dropResult 0]
  (es.foldl Server.after Server.init).state.Active 0
  := by
  intro es
  obtain ⟨h, hrun⟩ := run_of_allReturn (show AllReturn Server.init es by decide +kernel)
  exact (active_iff hrun).mpr (.inl ⟨0, _, rfl, rfl, .inr (.inr rfl)⟩)

/-! ### Locked records -/

/-- What a running statement is told that wants to delete a record of a lost transaction. -/
theorem Inv.deleteRecord_of_lost (h : Inv server) (hlost : Lost t server) {op : Mvcc.Operation}
    (hop : op ∈ server.state.ops t) {j : SessionId} {session : Session}
    (hsession : server.sessions j = some session) (hrunning : session.running = true) :
  exec server (.deleteRecord j op.place)
    = .ok (if ⟨.insert, op.place⟩ ∈ server.state.ops t then .recordInvisible
        else .lockedConcurrencyConflict, server)
  := by
  obtain ⟨u, hu, hcurrent, hactive⟩ := h.active_of_running hsession hrunning
  have hne : u ≠ t := by
    rintro rfl
    exact hlost.2 j session hsession hu
  obtain ⟨r, hr, hxid⟩ := h.state.record_of_op hop
  have hpos := h.state.id_pos t (h.state.active_of_mem t op hop)
  have hbegin : r.beginXid < 0 ↔ ⟨.insert, op.place⟩ ∈ server.state.ops t := by
    constructor
    · intro hneg
      obtain hb | ⟨hb, -⟩ := hxid
      · exact h.state.mem_insert hr (h.state.active_of_mem t op hop) hb
      · omega
    · intro hins
      have := h.state.begin_of_mem hr hins
      omega
  have hvisit := h.state.visit_of_op hop hactive hne hr
  simp only [hbegin] at hvisit
  -- nothing changes, neither the session nor the transaction
  have hsame : Function.update server.sessions j (some { session with trx := some u })
      = server.sessions := by
    rw [← hu]
    exact Function.update_eq_self_iff.mpr hsession.symm
  have hdelete : Mvcc.deleteRecord u op.place server.state
      = .ok (if ⟨.insert, op.place⟩ ∈ server.state.ops t then .recordInvisible
        else .lockedConcurrencyConflict, server.state) := by
    rw [Mvcc.deleteRecord, hr]
    rw [State.id] at hvisit
    dsimp only
    rw [hvisit]
    split_ifs <;> rfl
  rw [exec]
  dsimp only [Event.sessionId]
  rw [hsession]
  dsimp only
  rw [handle, Server.call]
  rw [hcurrent, hdelete, Except.map, hsame]

/-- When a session disconnects within a transaction, then in every later run the records that
the transaction has inserted or deleted stay as they are, no session can delete them, and readers
that start later see the rows as if the transaction had been rolled back. -/
theorem disconnect_locks {h es : List (Server D × Event D)}
    (hrun : Run Step Server.init h server) {i : SessionId} {session : Session}
    (hsession : server.sessions i = some session) (hidle : session.running = false)
    (ht : session.trx = some t) (hactive : server.state.Active t)
    (hlater : Run Step (server.setSession i none) es server') :
  (∀ op ∈ server.state.ops t,
      server'.state.store op.place = server.state.store op.place
      ∧ ∀ j session', server'.sessions j = some session' → session'.running = true →
        exec server' (.deleteRecord j op.place)
          = .ok (if ⟨.insert, op.place⟩ ∈ server.state.ops t then .recordInvisible
              else .lockedConcurrencyConflict, server'))
    ∧ ∀ id, server.state.currentTrxId < id → id ≤ maxTrxId → ∀ p,
      view server'.state.store id p
        = view (rollbackEffect (server.state.ops t) server'.state.store) id p
  := by
  have hinv := inv_of_run hrun
  have hgone : Inv (server.setSession i none) :=
    hinv.quiet_step (.disconnect i session hsession hidle)
  obtain ⟨hinv', hlost, hrests⟩ := (hinv.lost hsession ht).run hgone hactive hlater
  constructor
  · intro op hop
    refine ⟨hrests.store op hop, ?_⟩
    intro j session' hsession' hrunning
    have hops : server'.state.ops t = server.state.ops t := hrests.ops
    rw [← hops] at hop ⊢
    exact hinv'.deleteRecord_of_lost hlost hop hsession' hrunning
  · exact fun id hid hmax p => Mvcc.view_of_rests hinv.state hinv'.state hrests hid hmax p

/-- A record that a lost connection has inserted cannot be deleted by the next one. -/
theorem disconnect_locks_insert :
  let before : List (Event Unit) := [.connect 0, .trxBegin 0, .openResult 0 .success,
    .insertRecord 0 0 (.ok ⟨1, 0⟩) (), .closeResult 0 .success]
  let after : List (Event Unit) := [.connect 1, .openResult 1 .success]
  let server := after.foldl Server.after ((before.foldl Server.after .init).setSession 0 none)
  exec server (.deleteRecord 1 ⟨0, 1, 0⟩) = .ok (.recordInvisible, server)
  := by
  intro before after server
  obtain ⟨h, hrun⟩ := run_of_allReturn (show AllReturn Server.init before by decide +kernel)
  obtain ⟨es, hlater⟩ := run_of_allReturn
    (show AllReturn ((before.foldl Server.after .init).setSession 0 none) after by decide +kernel)
  have hlocked := (disconnect_locks hrun (t := 0) (i := 0) rfl rfl rfl rfl hlater).1
    ⟨.insert, ⟨0, 1, 0⟩⟩ (by decide +kernel)
  exact hlocked.2 1 _ rfl rfl

end MiniOB.Sessions
