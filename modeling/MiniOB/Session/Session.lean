import MiniOB.Trx.Endings

/-!
# Sessions

`Session` of `session/session.cpp`, with the executors of BEGIN, COMMIT and ROLLBACK and with
`SqlResult::open` and `SqlResult::close`, between which the operators of a statement insert and
delete records. A communicator that cannot go on drops an opened result without closing it. A
session handles one request after the other. The calls of the sessions interleave.
-/

namespace MiniOB.Sessions

open Mvcc (TrxRef State AssertFailure Outcome)
open Transition

variable {D : Type}

/-! ### The server -/

/-- The identity of a connection. -/
abbrev SessionId := Nat

/-- `Session`: `trx_` and `trx_multi_operation_mode_`, whether the operators of a statement are
open, and whether an opened result was dropped since a transaction of the session last ended. -/
structure Session where
  trx : Option TrxRef := none
  multiOperation : Bool := false
  running : Bool := false
  dropped : Bool := false
  deriving DecidableEq, Repr

/-- The session is between BEGIN and its end, runs a statement, or has dropped a result. -/
def Session.Busy (session : Session) : Prop :=
  session.multiOperation = true ∨ session.running = true ∨ session.dropped = true

/-- The transaction system, the number of objects that `create_trx` has made for the sessions,
and the sessions of the connections. -/
structure Server (D : Type) where
  state : State D
  created : TrxRef
  sessions : SessionId → Option Session

/-- A server without connections. -/
def Server.init : Server D where
  state := .init
  created := 0
  sessions := fun _ => none

/-- Replace a session, or remove it. -/
def Server.setSession (server : Server D) (i : SessionId) (session : Option Session) : Server D :=
  { server with sessions := Function.update server.sessions i session }

/-- `Session::current_trx`, with the number of objects that have been made then. -/
def Server.currentTrx (server : Server D) (session : Session) : TrxRef × TrxRef :=
  match session.trx with
  | some t => (t, server.created)
  | none => (server.created, server.created + 1)

/-- A call on the transaction of a session, which becomes `session`. -/
def Server.call (server : Server D) (i : SessionId) (session : Session)
    (f : TrxRef → State D → Outcome D) : Except AssertFailure (RC × Server D) :=
  let current := server.currentTrx session
  (f current.1 server.state).map fun out =>
    (out.1, { state := out.2, created := current.2
              sessions := Function.update server.sessions i
                (some { session with trx := some current.1 }) })

variable (server : Server D) (i : SessionId) (session : Session)

/-- `TrxBeginExecutor::execute`. -/
def trxBegin : Except AssertFailure (RC × Server D) :=
  server.call i { session with multiOperation := true } Mvcc.startIfNeed

/-- `TrxEndExecutor::execute`, of a COMMIT or of a ROLLBACK. -/
def trxEnd (isCommit : Bool) : Except AssertFailure (RC × Server D) :=
  server.call i { session with multiOperation := false, dropped := false }
    (if isCommit then Mvcc.commit else Mvcc.rollback)

/-- `SqlResult::open`, where the operators answer `opened`. -/
def openResult (opened : RC) : Except AssertFailure (RC × Server D) :=
  (server.call i { session with running := true } Mvcc.startIfNeed).map fun out => (opened, out.2)

/-- `MysqlCommunicator::write_result` does not close the result when `open` fails, and
`PlainCommunicator::write_result_internal` does not when it cannot write a delimiter. -/
def dropResult : Except AssertFailure (RC × Server D) :=
  .ok (.success, server.setSession i (some { session with running := false, dropped := true }))

/-- `SqlResult::close`, where the operators answer `closed`. -/
def closeResult (closed : RC) : Except AssertFailure (RC × Server D) :=
  if session.multiOperation then
    .ok (closed, server.setSession i (some { session with running := false }))
  else if closed = .success then
    server.call i { session with running := false, dropped := false } Mvcc.commit
  else
    (server.call i { session with running := false, dropped := false } Mvcc.rollback).map fun out =>
      (closed, out.2)

/-- An event of a connection: it is made, a request or a call of an operator is handled, or it is
gone. -/
inductive Event (D : Type) where
  | connect (i : SessionId)
  | trxBegin (i : SessionId)
  | trxEnd (i : SessionId) (isCommit : Bool)
  | openResult (i : SessionId) (opened : RC)
  | insertRecord (i : SessionId) (table : TableId) (placed : Except RC RID) (data : D)
  | deleteRecord (i : SessionId) (place : Place)
  | closeResult (i : SessionId) (closed : RC)
  | dropResult (i : SessionId)
  | disconnect (i : SessionId)

/-- The connection of an event. -/
def Event.sessionId : Event D → SessionId
  | .connect i => i
  | .trxBegin i => i
  | .trxEnd i _ => i
  | .openResult i _ => i
  | .insertRecord i _ _ _ => i
  | .deleteRecord i _ => i
  | .closeResult i _ => i
  | .dropResult i => i
  | .disconnect i => i

/-- What an event does in a session. `Session::~Session` destroys the transaction object: nobody
calls it any more. -/
def handle : Event D → Except AssertFailure (RC × Server D)
  | .connect _ => .ok (.success, server)
  | .trxBegin _ => trxBegin server i session
  | .trxEnd _ isCommit => trxEnd server i session isCommit
  | .openResult _ opened => openResult server i session opened
  | .insertRecord _ table placed data =>
    server.call i session fun t => Mvcc.insertRecord t table placed data
  | .deleteRecord _ place => server.call i session fun t => Mvcc.deleteRecord t place
  | .closeResult _ closed => closeResult server i session closed
  | .dropResult _ => dropResult server i session
  | .disconnect _ => .ok (.success, server.setSession i none)

/-- The outcome of an event. A new connection gets a session of its own. -/
def exec (e : Event D) : Except AssertFailure (RC × Server D) :=
  match server.sessions e.sessionId with
  | some session => handle server e.sessionId session e
  | none => .ok (.success, server.setSession e.sessionId (some {}))

/-- A session handles one request after the other, and only a running statement inserts and
deletes records. `Table::insert_record` gives out no identifier that is in use. -/
def Admissible : Event D → Prop
  | .connect i => server.sessions i = none
  | .insertRecord i table placed _ =>
    (∃ session, server.sessions i = some session ∧ session.running = true)
      ∧ ∀ rid, placed = .ok rid → server.state.store ⟨table, rid⟩ = none
  | .deleteRecord i _ => ∃ session, server.sessions i = some session ∧ session.running = true
  | .closeResult i _ => ∃ session, server.sessions i = some session ∧ session.running = true
  | .dropResult i => ∃ session, server.sessions i = some session ∧ session.running = true
  | .trxBegin i => ∃ session, server.sessions i = some session ∧ session.running = false
  | .trxEnd i _ => ∃ session, server.sessions i = some session ∧ session.running = false
  | .openResult i _ => ∃ session, server.sessions i = some session ∧ session.running = false
  | .disconnect i => ∃ session, server.sessions i = some session ∧ session.running = false

/-- An event that does not stop the server leads from one state to another, while the counter of
the ids is below the largest 32-bit integer. -/
def Step (server : Server D) (e : Event D) (server' : Server D) : Prop :=
  Admissible server e ∧ server.state.currentTrxId < int32Max
    ∧ ∃ rc, exec server e = .ok (rc, server')

/-! ### Executing events -/

instance (e : Event D) : Decidable (Admissible server e) :=
  have running (i : SessionId) (b : Bool) :
      Decidable (∃ session, server.sessions i = some session ∧ session.running = b) :=
    match h : server.sessions i with
    | none => isFalse (by simp)
    | some session => decidable_of_iff (session.running = b) (by simp)
  match e with
  | .connect i => decidable_of_iff ((server.sessions i).isNone = true) (by simp [Admissible])
  | .insertRecord i table (.ok rid) _ =>
    have := running i true
    decidable_of_iff ((∃ session, server.sessions i = some session ∧ session.running = true)
      ∧ (server.state.store ⟨table, rid⟩).isNone = true) (by simp [Admissible])
  | .insertRecord i table (.error _) _ =>
    have := running i true
    decidable_of_iff (∃ session, server.sessions i = some session ∧ session.running = true)
      (by simp [Admissible])
  | .deleteRecord i _ => running i true
  | .closeResult i _ => running i true
  | .dropResult i => running i true
  | .trxBegin i => running i false
  | .trxEnd i _ => running i false
  | .openResult i _ => running i false
  | .disconnect i => running i false

/-- The server after an event; an event that stops it leaves it as it was. -/
def Server.after (server : Server D) (e : Event D) : Server D :=
  match exec server e with
  | .ok (_, server') => server'
  | .error _ => server

/-- The event is admissible and does not stop the server. -/
def Returns (server : Server D) (e : Event D) : Prop :=
  Admissible server e ∧ server.state.currentTrxId < int32Max ∧ (exec server e).isOk = true

instance (e : Event D) : Decidable (Returns server e) :=
  inferInstanceAs (Decidable (_ ∧ _ ∧ _))

theorem Returns.step {server : Server D} {e : Event D} (h : Returns server e) :
  Step server e (server.after e)
  := by
  obtain ⟨hadm, hcount, hok⟩ := h
  refine ⟨hadm, hcount, ?_⟩
  rw [Server.after]
  cases hexec : exec server e with
  | error failure => simp [hexec, Except.isOk, Except.toBool] at hok
  | ok out => exact ⟨out.1, rfl⟩

/-- The events `es` are admissible and do not stop the server, one after the other. -/
abbrev AllReturn (server : Server D) (es : List (Event D)) : Prop :=
  AllOk Returns Server.after server es

theorem run_of_allReturn {es : List (Event D)} {server : Server D} (h : AllReturn server es) :
  ∃ history, Run Step server history (es.foldl Server.after server)
  := run_of_allOk (fun _ _ => Returns.step) h

end MiniOB.Sessions
