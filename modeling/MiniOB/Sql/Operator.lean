import MiniOB.Common

/-!
# Physical operators

`PhysicalOperator` of `sql/operator/physical_operator.h`: an object with `open`, `next`, `close`
and `current_tuple`. The transaction that `open` hands on to the children is left out. A call
that ends by an exception or a failed assertion answers nothing. A `Cursor` says what an
operator promises that delivers the same rows at every opening.
-/

namespace MiniOB.Sql

/-- `PhysicalOperator`, with the tuples that it delivers. -/
structure PhysicalOperator (α : Type) where
  State : Type
  /-- The operator as it is built. -/
  init : State
  open' : State → Option (RC × State)
  next : State → Option (RC × State)
  close : State → Option (RC × State)
  currentTuple : State → Option α

namespace PhysicalOperator

variable {α : Type} (O : PhysicalOperator α)

/-- What calls of `next` answer, each with the tuple there is after a `SUCCESS`. -/
def fetch : Nat → O.State → Option (List (RC × Option α) × O.State)
  | 0, s => some ([], s)
  | n + 1, s => do
    let (rc, s) ← O.next s
    let tuple := if rc = .success then O.currentTuple s else none
    let (rest, s) ← fetch n s
    return ((rc, tuple) :: rest, s)

/-- What the calls of one opening answer. -/
structure Session (α : Type) where
  opened : RC
  fetched : List (RC × Option α)
  closed : RC

/-- An opening, so many calls of `next`, and a closing. -/
def session (n : Nat) (s : O.State) : Option (Session α × O.State) := do
  let (opened, s) ← O.open' s
  let (fetched, s) ← O.fetch n s
  let (closed, s) ← O.close s
  return (⟨opened, fetched, closed⟩, s)

/-- One opening after the other, each closed after so many calls of `next`. -/
def sessions : List Nat → O.State → Option (List (Session α))
  | [], _ => some []
  | n :: ns, s => do
    let (first, s) ← O.session n s
    let rest ← sessions ns s
    return first :: rest

/-- The operator delivers these rows at every opening, and `RECORD_EOF` from then on. Nothing is
said of an operator that is opened twice, or used after it has been closed. -/
structure Cursor (rows : List α) where
  Closed : O.State → Prop
  /-- The operator is open, and these rows are still to come. -/
  At : List α → O.State → Prop
  closed_init : Closed O.init
  open_closed : ∀ {s}, Closed s → ∃ s', O.open' s = some (.success, s') ∧ At rows s'
  next_cons : ∀ {row rest s}, At (row :: rest) s →
    ∃ s', O.next s = some (.success, s') ∧ O.currentTuple s' = some row ∧ At rest s'
  next_nil : ∀ {s}, At [] s → ∃ s', O.next s = some (.recordEof, s') ∧ At [] s'
  close_at : ∀ {rest s}, At rest s → ∃ s', O.close s = some (.success, s') ∧ Closed s'

/-- What so many calls of `next` answer where these rows are to come. -/
def answers (rows : List α) (n : Nat) : List (RC × Option α) :=
  (rows.take n).map (fun row => (.success, some row))
    ++ List.replicate (n - rows.length) (.recordEof, none)

/-! ### What a cursor delivers -/

variable {O} {rows : List α}

theorem Cursor.fetch_eq (C : Cursor O rows) : ∀ (n : Nat) {rest : List α} {s : O.State},
    C.At rest s → ∃ s' rest', O.fetch n s = some (answers rest n, s') ∧ C.At rest' s' := by
  intro n
  induction n with
  | zero =>
    intro rest s h
    use s, rest
    constructor
    · rw [answers, List.take_zero, Nat.zero_sub]
      rfl
    · exact h
  | succ n ih =>
    intro rest s h
    cases rest with
    | nil =>
      obtain ⟨s', hnext, hs'⟩ := C.next_nil h
      obtain ⟨s'', rest', hfetch, hs''⟩ := ih hs'
      use s'', rest'
      constructor
      · simp [fetch, hnext, hfetch, answers, List.replicate_succ]
      · exact hs''
    | cons row rest =>
      obtain ⟨s', hnext, htuple, hs'⟩ := C.next_cons h
      obtain ⟨s'', rest', hfetch, hs''⟩ := ih hs'
      use s'', rest'
      constructor
      · simp [fetch, hnext, hfetch, htuple, answers]
      · exact hs''

theorem Cursor.session_eq (C : Cursor O rows) (n : Nat) {s : O.State} (h : C.Closed s) :
  ∃ s', O.session n s = some (⟨.success, answers rows n, .success⟩, s') ∧ C.Closed s'
  := by
  obtain ⟨s₁, hopen, h₁⟩ := C.open_closed h
  obtain ⟨s₂, rest, hfetch, h₂⟩ := C.fetch_eq n h₁
  obtain ⟨s₃, hclose, h₃⟩ := C.close_at h₂
  use s₃
  constructor
  · simp [session, hopen, hfetch, hclose]
  · exact h₃

/-- Every opening delivers the rows, wherever the one before it was closed. -/
theorem Cursor.sessions_eq (C : Cursor O rows) : ∀ (ns : List Nat) {s : O.State}, C.Closed s →
    O.sessions ns s = some (ns.map fun n => ⟨.success, answers rows n, .success⟩) := by
  intro ns
  induction ns with
  | nil =>
    intro s _
    rfl
  | cons n ns ih =>
    intro s h
    obtain ⟨s', hsession, h'⟩ := C.session_eq n h
    simp [sessions, hsession, ih h']

end PhysicalOperator

/-! ### Rows in memory -/

/-- An operator over rows in memory, with those still to come after the last one delivered. It
answers nothing if it is opened twice or used when it is closed. -/
def RowsOperator {α : Type} (rows : List α) : PhysicalOperator α where
  State := Option (List α × Option α)
  init := none
  open' s :=
    match s with
    | none => some (.success, some (rows, none))
    | some _ => none
  next s :=
    match s with
    | some (row :: rest, _) => some (.success, some (rest, some row))
    | some ([], last) => some (.recordEof, some ([], last))
    | none => none
  close s :=
    match s with
    | some _ => some (.success, none)
    | none => none
  currentTuple s := s.bind (·.2)

/-- It delivers its rows. -/
def RowsOperator.cursor {α : Type} (rows : List α) : (RowsOperator rows).Cursor rows where
  Closed s := s = none
  At rest s := ∃ last, s = some (rest, last)
  closed_init := rfl
  open_closed := by
    rintro s rfl
    exact ⟨_, rfl, none, rfl⟩
  next_cons := by
    rintro row rest s ⟨last, rfl⟩
    exact ⟨_, rfl, rfl, some row, rfl⟩
  next_nil := by
    rintro s ⟨last, rfl⟩
    exact ⟨_, rfl, last, rfl⟩
  close_at := by
    rintro rest s ⟨last, rfl⟩
    exact ⟨_, rfl, rfl⟩

end MiniOB.Sql
