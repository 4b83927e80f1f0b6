import MiniOB.Net.RingBuffer

/-!
# Buffered writers

`BufferedWriter` of `net/buffered_writer.cpp`: what is written goes into a ring buffer, and from
there to a file, in as many calls of `write` as the system needs.
-/

namespace MiniOB.Net

/-- What the system answers to a call of `write`: the number of bytes it has written, or a
failure that is worth another try or is not. -/
inductive WriteResult where
  | wrote (n : Nat)
  | interrupted
  | failed
  deriving DecidableEq, Repr

/-- A buffered writer, the bytes that have reached its file, and the number of calls of
`write` so far. -/
structure BufferedWriter where
  fd : Int
  ring : RingBuffer
  file : List UInt8
  calls : Nat

namespace BufferedWriter

/-- The constructor of `BufferedWriter`. -/
def new (fd : Int) (capacity : Nat) : BufferedWriter where
  fd := fd
  ring := .new capacity
  file := []
  calls := 0

section Calls

/-! The answers of the system depend on the number of the call and on the number of bytes, and
a call is tried again so many times at most. -/

variable (answer : Nat → Nat → WriteResult) (retries : Nat)

/-- The inner loop of `BufferedWriter::flush_internal`: the bytes that are written at last,
unless there is a failure, and the number of calls behind it. -/
def tryWrite (size : Nat) : Nat → Nat → Except Undefined (Option Nat × Nat)
  | retries, calls =>
    match answer calls size, retries with
    | .failed, _ => .ok (none, calls + 1)
    | .wrote (n + 1), _ => .ok (some (n + 1), calls + 1)
    | .wrote 0, 0 | .interrupted, 0 => .error .fuel
    | .wrote 0, retries + 1 | .interrupted, retries + 1 => tryWrite size retries (calls + 1)

/-- The loop of `BufferedWriter::flush_internal`. -/
def flushLoop (size : Int) : Nat → Nat → BufferedWriter → Except Undefined (RC × BufferedWriter)
  | fuel, writeSize, s =>
    if 0 < s.ring.dataSize ∧ (writeSize : Int) < size then
      match fuel with
      | 0 => .error .fuel
      | fuel + 1 => do
        let (pos, readSize) ← s.ring.buffer
        match ← tryWrite answer readSize retries s.calls with
        | (none, calls) => .ok (.ioerrWrite, { s with calls })
        | (some n, calls) => do
          let bytes ← s.ring.copy pos n
          let (_, ring) := s.ring.forward n
          flushLoop size fuel (writeSize + n) { s with ring, file := s.file ++ bytes, calls }
    else .ok (.success, s)

/-- `BufferedWriter::flush_internal`. -/
def flushInternal (size : Int) (s : BufferedWriter) : Except Undefined (RC × BufferedWriter) :=
  if s.fd < 0 then .ok (.invalidArgument, s)
  else flushLoop answer retries size s.ring.dataSize 0 s

/-- The flush of `BufferedWriter::write` in front of a full buffer. -/
def flushFull (size : Int) (s : BufferedWriter) : Except Undefined (RC × BufferedWriter) :=
  if s.ring.remain = 0 then flushInternal answer retries size s else .ok (.success, s)

/-- `BufferedWriter::write`: the code it returns and the number of bytes that it takes. -/
def write (data : Nat → UInt8) (size : Int) (s : BufferedWriter) :
    Except Undefined (RC × Nat × BufferedWriter) :=
  if s.fd < 0 then .ok (.invalidArgument, 0, s)
  else do
    let (rc, s) ← flushFull answer retries size s
    if rc ≠ .success then .ok (rc, 0, s)
    else
      let (rc, writeSize, ring) ← s.ring.write data size
      pure (rc, writeSize, { s with ring })

/-- The loop of `BufferedWriter::writen`. -/
def writenLoop (data : Nat → UInt8) (size : Nat) : Nat → Nat → BufferedWriter →
    Except Undefined (RC × Nat × BufferedWriter)
  | fuel, writeSize, s =>
    if writeSize < size then
      match fuel with
      | 0 => .error .fuel
      | fuel + 1 => do
        let (rc, n, s) ← write answer retries (fun i => data (writeSize + i)) (size - writeSize : Nat) s
        if rc ≠ .success then .ok (rc, writeSize, s)
        else writenLoop data size fuel (writeSize + n) s
    else .ok (.success, writeSize, s)

/-- `BufferedWriter::writen`: the code it returns and the number of bytes that it has taken. -/
def writen (data : Nat → UInt8) (size : Int) (s : BufferedWriter) :
    Except Undefined (RC × Nat × BufferedWriter) :=
  if s.fd < 0 then .ok (.invalidArgument, 0, s)
  else writenLoop answer retries data size.toNat size.toNat 0 s

/-- The loop of `BufferedWriter::flush`. -/
def flushAll : Nat → BufferedWriter → Except Undefined (RC × BufferedWriter)
  | fuel, s =>
    if 0 < s.ring.dataSize then
      match fuel with
      | 0 => .error .fuel
      | fuel + 1 => do
        let (rc, s) ← flushInternal answer retries s.ring.dataSize s
        if rc ≠ .success then .ok (rc, s) else flushAll fuel s
    else .ok (.success, s)

/-- `BufferedWriter::flush`. -/
def flush (s : BufferedWriter) : Except Undefined (RC × BufferedWriter) :=
  if s.fd < 0 then .ok (.invalidArgument, s) else flushAll answer retries s.ring.dataSize s

/-! ### Runs -/

/-- A call of a function of a buffered writer. -/
inductive Call where
  | write (data : Nat → UInt8) (size : Int)
  | writen (data : Nat → UInt8) (size : Int)
  | flush

/-- The call, with the bytes that have been accepted. -/
def Call.exec (accepted : List UInt8) (s : BufferedWriter) :
    Call → Except Undefined (List UInt8 × BufferedWriter)
  | write data size => do
    let (_, n, s) ← s.write answer retries data size
    pure (accepted ++ Memory.read data 0 n, s)
  | writen data size => do
    let (_, n, s) ← s.writen answer retries data size
    pure (accepted ++ Memory.read data 0 n, s)
  | flush => do
    let (_, s) ← s.flush answer retries
    pure (accepted, s)

/-- Calls one after another. -/
def run : List Call → List UInt8 → BufferedWriter → Except Undefined (List UInt8 × BufferedWriter)
  | [], accepted, s => .ok (accepted, s)
  | call :: calls, accepted, s => do
    let (accepted, s) ← call.exec answer retries accepted s
    run calls accepted s

/-- What has reached the file are the first of the bytes that have been accepted, and after a
successful flush all of them; only a writer without a file cannot be flushed. -/
structure Exact (accepted : List UInt8) (s : BufferedWriter) : Prop where
  file : s.file <+: accepted
  flush : ∃ rc s', s.flush answer retries = .ok (rc, s') ∧ (rc = .success → s'.file = accepted)
    ∧ (0 ≤ s.fd → rc = .success)

end Calls

/-- The system writes at least one of the bytes, and no more than there are. -/
def Short (answer : Nat → Nat → WriteResult) : Prop :=
  ∀ call size, 0 < size → ∃ n, answer call size = .wrote n ∧ 0 < n ∧ n ≤ size

/-- A writer is lossless: no run goes wrong, and after every run all is exact. -/
def Lossless (capacity : Nat) : Prop :=
  ∀ answer retries, Short answer → ∀ fd calls, ∃ accepted s,
    run answer retries calls [] (new fd capacity) = .ok (accepted, s)
      ∧ s.Exact answer retries accepted

/-! ### Nothing is lost -/

section Holds

variable {answer : Nat → Nat → WriteResult} {retries : Nat} {s : BufferedWriter}
  {accepted : List UInt8}

/-- What has been accepted has reached the file or is in the buffer. -/
structure Holds (accepted : List UInt8) (s : BufferedWriter) : Prop where
  valid : s.ring.Valid
  contents : accepted = s.file ++ s.ring.contents

theorem tryWrite_of_short (hshort : Short answer) {size : Nat} (hsize : 0 < size) (calls : Nat) :
  ∃ n, tryWrite answer size retries calls = .ok (some n, calls + 1) ∧ 0 < n ∧ n ≤ size
  := by
  obtain ⟨n, hanswer, hpos, hle⟩ := hshort calls size hsize
  obtain ⟨k, rfl⟩ : ∃ k, n = k + 1 := ⟨n - 1, by omega⟩
  refine ⟨k + 1, ?_, hpos, hle⟩
  rw [tryWrite.eq_def]
  dsimp only
  rw [hanswer]

theorem flushLoop_done {size : Int} {fuel writeSize : Nat}
    (hdone : ¬ (0 < s.ring.dataSize ∧ (writeSize : Int) < size)) :
  flushLoop answer retries size fuel writeSize s = .ok (.success, s)
  := by
  rw [flushLoop.eq_def]
  dsimp only
  rw [if_neg hdone]

/-- One turn of the loop of `flush_internal`. -/
theorem flushLoop_turn (hshort : Short answer) {size : Int} {writeSize : Nat}
    (h : s.Holds accepted) (hmore : 0 < s.ring.dataSize ∧ (writeSize : Int) < size) :
  ∃ n s', 0 < n ∧ s'.Holds accepted ∧ s'.fd = s.fd ∧ s'.ring.capacity = s.ring.capacity
    ∧ s'.ring.dataSize + n = s.ring.dataSize
    ∧ ∀ fuel, flushLoop answer retries size (fuel + 1) writeSize s
      = flushLoop answer retries size fuel (writeSize + n) s'
  := by
  obtain ⟨pos, readSize, hbuffer, hfits, hle, hpos, hread⟩ := h.valid.buffer_eq
  obtain ⟨n, hwrite, hnpos, hnle⟩ :=
    @tryWrite_of_short answer retries hshort readSize (hpos hmore.1) s.calls
  obtain ⟨ring', hforward, hvalid, hcapacity, hcontents⟩ := h.valid.forward_eq (hnle.trans hle)
  have hcopy : s.ring.copy pos n = .ok (s.ring.contents.take n) := by
    rw [RingBuffer.copy, if_pos (by omega), hread n hnle]
  have hlength := congrArg List.length hcontents
  rw [List.length_drop, RingBuffer.length_contents, RingBuffer.length_contents] at hlength
  refine ⟨n, { s with
    ring := ring', file := s.file ++ s.ring.contents.take n, calls := s.calls + 1 },
    hnpos, ⟨hvalid, ?_⟩, rfl, hcapacity, ?_, ?_⟩
  · dsimp only
    rw [hcontents, List.append_assoc, List.take_append_drop]
    exact h.contents
  · dsimp only
    omega
  · intro fuel
    rw [flushLoop, if_pos hmore, hbuffer, RingBuffer.ok_bind]
    dsimp only
    rw [hwrite, RingBuffer.ok_bind]
    dsimp only
    rw [hcopy, RingBuffer.ok_bind, hforward]

/-- The loop of `flush_internal` moves bytes from the buffer to the file, and some if it is to
move any. -/
theorem flushLoop_holds (hshort : Short answer) (size : Int) (fuel writeSize : Nat)
    (h : s.Holds accepted) (hfuel : s.ring.dataSize ≤ fuel) :
  ∃ s', flushLoop answer retries size fuel writeSize s = .ok (.success, s') ∧ s'.Holds accepted
    ∧ s'.fd = s.fd ∧ s'.ring.capacity = s.ring.capacity
    ∧ (0 < s.ring.dataSize → writeSize < size → s'.ring.dataSize < s.ring.dataSize)
  := by
  by_cases hmore : 0 < s.ring.dataSize ∧ (writeSize : Int) < size
  · induction fuel generalizing writeSize s with
    | zero => omega
    | succ fuel ih =>
      obtain ⟨n, s₁, hn, h₁, hfd₁, hcapacity₁, hsize₁, hturn⟩ :=
        @flushLoop_turn answer retries _ _ hshort _ _ h hmore
      rw [hturn fuel]
      by_cases hmore₁ : 0 < s₁.ring.dataSize ∧ ((writeSize + n : Nat) : Int) < size
      · obtain ⟨s', hloop, h', hfd, hcapacity, hless⟩ := ih (writeSize + n) h₁ (by omega) hmore₁
        have hless := hless hmore₁.1 hmore₁.2
        exact ⟨s', hloop, h', hfd.trans hfd₁, hcapacity.trans hcapacity₁, fun _ _ => by omega⟩
      · exact ⟨s₁, flushLoop_done hmore₁, h₁, hfd₁, hcapacity₁, fun _ _ => by omega⟩
  · exact ⟨s, flushLoop_done hmore, h, rfl, rfl, fun hpos hlt => absurd ⟨hpos, hlt⟩ hmore⟩

theorem flushInternal_holds (hshort : Short answer) (size : Int) (h : s.Holds accepted)
    (hfd : 0 ≤ s.fd) :
  ∃ s', flushInternal answer retries size s = .ok (.success, s') ∧ s'.Holds accepted
    ∧ s'.fd = s.fd ∧ s'.ring.capacity = s.ring.capacity
    ∧ (0 < s.ring.dataSize → 0 < size → s'.ring.dataSize < s.ring.dataSize)
  := by
  rw [flushInternal, if_neg (not_lt.mpr hfd)]
  exact_mod_cast flushLoop_holds hshort size _ 0 h le_rfl

theorem flushFull_holds (hshort : Short answer) (size : Int) (h : s.Holds accepted)
    (hfd : 0 ≤ s.fd) :
  ∃ s', flushFull answer retries size s = .ok (.success, s') ∧ s'.Holds accepted
    ∧ s'.fd = s.fd ∧ (0 < size → 0 < s'.ring.remain)
  := by
  have hpos := h.valid.pos
  rw [flushFull]
  split_ifs with hfull
  · obtain ⟨s', hflush, h', hfd', hcapacity, hless⟩ := flushInternal_holds hshort size h hfd
    refine ⟨s', hflush, h', hfd', ?_⟩
    intro hsize
    rw [RingBuffer.remain] at hfull ⊢
    have hless := hless (by omega) hsize
    have hle := h.valid.dataSize
    omega
  · exact ⟨s, rfl, h, rfl, fun _ => by omega⟩

/-- `write` takes bytes into the buffer, and some if it is to take any. -/
theorem write_holds (hshort : Short answer) (data : Nat → UInt8) (size : Nat)
    (h : s.Holds accepted) (hfd : 0 ≤ s.fd) :
  ∃ n s', s.write answer retries data size = .ok (.success, n, s')
    ∧ s'.Holds (accepted ++ Memory.read data 0 n) ∧ s'.fd = s.fd ∧ (0 < size → 0 < n)
  := by
  obtain ⟨s₁, hflush, h₁, hfd₁, hroom⟩ := flushFull_holds hshort size h hfd
  obtain ⟨ring', hwrite, hvalid, hcontents⟩ := h₁.valid.write_eq data size
  refine ⟨min size s₁.ring.remain, { s₁ with ring := ring' }, ?_, ⟨hvalid, ?_⟩, hfd₁, by omega⟩
  · rw [write, if_neg (not_lt.mpr hfd), hflush, RingBuffer.ok_bind]
    dsimp only
    rw [if_neg (by decide), hwrite]
    rfl
  · dsimp only
    rw [hcontents, h₁.contents, List.append_assoc]

theorem writenLoop_holds (hshort : Short answer) (data : Nat → UInt8) (size fuel writeSize : Nat)
    (h : s.Holds (accepted ++ Memory.read data 0 writeSize)) (hfd : 0 ≤ s.fd)
    (hfuel : size - writeSize ≤ fuel) :
  ∃ n s', writenLoop answer retries data size fuel writeSize s = .ok (.success, n, s')
    ∧ s'.Holds (accepted ++ Memory.read data 0 n) ∧ s'.fd = s.fd
  := by
  induction fuel generalizing writeSize s with
  | zero =>
    refine ⟨writeSize, s, ?_, h, rfl⟩
    rw [writenLoop.eq_def]
    dsimp only
    rw [if_neg (by omega)]
  | succ fuel ih =>
    by_cases hmore : writeSize < size
    · obtain ⟨n, s₁, hwrite, h₁, hfd₁, hn⟩ := @write_holds answer retries _ _ hshort
        (fun i => data (writeSize + i)) (size - writeSize) h hfd
      have hdata : Memory.read (fun i => data (writeSize + i)) 0 n
          = Memory.read data (0 + writeSize) n := by
        simp only [Memory.read, Nat.zero_add]
      rw [hdata, List.append_assoc, ← Memory.read_add] at h₁
      obtain ⟨n', s', hloop, h', hfd'⟩ := ih (writeSize + n) h₁ (hfd.trans_eq hfd₁.symm) (by omega)
      refine ⟨n', s', ?_, h', hfd'.trans hfd₁⟩
      rw [writenLoop, if_pos hmore, hwrite, RingBuffer.ok_bind]
      dsimp only
      rw [if_neg (by decide), hloop]
    · refine ⟨writeSize, s, ?_, h, rfl⟩
      rw [writenLoop, if_neg hmore]

theorem flushAll_holds (hshort : Short answer) (fuel : Nat) (h : s.Holds accepted) (hfd : 0 ≤ s.fd)
    (hfuel : s.ring.dataSize ≤ fuel) :
  ∃ s', flushAll answer retries fuel s = .ok (.success, s') ∧ s'.Holds accepted
    ∧ s'.fd = s.fd ∧ s'.ring.dataSize = 0
  := by
  induction fuel generalizing s with
  | zero =>
    refine ⟨s, ?_, h, rfl, by omega⟩
    rw [flushAll.eq_def]
    dsimp only
    rw [if_neg (by omega)]
  | succ fuel ih =>
    by_cases hmore : 0 < s.ring.dataSize
    · obtain ⟨s₁, hflush, h₁, hfd₁, -, hless⟩ :=
        @flushInternal_holds answer retries _ _ hshort s.ring.dataSize h hfd
      have hless := hless hmore (by omega)
      obtain ⟨s', hloop, h', hfd', hempty⟩ := ih h₁ (hfd.trans_eq hfd₁.symm) (by omega)
      refine ⟨s', ?_, h', hfd'.trans hfd₁, hempty⟩
      rw [flushAll, if_pos hmore, hflush, RingBuffer.ok_bind]
      dsimp only
      rw [if_neg (by decide), hloop]
    · refine ⟨s, ?_, h, rfl, by omega⟩
      rw [flushAll, if_neg hmore]

theorem flush_holds (hshort : Short answer) (h : s.Holds accepted) :
  ∃ rc s', s.flush answer retries = .ok (rc, s') ∧ s'.Holds accepted
    ∧ (rc = .success → s'.ring.dataSize = 0) ∧ (0 ≤ s.fd → rc = .success)
  := by
  rw [flush]
  split_ifs with hfd
  · refine ⟨.invalidArgument, s, rfl, h, ?_, ?_⟩
    · rintro ⟨⟩
    · exact fun hpos => absurd hpos (not_le.mpr hfd)
  · obtain ⟨s', hflush, h', -, hempty⟩ := flushAll_holds hshort _ h (not_lt.mp hfd) le_rfl
    exact ⟨_, s', hflush, h', fun _ => hempty, fun _ => rfl⟩

theorem Holds.exact (hshort : Short answer) (h : s.Holds accepted) :
  s.Exact answer retries accepted
  := by
  refine ⟨⟨s.ring.contents, h.contents.symm⟩, ?_⟩
  obtain ⟨rc, s', hflush, h', hempty, hfd⟩ := flush_holds hshort h
  refine ⟨rc, s', hflush, ?_, hfd⟩
  intro hrc
  have hnil : s'.ring.contents = [] := by
    apply List.length_eq_zero_iff.mp
    rw [RingBuffer.length_contents, hempty hrc]
  rw [h'.contents, hnil, List.append_nil]

/-- Every call goes through. -/
theorem Holds.exec (hshort : Short answer) (h : s.Holds accepted) (call : Call) :
  ∃ accepted' s', call.exec answer retries accepted s = .ok (accepted', s') ∧ s'.Holds accepted'
  := by
  have hnone : accepted = accepted ++ Memory.read (fun _ => 0) 0 0 := (List.append_nil _).symm
  cases call with
  | write data size =>
    by_cases hfd : s.fd < 0
    · refine ⟨accepted ++ Memory.read data 0 0, s, ?_, hnone ▸ h⟩
      rw [Call.exec, write, if_pos hfd]
      rfl
    obtain hneg | hpos := lt_or_ge size 0
    · obtain ⟨s', hflush, h', -⟩ :=
        @flushFull_holds answer retries _ _ hshort size h (not_lt.mp hfd)
      refine ⟨accepted ++ Memory.read data 0 0, { s' with ring := s'.ring }, ?_, hnone ▸ h'⟩
      rw [Call.exec, write, if_neg hfd, hflush, RingBuffer.ok_bind]
      dsimp only
      rw [if_neg (by decide), RingBuffer.write, if_pos hneg]
      rfl
    · obtain ⟨k, rfl⟩ := Int.eq_ofNat_of_zero_le hpos
      obtain ⟨n, s', hwrite, h', -⟩ :=
        @write_holds answer retries _ _ hshort data k h (not_lt.mp hfd)
      exact ⟨_, s', by rw [Call.exec, hwrite]; rfl, h'⟩
  | writen data size =>
    by_cases hfd : s.fd < 0
    · refine ⟨accepted ++ Memory.read data 0 0, s, ?_, hnone ▸ h⟩
      rw [Call.exec, writen, if_pos hfd]
      rfl
    obtain ⟨n, s', hloop, h', -⟩ := @writenLoop_holds answer retries _ _ hshort data size.toNat
      size.toNat 0 (hnone ▸ h) (not_lt.mp hfd) (by omega)
    refine ⟨_, s', ?_, h'⟩
    rw [Call.exec, writen, if_neg hfd, hloop]
    rfl
  | flush =>
    obtain ⟨rc, s', hflush, h', -⟩ := @flush_holds answer retries _ _ hshort h
    exact ⟨accepted, s', by rw [Call.exec, hflush]; rfl, h'⟩

theorem Holds.run (hshort : Short answer) (h : s.Holds accepted) (calls : List Call) :
  ∃ accepted' s', BufferedWriter.run answer retries calls accepted s = .ok (accepted', s')
    ∧ s'.Holds accepted'
  := by
  induction calls generalizing accepted s with
  | nil => exact ⟨accepted, s, rfl, h⟩
  | cons call calls ih =>
    obtain ⟨accepted₁, s₁, hexec, h₁⟩ := @Holds.exec answer retries _ _ hshort h call
    obtain ⟨accepted', s', hrun, h'⟩ := ih h₁
    exact ⟨accepted', s', by rw [BufferedWriter.run, hexec, RingBuffer.ok_bind]; exact hrun, h'⟩

theorem lossless_of_le {capacity : Nat} (hpos : 0 < capacity) (hsmall : capacity ≤ 2 ^ 30) :
  Lossless capacity
  := by
  intro answer retries hshort fd calls
  have h : (new fd capacity).Holds [] := ⟨RingBuffer.valid_new hpos hsmall, rfl⟩
  obtain ⟨accepted, s, hrun, h'⟩ := h.run hshort calls
  exact ⟨accepted, s, hrun, h'.exact hshort⟩

/-- The output path is lossless exactly if its buffer has no more than `2 ^ 30` places. -/
theorem output_lossless_iff {capacity : Nat} (hpos : 0 < capacity)
    (hint : (capacity : Int) ≤ int32Max) :
  RingBuffer.Lossless capacity ∧ Lossless capacity ↔ capacity ≤ 2 ^ 30
  := by
  constructor
  · rintro ⟨hring, -⟩
    exact (RingBuffer.lossless_iff hpos hint).mp hring
  · intro hsmall
    exact ⟨RingBuffer.lossless_of_le hpos hsmall, lossless_of_le hpos hsmall⟩

/-- A small buffer, whose positions wrap at once, and the smallest one that loses bytes. -/
theorem output_lossless_iff_small :
  (RingBuffer.Lossless 3 ∧ Lossless 3)
    ∧ ¬ (RingBuffer.Lossless (2 ^ 30 + 1) ∧ Lossless (2 ^ 30 + 1))
  := by
  constructor
  · exact (output_lossless_iff (by omega) (by decide)).mpr (by omega)
  · intro h
    have hle := (output_lossless_iff (by omega) (by decide)).mp h
    omega

/-- With one place more, the position to read from is no `int32_t` at times. -/
theorem output_not_lossless :
  ¬ ∀ capacity : Nat, 0 < capacity → (capacity : Int) ≤ int32Max →
    RingBuffer.Lossless capacity ∧ Lossless capacity
  := by
  intro h
  have hring := (h (2 ^ 30 + 1) (by omega) (by decide)).1
  have hle := (RingBuffer.lossless_iff (by omega) (by decide)).mp hring
  omega

end Holds

end BufferedWriter

end MiniOB.Net
