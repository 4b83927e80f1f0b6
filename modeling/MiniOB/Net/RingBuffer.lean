import MiniOB.Common
import MiniOB.Lib.Ring

/-!
# Ring buffers

`RingBuffer` of `net/ring_buffer.cpp`. The position to read from is computed from the position
to write at and the number of bytes between them, in the type `int32_t`.
-/

namespace MiniOB.Net

/-- Where the meaning of the program ends: a sum that is no `int32_t`, or memory that is not
there; or a loop that has not come to its end. -/
inductive Undefined where
  | overflow
  | memory
  | fuel
  deriving DecidableEq, Repr

/-- `RingBuffer`. -/
structure RingBuffer where
  memory : Nat → UInt8
  capacity : Nat
  dataSize : Nat
  writePos : Nat

namespace RingBuffer

/-- The constructor of `RingBuffer`. -/
def new (capacity : Nat) : RingBuffer where
  memory := fun _ => 0
  capacity := capacity
  dataSize := 0
  writePos := 0

variable (ring : RingBuffer)

/-- `RingBuffer::remain`. -/
def remain : Nat := ring.capacity - ring.dataSize

/-- `RingBuffer::read_pos`. -/
def readPos : Except Undefined Nat :=
  let sum : Int := (ring.writePos : Int) - ring.dataSize + ring.capacity
  if sum ≤ int32Max then .ok (sum.tmod ring.capacity).toNat else .error .overflow

/-- Bytes that are copied from the memory of the buffer. -/
def copy (pos len : Nat) : Except Undefined (List UInt8) :=
  if pos + len ≤ ring.capacity then .ok (Memory.read ring.memory pos len) else .error .memory

/-- `RingBuffer::buffer`: the position and the number of the bytes that can be read. -/
def buffer : Except Undefined (Nat × Nat) :=
  if ring.dataSize = 0 then .ok (0, 0)
  else do
    let readPos ← ring.readPos
    if readPos < ring.writePos then .ok (readPos, ring.writePos - readPos)
    else .ok (readPos, ring.capacity - readPos)

/-- `RingBuffer::forward`. -/
def forward (size : Int) : RC × RingBuffer :=
  if size < 0 then (.invalidArgument, ring)
  else if (ring.dataSize : Int) < size then (.invalidArgument, ring)
  else (.success, { ring with dataSize := ring.dataSize - size.toNat })

/-- The loop of `RingBuffer::read`, with the bytes that have been read. -/
def readLoop (size : Nat) : Nat → List UInt8 → RingBuffer →
    Except Undefined (RC × List UInt8 × RingBuffer)
  | fuel, bytes, ring =>
    if bytes.length < size ∧ 0 < ring.dataSize then
      match fuel with
      | 0 => .error .fuel
      | fuel + 1 => do
        let (pos, tmpSize) ← ring.buffer
        let copySize := min (size - bytes.length) tmpSize
        let copied ← ring.copy pos copySize
        match ring.forward copySize with
        | (.success, ring) => readLoop size fuel (bytes ++ copied) ring
        | (rc, ring) => .ok (rc, bytes ++ copied, ring)
    else .ok (.success, bytes, ring)

/-- `RingBuffer::read`: the code it returns and the bytes that it reads. -/
def read (size : Int) : Except Undefined (RC × List UInt8 × RingBuffer) :=
  if size < 0 then .ok (.invalidArgument, [], ring) else readLoop size.toNat size.toNat [] ring

/-- The loop of `RingBuffer::write`, with the number of bytes that have been written. -/
def writeLoop (data : Nat → UInt8) (size : Nat) : Nat → Nat → RingBuffer →
    Except Undefined (Nat × RingBuffer)
  | fuel, writeSize, ring =>
    if writeSize < size ∧ 0 < ring.remain then
      match fuel with
      | 0 => .error .fuel
      | fuel + 1 => do
        let readPos ← ring.readPos
        let tmpBufSize := if readPos ≤ ring.writePos then ring.capacity - ring.writePos
          else readPos - ring.writePos
        let copySize := min (size - writeSize) tmpBufSize
        if ring.capacity < ring.writePos + copySize then .error .memory
        else
          writeLoop data size fuel (writeSize + copySize) { ring with
            memory := Memory.write ring.memory ring.writePos (Memory.read data writeSize copySize)
            writePos := (ring.writePos + copySize) % ring.capacity
            dataSize := ring.dataSize + copySize }
    else .ok (writeSize, ring)

/-- `RingBuffer::write` of bytes from an address of other memory: the code it returns and the
number of bytes that it writes. -/
def write (data : Nat → UInt8) (size : Int) : Except Undefined (RC × Nat × RingBuffer) :=
  if size < 0 then .ok (.invalidArgument, 0, ring)
  else do
    let (writeSize, ring) ← writeLoop data size.toNat size.toNat 0 ring
    pure (.success, writeSize, ring)

/-! ### The contents -/

theorem ok_bind {α β : Type} (a : α) (f : α → Except Undefined β) : (Except.ok a >>= f) = f a := rfl

section Contents

variable {ring}

/-- A buffer whose positions can be computed. -/
structure Valid (ring : RingBuffer) : Prop where
  pos : 0 < ring.capacity
  small : ring.capacity ≤ 2 ^ 30
  dataSize : ring.dataSize ≤ ring.capacity
  writePos : ring.writePos < ring.capacity

/-- The place of the first byte to read, whole turns aside. -/
def start (ring : RingBuffer) : Nat := ring.writePos + ring.capacity - ring.dataSize

/-- The first `n` bytes from the place on where reading starts. -/
def front (ring : RingBuffer) (n : Nat) : List UInt8 :=
  Ring.read ring.memory ring.capacity ring.start n

/-- The bytes that are in the buffer. -/
def contents (ring : RingBuffer) : List UInt8 := ring.front ring.dataSize

@[simp]
theorem length_contents : ring.contents.length = ring.dataSize := Ring.length_read _ _ _ _

theorem contents_take {n : Nat} (hn : n ≤ ring.dataSize) : ring.contents.take n = ring.front n := by
  obtain ⟨k, hk⟩ := Nat.exists_eq_add_of_le hn
  rw [contents, hk, front, Ring.read_add]
  exact List.take_left' (Ring.length_read _ _ _ _)

theorem valid_new {capacity : Nat} (hpos : 0 < capacity) (hsmall : capacity ≤ 2 ^ 30) :
  (new capacity).Valid
  := ⟨hpos, hsmall, Nat.zero_le _, hpos⟩

theorem Valid.readPos_eq (h : ring.Valid) : ring.readPos = .ok (ring.start % ring.capacity) := by
  obtain ⟨hpos, hsmall, hsize, hwrite⟩ := h
  have hsum : (ring.writePos : Int) - ring.dataSize + ring.capacity = ring.start := by
    rw [start]
    omega
  rw [readPos]
  simp only [hsum]
  rw [if_pos, ← Int.ofNat_tmod, Int.toNat_natCast]
  rw [start, int32Max]
  omega

/-- The place to read from: in front of the place to write at, or behind it. -/
theorem Valid.start_mod (h : ring.Valid) :
  (ring.dataSize ≤ ring.writePos ∧ ring.start % ring.capacity = ring.writePos - ring.dataSize)
    ∨ (ring.writePos < ring.dataSize
      ∧ ring.start % ring.capacity = ring.writePos + ring.capacity - ring.dataSize)
  := by
  obtain ⟨hpos, hsmall, hsize, hwrite⟩ := h
  rw [start]
  obtain hlt | hle := Nat.lt_or_ge ring.writePos ring.dataSize
  · right
    rw [Nat.mod_eq_of_lt (by omega)]
    exact ⟨hlt, rfl⟩
  · left
    have hturn : ring.writePos + ring.capacity - ring.dataSize
        = ring.writePos - ring.dataSize + ring.capacity := by
      omega
    rw [hturn, Nat.add_mod_right, Nat.mod_eq_of_lt (by omega)]
    exact ⟨hle, rfl⟩

/-- `buffer` shows the first bytes, at least one of them unless there are none. -/
theorem Valid.buffer_eq (h : ring.Valid) :
  ∃ pos n, ring.buffer = .ok (pos, n) ∧ pos + n ≤ ring.capacity ∧ n ≤ ring.dataSize
    ∧ (0 < ring.dataSize → 0 < n)
    ∧ ∀ k ≤ n, Memory.read ring.memory pos k = ring.contents.take k
  := by
  have hsize := h.dataSize
  have hwrite := h.writePos
  by_cases hempty : ring.dataSize = 0
  · refine ⟨0, 0, ?_, Nat.zero_le _, Nat.zero_le _, fun hpos => absurd hempty hpos.ne', ?_⟩
    · rw [buffer, if_pos hempty]
    · intro k hk
      rw [Nat.le_zero.mp hk, List.take_zero]
      rfl
  have hread : ∀ n, ring.start % ring.capacity + n ≤ ring.capacity → n ≤ ring.dataSize →
      Memory.read ring.memory (ring.start % ring.capacity) n = ring.contents.take n := by
    intro n hfits hle
    rw [← Ring.read_eq_memory hfits, Ring.read_mod, contents_take hle, front]
  rw [buffer, if_neg hempty, h.readPos_eq]
  obtain ⟨hle, hstart⟩ | ⟨hlt, hstart⟩ := h.start_mod
  · refine ⟨ring.start % ring.capacity, ring.dataSize, ?_, by omega, le_rfl, fun hpos => hpos,
      fun k hk => hread k (by omega) hk⟩
    change (if _ then _ else _ : Except Undefined (Nat × Nat)) = _
    rw [if_pos (by omega), hstart, Nat.sub_sub_self hle]
  · refine ⟨ring.start % ring.capacity, ring.dataSize - ring.writePos, ?_, by omega, by omega,
      by omega, fun k hk => hread k (by omega) (by omega)⟩
    change (if _ then _ else _ : Except Undefined (Nat × Nat)) = _
    rw [if_neg (by omega)]
    congr 2
    omega

/-- `forward` drops bytes that are there. -/
theorem Valid.forward_eq (h : ring.Valid) {n : Nat} (hn : n ≤ ring.dataSize) :
  ∃ ring', ring.forward n = (.success, ring') ∧ ring'.Valid
    ∧ ring'.capacity = ring.capacity ∧ ring'.contents = ring.contents.drop n
  := by
  have hsize := h.dataSize
  refine ⟨{ ring with dataSize := ring.dataSize - n }, ?_, ?_, rfl, ?_⟩
  · rw [forward, if_neg (by omega), if_neg (by omega), Int.toNat_natCast]
  · exact ⟨h.pos, h.small, (Nat.sub_le _ _).trans hsize, h.writePos⟩
  · obtain ⟨k, hk⟩ := Nat.exists_eq_add_of_le hn
    have hstart : start { ring with dataSize := ring.dataSize - n } = ring.start + n := by
      rw [start, start]
      dsimp only
      omega
    have hrest : ring.dataSize - n = k := by omega
    have hsplit : ring.contents = ring.front n
        ++ Ring.read ring.memory ring.capacity (ring.start + n) k := by
      rw [contents, hk, front, Ring.read_add, front]
    have hfront : (ring.front n).length = n := Ring.length_read _ _ _ _
    rw [hsplit, List.drop_left' hfront, contents, front, hstart]
    dsimp only
    rw [hrest]

theorem readLoop_done (ring : RingBuffer) (size fuel : Nat) (bytes : List UInt8)
    (hdone : ¬ (bytes.length < size ∧ 0 < ring.dataSize)) :
  readLoop size fuel bytes ring
      = .ok (.success, bytes ++ ring.contents.take (size - bytes.length), ring)
    ∧ ring.contents = ring.contents.drop (size - bytes.length)
  := by
  have hlength : ring.contents.length = ring.dataSize := length_contents
  have hnone : size - bytes.length = 0 ∨ ring.contents = [] := by
    by_cases hempty : ring.dataSize = 0
    · right
      apply List.length_eq_zero_iff.mp
      omega
    · left
      omega
  rw [readLoop.eq_def]
  dsimp only
  rw [if_neg hdone]
  obtain hzero | hnil := hnone
  · rw [hzero, List.take_zero, List.drop_zero, List.append_nil]
    exact ⟨rfl, rfl⟩
  · rw [hnil, List.take_nil, List.drop_nil, List.append_nil]
    exact ⟨rfl, rfl⟩

/-- The loop of `read` delivers the first bytes, as many as there are. -/
theorem readLoop_eq (size fuel : Nat) (bytes : List UInt8) (hfuel : size - bytes.length ≤ fuel)
    (h : ring.Valid) :
  ∃ ring', readLoop size fuel bytes ring
      = .ok (.success, bytes ++ ring.contents.take (size - bytes.length), ring')
    ∧ ring'.Valid ∧ ring'.capacity = ring.capacity
    ∧ ring'.contents = ring.contents.drop (size - bytes.length)
  := by
  induction fuel generalizing bytes ring with
  | zero =>
    have hdone := readLoop_done ring size 0 bytes (by omega)
    exact ⟨ring, hdone.1, h, rfl, hdone.2⟩
  | succ fuel ih =>
    by_cases hmore : bytes.length < size ∧ 0 < ring.dataSize
    · obtain ⟨pos, n, hbuffer, hfits, hle, hpos, hread⟩ := h.buffer_eq
      have hn := hpos hmore.2
      obtain ⟨k, hk⟩ : ∃ k, min (size - bytes.length) n = k := ⟨_, rfl⟩
      obtain ⟨ring', hforward, hvalid, hcapacity, hcontents⟩ := h.forward_eq (n := k) (by omega)
      have hcopy : ring.copy pos k = .ok (ring.contents.take k) := by
        rw [copy, if_pos (by omega), hread k (by omega)]
      have htaken : (ring.contents.take k).length = k := by
        rw [List.length_take, length_contents]
        omega
      have hrest : size - (bytes ++ ring.contents.take k).length = size - bytes.length - k := by
        rw [List.length_append, htaken]
        omega
      have hsum : k + (size - bytes.length - k) = size - bytes.length := by omega
      obtain ⟨ring'', hloop, hvalid'', hcapacity'', hcontents''⟩ :=
        ih (bytes ++ ring.contents.take k) (by omega) hvalid
      refine ⟨ring'', ?_, hvalid'', hcapacity''.trans hcapacity, ?_⟩
      · rw [readLoop, if_pos hmore, hbuffer, ok_bind]
        dsimp only
        rw [hk, hcopy, ok_bind, hforward]
        dsimp only
        rw [hloop, hrest, hcontents, List.append_assoc, ← List.take_add, hsum]
      · rw [hcontents'', hrest, hcontents, List.drop_drop, hsum]
    · have hdone := readLoop_done ring size (fuel + 1) bytes hmore
      exact ⟨ring, hdone.1, h, rfl, hdone.2⟩

/-- What one turn of the loop of `write` leaves. -/
def put (ring : RingBuffer) (bytes : List UInt8) : RingBuffer where
  memory := Memory.write ring.memory ring.writePos bytes
  capacity := ring.capacity
  dataSize := ring.dataSize + bytes.length
  writePos := (ring.writePos + bytes.length) % ring.capacity

theorem Valid.put {bytes : List UInt8} (h : ring.Valid)
    (hfits : ring.writePos + bytes.length ≤ ring.capacity)
    (hroom : ring.dataSize + bytes.length ≤ ring.capacity) :
  (ring.put bytes).Valid ∧ (ring.put bytes).contents = ring.contents ++ bytes
  := by
  have hpos := h.pos
  have hwrite := h.writePos
  have hsize := h.dataSize
  refine ⟨⟨h.pos, h.small, hroom, Nat.mod_lt _ hpos⟩, ?_⟩
  have hoff : ring.writePos = (ring.start + ring.dataSize) % ring.capacity := by
    have hturn : ring.start + ring.dataSize = ring.writePos + ring.capacity := by
      rw [start]
      omega
    rw [hturn, Nat.add_mod_right, Nat.mod_eq_of_lt hwrite]
  have hstart : (ring.put bytes).start % ring.capacity = ring.start % ring.capacity := by
    obtain hlt | hwrap := Nat.lt_or_ge (ring.writePos + bytes.length) ring.capacity
    · have hsame : (ring.put bytes).start = ring.start := by
        rw [start, start, RingBuffer.put]
        dsimp only
        rw [Nat.mod_eq_of_lt hlt]
        omega
      rw [hsame]
    · have hturn : ring.start = (ring.put bytes).start + ring.capacity := by
        have hzero : (ring.writePos + bytes.length) % ring.capacity = 0 := by
          rw [Nat.le_antisymm hfits hwrap, Nat.mod_self]
        rw [start, start, RingBuffer.put]
        dsimp only
        rw [hzero]
        omega
      rw [hturn, Nat.add_mod_right]
  have hwritten := Ring.read_write (m := ring.memory) hoff hfits hroom
  exact (Ring.read_congr hstart).trans hwritten

theorem Valid.tmpBufSize (h : ring.Valid) (hremain : 0 < ring.remain) :
  ∃ n, 0 < n ∧ ring.writePos + n ≤ ring.capacity ∧ ring.dataSize + n ≤ ring.capacity
    ∧ (if ring.start % ring.capacity ≤ ring.writePos then ring.capacity - ring.writePos
      else ring.start % ring.capacity - ring.writePos) = n
  := by
  have hwrite := h.writePos
  have hsize := h.dataSize
  rw [remain] at hremain
  refine ⟨_, ?_, ?_, ?_, rfl⟩
  all_goals
    obtain ⟨hle, hstart⟩ | ⟨hlt, hstart⟩ := h.start_mod
    all_goals split_ifs <;> omega

theorem writeLoop_done (ring : RingBuffer) (data : Nat → UInt8) (size fuel writeSize : Nat)
    (hdone : ¬ (writeSize < size ∧ 0 < ring.remain)) :
  writeLoop data size fuel writeSize ring
      = .ok (writeSize + min (size - writeSize) ring.remain, ring)
    ∧ ring.contents
      = ring.contents ++ Memory.read data writeSize (min (size - writeSize) ring.remain)
  := by
  have hnone : min (size - writeSize) ring.remain = 0 := by omega
  rw [writeLoop.eq_def]
  dsimp only
  rw [if_neg hdone, hnone]
  exact ⟨rfl, (List.append_nil _).symm⟩

/-- The loop of `write` takes bytes as long as there is room. -/
theorem writeLoop_eq (data : Nat → UInt8) (size fuel writeSize : Nat)
    (hfuel : size - writeSize ≤ fuel) (h : ring.Valid) :
  ∃ ring', writeLoop data size fuel writeSize ring
      = .ok (writeSize + min (size - writeSize) ring.remain, ring')
    ∧ ring'.Valid ∧ ring'.capacity = ring.capacity
    ∧ ring'.contents = ring.contents
      ++ Memory.read data writeSize (min (size - writeSize) ring.remain)
  := by
  induction fuel generalizing writeSize ring with
  | zero =>
    have hdone := writeLoop_done ring data size 0 writeSize (by omega)
    exact ⟨ring, hdone.1, h, rfl, hdone.2⟩
  | succ fuel ih =>
    by_cases hmore : writeSize < size ∧ 0 < ring.remain
    · obtain ⟨n, hpos, hfits, hroom, hn⟩ := h.tmpBufSize hmore.2
      obtain ⟨k, hk⟩ : ∃ k, min (size - writeSize) n = k := ⟨_, rfl⟩
      have hlength := Memory.length_read data writeSize k
      obtain ⟨hvalid, hcontents⟩ : (ring.put (Memory.read data writeSize k)).Valid ∧ _ :=
        h.put (by omega) (by omega)
      have hput : ring.put (Memory.read data writeSize k) = { ring with
          memory := Memory.write ring.memory ring.writePos (Memory.read data writeSize k)
          writePos := (ring.writePos + k) % ring.capacity
          dataSize := ring.dataSize + k } := by
        rw [put, hlength]
      have hremain : (ring.put (Memory.read data writeSize k)).remain = ring.remain - k := by
        rw [remain, remain, put]
        dsimp only
        omega
      obtain ⟨ring', hloop, hvalid', hcapacity', hcontents'⟩ :=
        ih (writeSize + k) (by omega) hvalid
      have hsum : min (size - writeSize) ring.remain
          = k + min (size - (writeSize + k)) (ring.remain - k) := by
        rw [remain] at hmore ⊢
        omega
      refine ⟨ring', ?_, hvalid', hcapacity', ?_⟩
      · rw [writeLoop, if_pos hmore, h.readPos_eq, ok_bind]
        dsimp only
        rw [hn, hk, if_neg (by omega), ← hput, hloop, hremain, hsum, Nat.add_assoc]
      · rw [hcontents', hcontents, hremain, List.append_assoc, ← Memory.read_add, hsum]
    · have hdone := writeLoop_done ring data size (fuel + 1) writeSize hmore
      exact ⟨ring, hdone.1, h, rfl, hdone.2⟩

end Contents

/-! ### Runs -/

section Runs

/-- A call of a function of a buffer. -/
inductive Call where
  | write (data : Nat → UInt8) (size : Int)
  | read (size : Int)
  | buffer
  | forward (size : Int)

/-- The bytes that a buffer has accepted and delivered, and the buffer. -/
structure Traffic where
  accepted : List UInt8
  delivered : List UInt8
  ring : RingBuffer

/-- The call, with the bytes that it accepts or delivers. -/
def Call.exec (s : Traffic) : Call → Except Undefined Traffic
  | write data size => do
    let (_, writeSize, ring) ← s.ring.write data size
    pure { s with accepted := s.accepted ++ Memory.read data 0 writeSize, ring }
  | read size => do
    let (_, bytes, ring) ← s.ring.read size
    pure { s with delivered := s.delivered ++ bytes, ring }
  | buffer => do
    let _ ← s.ring.buffer
    pure s
  | forward size =>
    match s.ring.forward size with
    | (.success, ring) =>
      pure { s with delivered := s.delivered ++ s.ring.front size.toNat, ring }
    | (_, ring) => pure { s with ring }

/-- Calls one after another. -/
def run : List Call → Traffic → Except Undefined Traffic
  | [], s => .ok s
  | call :: calls, s => do
    let s ← call.exec s
    run calls s

/-- What has been delivered are the first of the bytes that have been accepted, the sizes are
exact, and the next call takes or gives what there is room for and what is there. -/
structure Traffic.Exact (s : Traffic) : Prop where
  delivered : s.delivered <+: s.accepted
  dataSize : s.delivered.length + s.ring.dataSize = s.accepted.length
  remain : s.ring.remain + s.accepted.length = s.ring.capacity + s.delivered.length
  buffer : ∃ pos n, s.ring.buffer = .ok (pos, n)
    ∧ Memory.read s.ring.memory pos n <+: s.accepted.drop s.delivered.length
    ∧ (0 < s.ring.dataSize → 0 < n)
  read : ∀ size : Nat, ∃ ring, s.ring.read size
    = .ok (.success, (s.accepted.drop s.delivered.length).take size, ring)
  write : ∀ (data : Nat → UInt8) (size : Nat), ∃ ring, s.ring.write data size
    = .ok (.success, min size s.ring.remain, ring)

/-- A buffer is lossless: no run goes wrong, and after every run all is exact. -/
def Lossless (capacity : Nat) : Prop :=
  ∀ calls, ∃ s, run calls ⟨[], [], new capacity⟩ = .ok s ∧ s.Exact

variable {s : Traffic} {ring : RingBuffer}

/-- The buffer holds what has been accepted and not been delivered. -/
structure Traffic.Holds (s : Traffic) : Prop where
  valid : s.ring.Valid
  contents : s.accepted = s.delivered ++ s.ring.contents

theorem Valid.read_eq (h : ring.Valid) (size : Nat) :
  ∃ ring', ring.read size = .ok (.success, ring.contents.take size, ring') ∧ ring'.Valid
    ∧ ring'.contents = ring.contents.drop size
  := by
  obtain ⟨ring', hloop, hvalid, -, hcontents⟩ := readLoop_eq size size [] (by simp) h
  refine ⟨ring', ?_, hvalid, hcontents⟩
  rw [read, if_neg (by omega), Int.toNat_natCast, hloop]
  rfl

theorem Valid.write_eq (h : ring.Valid) (data : Nat → UInt8) (size : Nat) :
  ∃ ring', ring.write data size = .ok (.success, min size ring.remain, ring') ∧ ring'.Valid
    ∧ ring'.contents = ring.contents ++ Memory.read data 0 (min size ring.remain)
  := by
  obtain ⟨ring', hloop, hvalid, -, hcontents⟩ := writeLoop_eq data size size 0 (by simp) h
  rw [Nat.sub_zero, Nat.zero_add] at hloop
  refine ⟨ring', ?_, hvalid, hcontents⟩
  rw [write, if_neg (by omega), Int.toNat_natCast, hloop]
  rfl

theorem Traffic.Holds.exact (h : s.Holds) : s.Exact := by
  have hlength := congrArg List.length h.contents
  rw [List.length_append, length_contents] at hlength
  have hsize := h.valid.dataSize
  have hrest : s.accepted.drop s.delivered.length = s.ring.contents := by
    rw [h.contents, List.drop_left' rfl]
  refine ⟨⟨s.ring.contents, h.contents.symm⟩, hlength.symm, ?_, ?_, ?_, ?_⟩
  · rw [RingBuffer.remain]
    omega
  · obtain ⟨pos, n, hbuffer, -, -, hpos, hread⟩ := h.valid.buffer_eq
    refine ⟨pos, n, hbuffer, ?_, hpos⟩
    rw [hrest, hread n le_rfl]
    exact List.take_prefix _ _
  · intro size
    obtain ⟨ring', hread, -⟩ := h.valid.read_eq size
    exact ⟨ring', by rw [hrest]; exact hread⟩
  · intro data size
    obtain ⟨ring', hwrite, -⟩ := h.valid.write_eq data size
    exact ⟨ring', hwrite⟩

/-- Every call goes through. -/
theorem Traffic.Holds.exec (h : s.Holds) (call : Call) : ∃ s', call.exec s = .ok s' ∧ s'.Holds := by
  obtain ⟨hvalid, hcontents⟩ := h
  cases call with
  | write data size =>
    obtain hneg | hpos := lt_or_ge size 0
    · refine ⟨{ s with accepted := s.accepted ++ Memory.read data 0 0 }, ?_, hvalid, ?_⟩
      · rw [Call.exec, RingBuffer.write, if_pos hneg]
        rfl
      · exact (List.append_nil _).trans hcontents
    · obtain ⟨n, rfl⟩ := Int.eq_ofNat_of_zero_le hpos
      obtain ⟨ring', hwrite, hvalid', hcontents'⟩ := hvalid.write_eq data n
      refine ⟨_, by rw [Call.exec, hwrite]; rfl, hvalid', ?_⟩
      dsimp only
      rw [hcontents', hcontents, List.append_assoc]
  | read size =>
    obtain hneg | hpos := lt_or_ge size 0
    · refine ⟨{ s with delivered := s.delivered ++ [] }, ?_, hvalid, ?_⟩
      · rw [Call.exec, RingBuffer.read, if_pos hneg]
        rfl
      · dsimp only
        rw [List.append_nil]
        exact hcontents
    · obtain ⟨n, rfl⟩ := Int.eq_ofNat_of_zero_le hpos
      obtain ⟨ring', hread, hvalid', hcontents'⟩ := hvalid.read_eq n
      refine ⟨_, by rw [Call.exec, hread]; rfl, hvalid', ?_⟩
      dsimp only
      rw [hcontents', List.append_assoc, List.take_append_drop]
      exact hcontents
  | buffer =>
    obtain ⟨pos, n, hbuffer, -⟩ := hvalid.buffer_eq
    exact ⟨s, by rw [Call.exec, hbuffer]; rfl, hvalid, hcontents⟩
  | forward size =>
    by_cases hsize : size < 0 ∨ (s.ring.dataSize : Int) < size
    · have hforward : s.ring.forward size = (.invalidArgument, s.ring) := by
        rw [RingBuffer.forward]
        split_ifs with hneg hlarge
        · rfl
        · rfl
        · exact absurd hsize (not_or.mpr ⟨hneg, hlarge⟩)
      exact ⟨s, by rw [Call.exec, hforward]; rfl, hvalid, hcontents⟩
    · rw [not_or, not_lt, not_lt] at hsize
      obtain ⟨n, rfl⟩ := Int.eq_ofNat_of_zero_le hsize.1
      have hle : n ≤ s.ring.dataSize := by omega
      obtain ⟨ring', hforward, hvalid', -, hcontents'⟩ := hvalid.forward_eq hle
      refine ⟨_, by rw [Call.exec, hforward]; rfl, hvalid', ?_⟩
      dsimp only
      rw [Int.toNat_natCast, hcontents', ← contents_take hle, List.append_assoc,
        List.take_append_drop]
      exact hcontents

theorem Traffic.Holds.run (h : s.Holds) (calls : List Call) :
  ∃ s', RingBuffer.run calls s = .ok s' ∧ s'.Holds
  := by
  induction calls generalizing s with
  | nil => exact ⟨s, rfl, h⟩
  | cons call calls ih =>
    obtain ⟨s', hexec, h'⟩ := h.exec call
    obtain ⟨s'', hrun, h''⟩ := ih h'
    exact ⟨s'', by rw [RingBuffer.run, hexec, ok_bind, hrun], h''⟩

theorem lossless_of_le {capacity : Nat} (hpos : 0 < capacity) (hsmall : capacity ≤ 2 ^ 30) :
  Lossless capacity
  := by
  intro calls
  have hholds : Traffic.Holds ⟨[], [], new capacity⟩ := ⟨valid_new hpos hsmall, rfl⟩
  obtain ⟨s, hrun, h⟩ := hholds.run calls
  exact ⟨s, hrun, h.exact⟩

/-- The calls after which the position to read from cannot be computed any more: the place to
write at is moved to the end, and the buffer is emptied. -/
def overflowing (capacity : Nat) : List Call :=
  [.write (fun _ => 0) (capacity - 1), .forward (capacity - 1), .write (fun _ => 0) 1]

theorem run_overflowing {capacity : Nat} (hlarge : 2 ^ 30 < capacity)
    (hint : (capacity : Int) ≤ int32Max) :
  run (overflowing capacity) ⟨[], [], new capacity⟩ = .error .overflow
  := by
  obtain ⟨k, rfl⟩ : ∃ k, capacity = k + 1 := ⟨capacity - 1, by omega⟩
  have hcast : ((k + 1 : Nat) : Int) - 1 = k := by omega
  -- the first write fills all but the last place
  have hread : (new (k + 1)).readPos = .ok 0 := by
    have hsum : ((0 : Nat) : Int) - (0 : Nat) + (k + 1 : Nat) = (k + 1 : Nat) := by omega
    simp only [readPos, new, hsum]
    rw [if_pos hint, ← Int.ofNat_tmod, Nat.mod_self]
    rfl
  obtain ⟨filled, hfilled⟩ : ∃ ring : RingBuffer, ring = { new (k + 1) with
      memory := Memory.write (new (k + 1)).memory 0 (Memory.read (fun _ => 0) 0 k)
      writePos := k, dataSize := k } := ⟨_, rfl⟩
  have hfirst : (new (k + 1)).write (fun _ => 0) k = .ok (.success, k, filled) := by
    obtain ⟨j, rfl⟩ : ∃ j, k = j + 1 := ⟨k - 1, by omega⟩
    have hdone := (writeLoop_done filled (fun _ => 0) (j + 1) j (j + 1) (by omega)).1
    rw [Nat.sub_self, Nat.zero_min, Nat.add_zero] at hdone
    have hmin : min (j + 1 - 0) (j + 1 + 1 - 0) = j + 1 := by omega
    rw [write, if_neg (by omega), Int.toNat_natCast, writeLoop,
      if_pos ⟨by omega, Nat.succ_pos _⟩, hread, ok_bind]
    dsimp only
    rw [if_pos (Nat.zero_le _)]
    simp only [new, hmin] at hfilled ⊢
    rw [if_neg (by omega), Nat.zero_add, Nat.mod_eq_of_lt (by omega), ← hfilled, hdone]
    rfl
  have hsecond : filled.forward k = (.success, { filled with dataSize := 0 }) := by
    rw [forward, if_neg (by omega), if_neg (by rw [hfilled]; exact lt_irrefl _), hfilled,
      Int.toNat_natCast]
    simp
  have hthird : readPos { filled with dataSize := 0 } = .error .overflow := by
    rw [readPos]
    simp only [hfilled, new]
    rw [if_neg]
    rw [int32Max]
    omega
  have hlast : write { filled with dataSize := 0 } (fun _ => 0) 1 = .error .overflow := by
    rw [write, if_neg (by decide), writeLoop.eq_def]
    dsimp only
    have hroom : (0 : Nat) < Int.toNat 1 ∧ 0 < remain { filled with dataSize := 0 } := by
      rw [hfilled]
      exact ⟨Nat.one_pos, Nat.succ_pos _⟩
    rw [if_pos hroom, hthird]
    rfl
  rw [overflowing, hcast, run, Call.exec, hfirst]
  change run [_, _] _ = _
  rw [run, Call.exec]
  dsimp only
  rw [hsecond]
  change run [_] _ = _
  rw [run, Call.exec, hlast]
  rfl

/-- A buffer is lossless exactly if it has no more than `2 ^ 30` places. -/
theorem lossless_iff {capacity : Nat} (hpos : 0 < capacity) (hint : (capacity : Int) ≤ int32Max) :
  Lossless capacity ↔ capacity ≤ 2 ^ 30
  := by
  constructor
  · intro h
    by_contra hlarge
    obtain ⟨s, hrun, -⟩ := h (overflowing capacity)
    rw [run_overflowing (not_le.mp hlarge) hint] at hrun
    cases hrun
  · exact lossless_of_le hpos

end Runs

end RingBuffer

end MiniOB.Net
