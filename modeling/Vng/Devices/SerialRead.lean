import Vng.Host
import Vng.Lib.Machine
import Vng.Lib.Transducer
import Vng.Devices.Slip

/-!
# `devices::serial::Device`, the receive side

The read-ready callback of `devicesdevice.cpp`. It reads into a buffer of 128 bytes and hands the
buffer to the protocol, with what `::read` returned for its size, until a read does not fill the
buffer. The descriptor is non-blocking, so the callback may end with a failed read. The size is
unsigned: `-1` is the largest of all.
-/

namespace Vng
namespace SerialRead

open Memory (Checked loadAll loadAll_eq_ok)

/-- `sizeof(packet)`, and the number of bytes asked for. -/
def bufferSize : ℕ := 128

/-- The bytes that one `::read` can return. -/
abbrev Chunk := { bytes : List Byte // bytes.length ≤ bufferSize }

/-- The result of `::read`. -/
inductive Result
  | bytes (chunk : Chunk)
  | failed
deriving DecidableEq

def Result.ret : Result → ℤ
  | .bytes chunk => chunk.val.length
  | .failed => -1

/-- The bytes that were returned. -/
def Result.returned : Result → List Byte
  | .bytes chunk => chunk.val
  | .failed => []

/-- `size = ::read(..)`, converted to `uint32_t`. -/
def Result.size (result : Result) : BitVec 32 := BitVec.ofInt 32 result.ret

abbrev Buffer := Vector Byte bufferSize

/-- The buffer behind `::read`. -/
def Buffer.fill (buffer : Buffer) : Result → Buffer
  | .bytes chunk =>
    ⟨(chunk.val ++ buffer.toList.drop chunk.val.length).toArray, by
      have hle := chunk.property
      rw [List.size_toArray, List.length_append, List.length_drop, Vector.length_toList]
      omega⟩
  | .failed => buffer

/-- A call of `_readed`: the size, and what is read at the pointer. -/
structure Call where
  size : BitVec 32
  bytes : Checked (List Byte)
deriving DecidableEq

/-- `_readed.call(&packet[0], size)`. -/
def call (buffer : Buffer) (size : BitVec 32) : Call := ⟨size, loadAll buffer.toList 0 size.toNat⟩

variable {σ β : Type}

/-- The device, with the decoder of its protocol and a record of the callbacks. -/
structure State (σ β : Type) where
  /-- Inside the read-ready callback. -/
  reading : Bool
  buffer : Buffer
  /-- The state of the decoder, and what it has delivered. -/
  decoder : Checked (σ × List β)
  /-- The results of `::read` in the callback that runs, or ran last. -/
  callback : List Result
  /-- The bytes that `::read` has returned in all callbacks. -/
  returned : List Byte
  calls : List Call

/-- The device after a successful `open`; the buffer is whatever is on the stack. -/
def opened (buffer : Buffer) (start : σ) : State σ β where
  reading := false
  buffer := buffer
  decoder := .ok (start, [])
  callback := []
  returned := []
  calls := []

inductive Event
  /-- epoll reports `EPOLLIN`: the callback begins. -/
  | ready
  /-- `::read` returns. -/
  | read (result : Result)
deriving DecidableEq

/-- `devices::Device::Private::received`: `decode` of the protocol goes over the bytes of a
call. -/
def received (decodeByte : σ → Byte → σ × List β) (decoder : Checked (σ × List β))
    (call : Call) : Checked (σ × List β) := do
  let decoder ← decoder
  let bytes ← call.bytes
  let next := Transducer.run decodeByte decoder.1 bytes
  return (next.1, decoder.2 ++ next.2)

def step (decodeByte : σ → Byte → σ × List β) (s : State σ β) : Event → Option (State σ β)
  | .ready => if s.reading then none else some { s with reading := true, callback := [] }
  | .read result =>
    if s.reading then
      let buffer := s.buffer.fill result
      let call := call buffer result.size
      some {
        reading := result.size = 128
        buffer := buffer
        decoder := received decodeByte s.decoder call
        callback := s.callback ++ [result]
        returned := s.returned ++ result.returned
        calls := s.calls ++ [call] }
    else none

/-! ## One read -/

@[simp] lemma size_bytes (chunk : Chunk) : (Result.bytes chunk).size.toNat = chunk.val.length := by
  have hle := chunk.property
  simp only [bufferSize] at hle
  simp only [Result.size, Result.ret, BitVec.ofInt_natCast, BitVec.toNat_ofNat]
  omega

@[simp] lemma size_failed : Result.failed.size.toNat = 2 ^ 32 - 1 := rfl

/-- The loop goes on exactly behind a read that fills the buffer. -/
lemma size_eq_iff (result : Result) : result.size = 128 ↔ result.ret = 128 := by
  rw [← BitVec.toNat_inj]
  cases result with
  | bytes chunk =>
    rw [size_bytes]
    simp [Result.ret]
    omega
  | failed => decide

/-- The bytes of a read stand at the beginning of the buffer. -/
lemma call_bytes (buffer : Buffer) (chunk : Chunk) :
    (call (buffer.fill (.bytes chunk)) (Result.bytes chunk).size).bytes = .ok chunk.val := by
  have hle := chunk.property
  have hlist : (buffer.fill (.bytes chunk)).toList =
      chunk.val ++ buffer.toList.drop chunk.val.length := rfl
  unfold call
  dsimp only
  rw [size_bytes, hlist, loadAll_eq_ok (by rw [List.length_append]; omega), List.drop_zero,
    List.take_left]

/-- A failed read is handed on as the largest size, and the decoder leaves the buffer. -/
lemma call_failed (buffer : Buffer) :
    call buffer Result.failed.size = ⟨Result.failed.size, .error .outOfBounds⟩ := by
  unfold call loadAll
  rw [if_neg]
  rw [Vector.length_toList, size_failed]
  decide

/-! ## The run -/

/-- The calls hand on the bytes that were returned, in order and from inside the buffer. -/
structure Handed (s : State σ β) : Prop where
  bytes : ∃ handed : List (List Byte),
    s.calls.map Call.bytes = handed.map .ok ∧ handed.flatten = s.returned
  size : ∀ call ∈ s.calls, call.size.toNat ≤ bufferSize

/-- The callback goes on exactly up to the first result other than 128. -/
structure Ends (s : State σ β) : Prop where
  full : ∀ result ∈ s.callback.dropLast, result.ret = 128
  last : ∀ result ∈ s.callback.getLast?, s.reading ↔ result.ret = 128

/-- The protocol has been fed with what was read. -/
structure Fed (decodeByte : σ → Byte → σ × List β) (start : σ) (s : State σ β) : Prop where
  handed : Handed s
  ends : Ends s
  decoder : s.decoder = .ok (Transducer.run decodeByte start s.returned)

variable {decodeByte : σ → Byte → σ × List β} {start : σ}

lemma ends_of_nil {s : State σ β} (h : s.callback = []) : Ends s := by
  constructor <;> simp [h]

lemma fed_opened (buffer : Buffer) : Fed decodeByte start (opened buffer start) where
  handed := ⟨⟨[], rfl, rfl⟩, by simp [opened]⟩
  ends := ends_of_nil rfl
  decoder := rfl

/-- A result that joins the results of a callback that goes on. -/
lemma ends_read {s s' : State σ β} (h : Ends s) (hreading : s.reading) {result : Result}
    (hstep : step decodeByte s (.read result) = some s') : Ends s' := by
  dsimp only [step] at hstep
  rw [if_pos hreading] at hstep
  obtain rfl := Option.some.inj hstep
  constructor
  · dsimp only
    rw [List.dropLast_concat]
    intro earlier hearlier
    rcases List.eq_nil_or_concat s.callback with hnil | ⟨results, last, hcallback⟩
    · rw [hnil] at hearlier
      cases hearlier
    · rw [List.concat_eq_append] at hcallback
      -- it was read on after this call, so it filled the buffer
      have hlast : last.ret = 128 := (h.last last (by rw [hcallback]; simp)).mp hreading
      have hfull := h.full
      rw [hcallback, List.dropLast_concat] at hfull
      rw [hcallback] at hearlier
      rcases List.mem_append.mp hearlier with hmem | hmem
      · exact hfull earlier hmem
      · rwa [List.mem_singleton.mp hmem]
  · dsimp only
    rw [List.getLast?_concat]
    intro last hlast
    obtain rfl := Option.some.inj hlast
    rw [decide_eq_true_eq]
    exact size_eq_iff result

lemma handed_bytes {s s' : State σ β} (h : Handed s) {chunk : Chunk}
    (hstep : step decodeByte s (.read (.bytes chunk)) = some s') : Handed s' := by
  dsimp only [step] at hstep
  split_ifs at hstep with hreading
  obtain rfl := Option.some.inj hstep
  obtain ⟨⟨handed, hbytes, hflatten⟩, hsize⟩ := h
  refine ⟨⟨handed ++ [chunk.val], ?_, ?_⟩, ?_⟩
  · simp only [List.map_append, List.map_cons, List.map_nil, hbytes, call_bytes]
  · rw [List.flatten_append, hflatten, List.flatten_singleton]
    rfl
  · intro c hc
    rcases List.mem_append.mp hc with hold | hnew
    · exact hsize c hold
    · rw [List.mem_singleton.mp hnew]
      show (Result.bytes chunk).size.toNat ≤ bufferSize
      rw [size_bytes]
      exact chunk.property

lemma fed_step {s s' : State σ β} {event : Event} (h : Fed decodeByte start s)
    (hevent : event ≠ .read .failed) (hstep : step decodeByte s event = some s') :
    Fed decodeByte start s' := by
  cases event with
  | ready =>
    dsimp only [step] at hstep
    split_ifs at hstep
    obtain rfl := Option.some.inj hstep
    exact ⟨⟨h.handed.bytes, h.handed.size⟩, ends_of_nil rfl, h.decoder⟩
  | read result =>
    cases result with
    | failed => exact absurd rfl hevent
    | bytes chunk =>
      by_cases hreading : s.reading
      · refine ⟨handed_bytes h.handed hstep, ends_read h.ends hreading hstep, ?_⟩
        dsimp only [step] at hstep
        rw [if_pos hreading] at hstep
        obtain rfl := Option.some.inj hstep
        dsimp only
        unfold received
        -- the decoder goes on from where the calls before have left it
        rw [h.decoder, call_bytes]
        exact congrArg Except.ok (Transducer.run_append decodeByte start s.returned _).symm
      · dsimp only [step] at hstep
        rw [if_neg hreading] at hstep
        cases hstep

/-- A failed read is handed on with a size beyond the buffer. -/
lemma not_fed_failed {s s' : State σ β} (hstep : step decodeByte s (.read .failed) = some s') :
    ¬ Fed decodeByte start s' := by
  dsimp only [step] at hstep
  split_ifs at hstep
  obtain rfl := Option.some.inj hstep
  intro h
  have hle := h.handed.size (call (s.buffer.fill .failed) Result.failed.size) (by simp)
  rw [call_failed, size_failed] at hle
  exact absurd hle (by decide)

/-- **Receive.** Throughout a run every callback hands the protocol the bytes that were read, in
order and from inside the buffer, and ends at the first result other than 128, exactly if no
read of the run fails. -/
theorem fed_iff (decodeByte : σ → Byte → σ × List β) (start : σ) (buffer : Buffer)
    {events : List Event} {s : State σ β}
    (hrun : Machine.run (step decodeByte) (opened buffer start) events = some s) :
    Machine.Always (step decodeByte) (Fed decodeByte start) (opened buffer start) events ↔
      .read .failed ∉ events := by
  have hiff : Machine.Always (step decodeByte) (Fed decodeByte start) (opened buffer start)
      events ↔ Machine.Along (step decodeByte) (fun _ event => event ≠ .read .failed)
        (opened buffer start) events := by
    apply Machine.always_iff_along (fun _ h => h) (fun _ _ _ h => fed_step h) ?_
      (fed_opened buffer) hrun
    intro s event s' _ hevent hstep
    rw [not_not.mp hevent] at hstep
    exact not_fed_failed hstep
  rw [hiff, Machine.along_iff_forall_mem hrun]
  constructor
  · intro h hmem
    exact h _ hmem rfl
  · rintro h event hmem rfl
    exact h hmem

set_option maxRecDepth 2000 in
/-- A frame in two reads of one callback. -/
theorem fed_iff_frame :
    Machine.Always (step Slip.decodeByte) (Fed Slip.decodeByte Slip.reset)
      (opened (Vector.replicate 128 0) Slip.reset)
      [.ready, .read (.bytes ⟨List.replicate 128 0x41, by decide⟩),
        .read (.bytes ⟨[0xC0], by decide⟩)] :=
  (fed_iff Slip.decodeByte Slip.reset _ rfl).mpr (by decide)

set_option maxRecDepth 2000 in
/-- A full buffer and then `EAGAIN`: the second call has a size of `2^32 - 1` bytes, and the
decoder runs out of the buffer. -/
theorem fed_again :
    ∃ s : State Slip.Private Slip.Packet,
      Machine.run (step Slip.decodeByte) (opened (Vector.replicate 128 0) Slip.reset)
        [.ready, .read (.bytes ⟨List.replicate 128 0x41, by decide⟩), .read .failed] = some s ∧
      s.calls.map (fun call => call.size.toNat) = [128, 2 ^ 32 - 1] ∧
      s.decoder = .error .outOfBounds ∧ ¬ Fed Slip.decodeByte Slip.reset s := by
  refine ⟨_, rfl, rfl, rfl, ?_⟩
  intro h
  exact absurd h.decoder (by decide)

end SerialRead
end Vng
