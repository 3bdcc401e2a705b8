import Turbine.Base.Fetch
import Turbine.Streaming.Frame

/-!
# Turbine.Streaming.Fetching

`read_frame_async`, and `read_frame`, which makes the same calls, one read at a time:
the discriminant with a `read` that may find the end of the pipe, the rest with
`read_exact`.

* `eval_fetchFrame`: on the bytes there are, that is `readFrame`; where `readFrame` runs
  out of bytes, the reader waits as long as the pipe is open.
-/

namespace Turbine.Streaming

open Base Wire

variable {ε : Type}

/-- A header name or value: its length, then the bytes. -/
def fetchText (e : ε) : Fetch UInt8 ε String := do
  let len ← Fetch.nat e 2
  let text ← Fetch.exactly e len
  pure (fromUtf8Lossy text)

def fetchHeaderPair (e : ε) : Fetch UInt8 ε (String × String) := do
  let key ← fetchText e
  let val ← fetchText e
  pure (key, val)

theorem reads_fetchText (e : ε) : Fetch.Reads e (fetchText e) readText :=
  (Fetch.reads_nat e 2).bind fun len =>
    (Fetch.reads_exactly e len).bind fun text => Fetch.reads_pure e (fromUtf8Lossy text)

theorem reads_fetchHeaderPair (e : ε) : Fetch.Reads e (fetchHeaderPair e) readHeaderPair :=
  (reads_fetchText e).bind fun key => (reads_fetchText e).bind fun val =>
    Fetch.reads_pure e (key, val)

/-- What is read behind the discriminant. -/
def fetchBehind (discr : UInt8) : Fetch UInt8 IoError (Option Frame) :=
  if discr = frameHeaders then do
    let status ← Fetch.nat earlyEof 2
    let headerCount ← Fetch.nat earlyEof 4
    let headers ← (fetchHeaderPair earlyEof).many headerCount
    pure (some (.headers (.ofNat status) headers))
  else if discr = frameBodyChunk then do
    let chunkLen ← Fetch.nat earlyEof 4
    let chunk ← Fetch.exactly earlyEof chunkLen
    pure (some (.bodyChunk chunk))
  else if discr = frameEnd then do
    let ok ← Fetch.nat earlyEof 1
    pure (some (.endFrame (ok != 0)))
  else if discr = frameError then do
    let msgLen ← Fetch.nat earlyEof 4
    let msg ← Fetch.exactly earlyEof msgLen
    pure (some (.error msg))
  else .done (.error (unknownDiscriminant discr))

/-- What follows the first byte of a frame, if there is one. -/
def fetchOnwards : Option Bytes → Fetch UInt8 IoError (Option Frame)
  | some (discr :: _) => fetchBehind discr
  | _ => pure none

/-- `read_frame_async`, call by call. -/
def fetchFrame : Fetch UInt8 IoError (Option Frame) := .recv 1 fetchOnwards

/-- What a reader has once the bytes there are give `result`: `readFrame` runs out of
bytes where the reader would wait. -/
def settled (ended : Bool) (behind : Bytes) :
    Except IoError (Option (Frame × Bytes)) →
      Option (Except IoError (Option Frame) × Bytes)
  | .ok (some (frame, rest)) => some (.ok (some frame), rest)
  | .ok none => if ended then some (.ok none, []) else none
  | .error e =>
    if e = earlyEof then if ended then some (.error e, []) else none
    else some (.error e, behind)

variable {ended : Bool} {bytes behind : Bytes}

/-- One read of a frame's reader, and the same read of `readFrame`. -/
theorem eval_read_bind {ρ : Type} {f : Fetch UInt8 IoError ρ}
    {g : Bytes → Option (ρ × Bytes)} (hf : Fetch.Reads earlyEof f g)
    {k : ρ → Fetch UInt8 IoError (Option Frame)}
    {k' : ρ × Bytes → Except IoError (Option (Frame × Bytes))}
    (hk : ∀ r rest, (k r).eval ended rest = settled ended behind (k' (r, rest))) :
    (f >>= k).eval ended bytes = settled ended behind (readExact (g bytes) >>= k') := by
  rw [Fetch.eval_bind, hf ended bytes]
  cases g bytes with
  | none => cases ended <;> rfl
  | some p => exact hk p.1 p.2

theorem eval_fetchBehind (ended : Bool) (discr : UInt8) (bytes : Bytes) :
    (fetchBehind discr).eval ended bytes =
      settled ended bytes (readFrame (discr :: bytes)) := by
  rw [fetchBehind, readFrame]
  split_ifs
  · exact eval_read_bind (Fetch.reads_nat earlyEof 2) fun _ _ =>
      eval_read_bind (Fetch.reads_nat earlyEof 4) fun headerCount _ =>
        eval_read_bind ((reads_fetchHeaderPair earlyEof).many headerCount) fun _ _ => rfl
  · exact eval_read_bind (Fetch.reads_nat earlyEof 4) fun chunkLen _ =>
      eval_read_bind (Fetch.reads_exactly earlyEof chunkLen) fun _ _ => rfl
  · exact eval_read_bind (Fetch.reads_nat earlyEof 1) fun _ _ => rfl
  · exact eval_read_bind (Fetch.reads_nat earlyEof 4) fun msgLen _ =>
      eval_read_bind (Fetch.reads_exactly earlyEof msgLen) fun _ _ => rfl
  · rw [settled, if_neg]
    · rfl
    · intro h
      have hkind := congrArg IoError.kind h
      cases hkind

/-- **Call by call.**  The reader has what `readFrame` makes of the bytes there are. -/
theorem eval_fetchFrame (ended : Bool) (bytes : Bytes) :
    fetchFrame.eval ended bytes = settled ended bytes.tail (readFrame bytes) := by
  cases bytes with
  | nil => cases ended <;> rfl
  | cons discr bytes =>
    rw [fetchFrame, Fetch.eval, if_pos (by simp)]
    exact eval_fetchBehind ended discr bytes

end Turbine.Streaming
