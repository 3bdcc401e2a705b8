import Turbine.Base.Loops
import Turbine.Streaming.Frame

/-!
# Turbine.Streaming.Body

The body of a buffered response, which `drain_body_buffered` takes off the pipe
with a frame parser of its own: chunks are read straight into the accumulator,
and a headers frame is refused at its discriminant.  `frameByFrame` is what it
stands for: `read_frame_async` in a loop.  Allocations succeed: for a headers frame that
announces 2^32 - 1 headers it reserves about 206 GB.

* `drainBodyBuffered_sameOutcome`: the two loops do the same on every byte stream.
-/

namespace Turbine.Streaming

open Base Wire

/-! ## the inline parser -/

/-- The `io::Error`s of the readers of a body: those of a read, and the readers'
own. -/
inductive BodyError
  | io (e : IoError)
  | other (message : String)
  | brokenPipe (message : String)
deriving DecidableEq, Repr

/-- One `read_exact` of a body's reader. -/
def readFully {α : Type} (result : Option α) : Except BodyError α :=
  result.elim (.error (.io earlyEof)) .ok

@[simp] theorem readFully_some_bind {α β : Type} (a : α) (f : α → Except BodyError β) :
    (readFully (some a) >>= f) = f a := rfl

def drainClosed : BodyError :=
  .io ⟨.unexpectedEof, "drain_body_buffered: pipe closed before End frame"⟩

def drainHeaders : BodyError :=
  .io ⟨.invalidData, "drain_body_buffered: unexpected Headers frame mid-body"⟩

def drainUnknown (other : UInt8) : BodyError :=
  .io ⟨.invalidData, "drain_body_buffered: unknown frame discriminant: 0x" ++ hexByte other⟩

/-- One turn of the loop of `drain_body_buffered`: the body so far and the bytes
behind the frame, or the body, the `ok` flag and the bytes behind the end. -/
def drainTurn (body : Bytes) : Bytes →
    Except BodyError ((Bytes × Bytes) ⊕ ((Bytes × Bool) × Bytes))
  | [] => .error drainClosed
  | discr :: bytes =>
    if discr = frameBodyChunk then do
      let (chunkLen, bytes) ← readFully (readNat 4 bytes)
      let (chunk, bytes) ← readFully (splitOff chunkLen bytes)
      .ok (.inl (body ++ chunk, bytes))
    else if discr = frameEnd then do
      let (ok, bytes) ← readFully (readNat 1 bytes)
      .ok (.inr ((body, ok != 0), bytes))
    else if discr = frameError then do
      let (msgLen, bytes) ← readFully (readNat 4 bytes)
      let (msg, _) ← readFully (splitOff msgLen bytes)
      .error (.other (fromUtf8Lossy msg))
    else if discr = frameHeaders then .error drainHeaders
    else .error (drainUnknown discr)

/-! ## frame by frame -/

/-- Why a body read frame by frame is not complete. -/
inductive Stop
  | closed
  | io (e : IoError)
  | headers
  | error (msg : Bytes)
deriving DecidableEq, Repr

/-- One call of `read_frame_async`, with its chunk put behind the others. -/
def frameTurn (body bytes : Bytes) : Except Stop ((Bytes × Bytes) ⊕ ((Bytes × Bool) × Bytes)) :=
  match readFrame bytes with
  | .error e => .error (.io e)
  | .ok none => .error .closed
  | .ok (some (.bodyChunk chunk, rest)) => .ok (.inl (body ++ chunk, rest))
  | .ok (some (.endFrame ok, rest)) => .ok (.inr ((body, ok), rest))
  | .ok (some (.error msg, _)) => .error (.error msg)
  | .ok (some (.headers _ _, _)) => .error .headers

theorem readFrame_of_frameTurn {body bytes body' rest : Bytes}
    (h : frameTurn body bytes = .ok (.inl (body', rest))) :
    ∃ chunk, readFrame bytes = .ok (some (.bodyChunk chunk, rest)) ∧ body' = body ++ chunk := by
  rw [frameTurn] at h
  split at h <;> cases h
  exact ⟨_, ‹_›, rfl⟩

/-! ## one turn -/

/-- `e` is what `drain_body_buffered` reports where reading frame by frame stops
with `stop`.  A headers frame is refused before its end is in sight. -/
inductive BodyError.Reports : BodyError → Stop → Prop
  | closed : Reports drainClosed .closed
  | cut : Reports (.io earlyEof) (.io earlyEof)
  | unknown (b : UInt8) : Reports (drainUnknown b) (.io (unknownDiscriminant b))
  | error (msg : Bytes) : Reports (.other (fromUtf8Lossy msg)) (.error msg)
  | headers : Reports drainHeaders .headers
  | cutHeaders : Reports drainHeaders (.io earlyEof)

/-- Both succeed with the same, or both fail for the same reason. -/
inductive SameOutcome {ρ : Type} : Except BodyError ρ → Except Stop ρ → Prop
  | ok (r : ρ) : SameOutcome (.ok r) (.ok r)
  | error {e : BodyError} {stop : Stop} (h : e.Reports stop) :
      SameOutcome (.error e) (.error stop)

theorem SameOutcome.ok_iff {ρ : Type} {x : Except BodyError ρ} {y : Except Stop ρ}
    (h : SameOutcome x y) (r : ρ) : x = .ok r ↔ y = .ok r := by
  cases h with
  | ok r' => simp
  | error => simp

/-- **Turn lemma.**  On the same bytes, a turn of the inline parser does what a call
of `read_frame_async` does. -/
theorem drainTurn_frameTurn (body bytes : Bytes) :
    SameOutcome (drainTurn body bytes) (frameTurn body bytes) := by
  cases bytes with
  | nil => exact .error .closed
  | cons discr bytes =>
    by_cases hchunk : discr = frameBodyChunk
    · subst hchunk
      rw [drainTurn, if_pos rfl, frameTurn, readFrame, if_neg (by decide), if_pos rfl]
      rcases readNat 4 bytes with _ | ⟨chunkLen, bytes⟩
      · exact .error .cut
      · simp only [readFully_some_bind, readExact_some_bind]
        rcases splitOff chunkLen bytes with _ | ⟨chunk, bytes⟩
        · exact .error .cut
        · exact .ok _
    by_cases hend : discr = frameEnd
    · subst hend
      rw [drainTurn, if_neg (by decide), if_pos rfl, frameTurn, readFrame, if_neg (by decide),
        if_neg (by decide), if_pos rfl]
      rcases readNat 1 bytes with _ | ⟨ok, bytes⟩
      · exact .error .cut
      · exact .ok _
    by_cases herror : discr = frameError
    · subst herror
      rw [drainTurn, if_neg (by decide), if_neg (by decide), if_pos rfl, frameTurn, readFrame,
        if_neg (by decide), if_neg (by decide), if_neg (by decide), if_pos rfl]
      rcases readNat 4 bytes with _ | ⟨msgLen, bytes⟩
      · exact .error .cut
      · simp only [readFully_some_bind, readExact_some_bind]
        rcases splitOff msgLen bytes with _ | ⟨msg, bytes⟩
        · exact .error .cut
        · exact .error (.error msg)
    by_cases hheaders : discr = frameHeaders
    · subst hheaders
      rw [drainTurn, if_neg (by decide), if_neg (by decide), if_neg (by decide), if_pos rfl,
        frameTurn, readFrame, if_pos rfl]
      -- the reader of frames goes on to the end of the headers
      rcases readNat 2 bytes with _ | ⟨status, bytes⟩
      · exact .error .cutHeaders
      simp only [readExact_some_bind]
      rcases readNat 4 bytes with _ | ⟨headerCount, bytes⟩
      · exact .error .cutHeaders
      simp only [readExact_some_bind]
      rcases readMany readHeaderPair headerCount bytes with _ | ⟨headers, bytes⟩
      · exact .error .cutHeaders
      · exact .error .headers
    · rw [drainTurn, if_neg hchunk, if_neg hend, if_neg herror, if_neg hheaders, frameTurn,
        readFrame_of_unknown (by simp [*])]
      exact .error (.unknown discr)

/-! ## the loops -/

theorem drainTurn_shorter {body bytes body' rest : Bytes}
    (h : drainTurn body bytes = .ok (.inl (body', rest))) : rest.length < bytes.length := by
  have hframe := (drainTurn_frameTurn body bytes).ok_iff (.inl (body', rest))
  obtain ⟨chunk, hread, -⟩ := readFrame_of_frameTurn (hframe.1 h)
  exact length_lt_of_readFrame hread

/-- The loop of `drain_body_buffered`. -/
def drainLoop : Loop UInt8 Bytes (Except BodyError ((Bytes × Bool) × Bytes)) where
  turn body bytes := settle (drainTurn body bytes)
  shorter _ _ _ _ h := drainTurn_shorter (settle_eq_inl.1 h)

/-- `drain_body_buffered`: the body, the `ok` flag and the bytes behind the end
frame. -/
def drainBodyBuffered (bytes : Bytes) : Except BodyError ((Bytes × Bool) × Bytes) :=
  drainLoop.run [] bytes

/-- Calls of `read_frame_async` up to an end or an error. -/
def frameLoop : Loop UInt8 Bytes (Except Stop ((Bytes × Bool) × Bytes)) where
  turn body bytes := settle (frameTurn body bytes)
  shorter _ _ _ _ h := by
    obtain ⟨chunk, hread, -⟩ := readFrame_of_frameTurn (settle_eq_inl.1 h)
    exact length_lt_of_readFrame hread

/-- The body read frame by frame. -/
def frameByFrame (bytes : Bytes) : Except Stop ((Bytes × Bool) × Bytes) := frameLoop.run [] bytes

theorem liftRel_settle {body bytes : Bytes} :
    Sum.LiftRel (fun p q => p.1 = q.1 ∧ p.2 = q.2) SameOutcome
      (drainLoop.turn body bytes) (frameLoop.turn body bytes) := by
  have hturn := drainTurn_frameTurn body bytes
  dsimp only [drainLoop, frameLoop]
  generalize drainTurn body bytes = x at hturn
  generalize frameTurn body bytes = y at hturn
  cases hturn with
  | ok next =>
    cases next with
    | inl next => exact .inl ⟨rfl, rfl⟩
    | inr r => exact .inr (.ok r)
  | error h => exact .inr (.error h)

/-- **The inline parser is the frame reader.**  On every byte stream
`drain_body_buffered` succeeds iff reading frame by frame does, with the same body,
flag and bytes left; and if they fail, they fail for the same reason, except that a
headers frame need not be complete to be refused. -/
theorem drainBodyBuffered_sameOutcome (bytes : Bytes) :
    (∀ r, drainBodyBuffered bytes = .ok r ↔ frameByFrame bytes = .ok r) ∧
      SameOutcome (drainBodyBuffered bytes) (frameByFrame bytes) := by
  have hsame : SameOutcome (drainBodyBuffered bytes) (frameByFrame bytes) := by
    refine Loop.run_rel (S := Eq) ?_ rfl bytes
    rintro body _ bytes rfl
    exact liftRel_settle
  exact ⟨hsame.ok_iff, hsame⟩

end Turbine.Streaming
