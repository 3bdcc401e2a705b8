import Turbine.Streaming.Body

/-!
# Turbine.Streaming.Forwarder

The task that takes a streamed body off the pipe and hands its chunks to the
body channel: the `drive` of `start_streaming_forwarder`, which is also the
`drive` of `consume_streaming`.  A send waits for room in the channel, so all
that the task sees of the receiver is whether it is still there; when it is gone,
a second loop takes the remaining frames off the pipe.  Allocations succeed, whatever
number of headers a frame announces.

* `truncated_visible_iff`: the streams whose truncation the receiver cannot see
  are those that end between two frames;
* `forwarder_stops_iff`: when the forwarder stops at the first frame that closes
  the response.
-/

namespace Turbine.Streaming

open Base

/-! ## the pipe -/

/-- What `read_frame_async` comes to: a frame, the end of the pipe, an error, or a
wait that lasts as long as the worker keeps the pipe open. -/
inductive Read
  | frame (frame : Frame) (rest : Bytes)
  | eof
  | failed (e : IoError) (rest : Bytes)
  | pending
deriving DecidableEq, Repr

/-- `read_frame_async` on a pipe that holds `bytes` and that the worker has closed
or not.  An unknown discriminant is the only byte taken; a frame that is cut off
is taken as far as it goes. -/
def readPipe (closed : Bool) (bytes : Bytes) : Read :=
  match readFrame bytes with
  | .ok (some (frame, rest)) => .frame frame rest
  | .ok none => if closed then .eof else .pending
  | .error e =>
    if e.kind = .unexpectedEof then if closed then .failed e [] else .pending
    else .failed e bytes.tail

variable {closed : Bool} {bytes rest tail : Bytes} {frame : Frame}

theorem readPipe_of_readFrame (h : readFrame bytes = .ok (some (frame, rest))) :
    readPipe closed bytes = .frame frame rest := by
  rw [readPipe, h]

theorem readPipe_eq_frame :
    readPipe closed bytes = .frame frame rest ↔ readFrame bytes = .ok (some (frame, rest)) := by
  refine ⟨fun h => ?_, readPipe_of_readFrame⟩
  rw [readPipe] at h
  split at h
  · cases h
    assumption
  · split at h <;> cases h
  · split_ifs at h

/-- Only an empty pipe is at its end. -/
theorem readPipe_eq_eof : readPipe closed bytes = .eof ↔ bytes = [] ∧ closed = true := by
  constructor
  · intro h
    rw [readPipe] at h
    split at h
    · cases h
    · next hread =>
        split at h
        · refine ⟨?_, ‹_›⟩
          cases bytes with
          | nil => rfl
          | cons discr bytes => exact absurd hread (readFrame_cons_ne_none discr bytes)
        · cases h
    · split_ifs at h
  · rintro ⟨rfl, rfl⟩
    rfl

theorem length_lt_of_failed {e : IoError} (h : readPipe false bytes = .failed e rest) :
    rest.length < bytes.length := by
  rw [readPipe] at h
  split at h
  · cases h
  · cases h
  · next hread =>
      rw [if_neg Bool.false_ne_true] at h
      split at h <;> cases h
      cases bytes with
      | nil => cases hread
      | cons discr bytes => exact Nat.lt_succ_self _

/-! ## the channel -/

/-- The receiver of the body channel: kept to the end, or dropped when so many
items have been sent. -/
inductive Receiver
  | kept
  | dropped (after : Nat)
deriving DecidableEq, Repr

/-- Whether the send after `n` others still finds the receiver. -/
def Receiver.takes : Receiver → Nat → Bool
  | .kept, _ => true
  | .dropped after, n => n < after

/-- The receiver is there for the first `n` sends. -/
def Receiver.Outlives (receiver : Receiver) (n : Nat) : Prop := ∀ m < n, receiver.takes m = true

theorem outlives_zero {receiver : Receiver} : receiver.Outlives 0 :=
  fun _ h => absurd h (Nat.not_lt_zero _)

/-- An item of the body channel. -/
abbrev Item := Except BodyError Bytes

/-- The items of the channel after one more send. -/
def Receiver.send (receiver : Receiver) (sent : List Item) (item : Item) : List Item :=
  if receiver.takes sent.length then sent ++ [item] else sent

/-- What reading a `ChannelBody` to its end gives: all the chunks, or the first
error. -/
def channelBody : List Item → Except BodyError Bytes
  | [] => .ok []
  | .error e :: _ => .error e
  | .ok chunk :: items => (channelBody items).map (chunk ++ ·)

/-! ## the two loops -/

/-- The items sent, what `done` resolves to (`none` as long as the task waits for
the worker), and the bytes left in the pipe. -/
structure Forwarded where
  sent : List Item
  done : Option (Except BodyError Bool)
  rest : Bytes
deriving Repr

def disconnected : BodyError := .brokenPipe "client disconnected mid-stream"

/-- One turn of the loop that empties the pipe once the receiver is gone. -/
def discardTurn (closed : Bool) (bytes : Bytes) :
    (Unit × Bytes) ⊕ (Option (Except BodyError Bool) × Bytes) :=
  match readPipe closed bytes with
  | .frame (.endFrame ok) rest => .inr (some (.ok ok), rest)
  | .frame _ rest => .inl ((), rest)
  | .eof => .inr (some (.error disconnected), [])
  | .failed _ rest => .inr (some (.error disconnected), rest)
  | .pending => .inr (none, [])

theorem readFrame_of_discardTurn (h : discardTurn closed bytes = .inl ((), rest)) :
    ∃ frame, readFrame bytes = .ok (some (frame, rest)) := by
  rw [discardTurn] at h
  split at h <;> cases h
  exact ⟨_, readPipe_eq_frame.1 ‹_›⟩

def discardLoop (closed : Bool) : Loop UInt8 Unit (Option (Except BodyError Bool) × Bytes) where
  turn _ bytes := discardTurn closed bytes
  shorter _ _ _ _ h := by
    obtain ⟨frame, hread⟩ := readFrame_of_discardTurn h
    exact length_lt_of_readFrame hread

def closedEarly : BodyError :=
  .io ⟨.unexpectedEof, "streaming response pipe closed before End frame"⟩

def headersMidStream : BodyError := .io ⟨.invalidData, "unexpected Headers frame mid-stream"⟩

def duplicateHeaders : BodyError := .io ⟨.invalidData, "duplicate Headers frame"⟩

/-- One turn of the loop of `drive`. -/
def driveTurn (receiver : Receiver) (closed : Bool) (sent : List Item) (bytes : Bytes) :
    (List Item × Bytes) ⊕ Forwarded :=
  match readPipe closed bytes with
  | .frame (.bodyChunk chunk) rest =>
    if receiver.takes sent.length then .inl (sent ++ [.ok chunk], rest)
    else
      let (done, rest) := (discardLoop closed).run () rest
      .inr ⟨sent, done, rest⟩
  | .frame (.endFrame ok) rest => .inr ⟨sent, some (.ok ok), rest⟩
  | .frame (.headers _ _) rest =>
    .inr ⟨receiver.send sent (.error headersMidStream), some (.error duplicateHeaders), rest⟩
  | .frame (.error msg) rest => .inr ⟨sent, some (.error (.other (fromUtf8Lossy msg))), rest⟩
  | .eof => .inr ⟨sent, some (.error closedEarly), []⟩
  | .failed e rest => .inr ⟨receiver.send sent (.error (.io e)), some (.error (.io e)), rest⟩
  | .pending => .inr ⟨sent, none, []⟩

theorem readFrame_of_driveTurn {receiver : Receiver} {sent sent' : List Item}
    (h : driveTurn receiver closed sent bytes = .inl (sent', rest)) :
    ∃ chunk, readFrame bytes = .ok (some (.bodyChunk chunk, rest)) := by
  rw [driveTurn] at h
  split at h <;> try cases h
  split at h <;> cases h
  exact ⟨_, readPipe_eq_frame.1 ‹_›⟩

def driveLoop (receiver : Receiver) (closed : Bool) : Loop UInt8 (List Item) Forwarded where
  turn sent bytes := driveTurn receiver closed sent bytes
  shorter _ _ _ _ h := by
    obtain ⟨chunk, hread⟩ := readFrame_of_driveTurn h
    exact length_lt_of_readFrame hread

/-- `start_streaming_forwarder` on a pipe whose headers frame has been read. -/
def startStreamingForwarder (receiver : Receiver) (closed : Bool) (bytes : Bytes) :
    Forwarded := (driveLoop receiver closed).run [] bytes

/-- `StreamingHead`, with what becomes of its body. -/
structure StreamingHead where
  httpStatus : UInt16
  headers : List (String × String)
  body : Forwarded

/-- `consume_streaming`; `none` as long as it waits for the first frame. -/
def consumeStreaming (receiver : Receiver) (closed : Bool) (bytes : Bytes) :
    Option (Except BodyError StreamingHead) :=
  match readPipe closed bytes with
  | .frame (.headers httpStatus headers) rest =>
    some (.ok ⟨httpStatus, headers, startStreamingForwarder receiver closed rest⟩)
  | .frame (.error msg) _ =>
    some (.error (.other ("consume_streaming: worker emitted Error frame: " ++ fromUtf8Lossy msg)))
  | .frame (.bodyChunk _) _ | .frame (.endFrame _) _ =>
    some (.error (.io ⟨.invalidData, "consume_streaming: first frame must be Headers"⟩))
  | .eof =>
    some (.error (.io ⟨.unexpectedEof, "consume_streaming: pipe closed before Headers frame"⟩))
  | .failed e _ => some (.error (.io e))
  | .pending => none

/-! ## chunks -/

/-- Reading `bytes` frame by frame gives `chunks`, and leaves `rest`. -/
inductive Chunks : Bytes → List Bytes → Bytes → Prop
  | nil {bytes : Bytes} : Chunks bytes [] bytes
  | cons {bytes chunk rest tail : Bytes} {chunks : List Bytes}
      (hread : readFrame bytes = .ok (some (.bodyChunk chunk, rest)))
      (h : Chunks rest chunks tail) : Chunks bytes (chunk :: chunks) tail

/-- No chunk comes next. -/
def NoChunk (bytes : Bytes) : Prop :=
  ∀ chunk rest, readFrame bytes ≠ .ok (some (.bodyChunk chunk, rest))

variable {receiver : Receiver} {sent : List Item} {chunks chunks' : List Bytes}

theorem driveTurn_of_chunk {chunk : Bytes}
    (hread : readFrame bytes = .ok (some (.bodyChunk chunk, rest))) :
    driveTurn receiver closed sent bytes =
      if receiver.takes sent.length then .inl (sent ++ [.ok chunk], rest)
      else
        .inr ⟨sent, ((discardLoop closed).run () rest).1,
          ((discardLoop closed).run () rest).2⟩ := by
  rw [driveTurn, readPipe_of_readFrame hread]

theorem run_of_driveTurn_inl {sent' : List Item}
    (h : driveTurn receiver closed sent bytes = .inl (sent', rest)) :
    (driveLoop receiver closed).run sent bytes = (driveLoop receiver closed).run sent' rest :=
  Loop.run_more (l := driveLoop receiver closed) h

theorem run_of_driveTurn_inr {f : Forwarded} (h : driveTurn receiver closed sent bytes = .inr f) :
    (driveLoop receiver closed).run sent bytes = f :=
  Loop.run_done (l := driveLoop receiver closed) h

/-- Every stream starts with its chunks. -/
theorem exists_chunks (bytes : Bytes) : ∃ chunks rest, Chunks bytes chunks rest ∧ NoChunk rest := by
  refine (driveLoop .kept true).run_induction
    (P := fun _ bytes _ => ∃ chunks rest, Chunks bytes chunks rest ∧ NoChunk rest) ?_ ?_ [] bytes
  · intro sent bytes f hturn
    refine ⟨[], bytes, .nil, fun chunk rest hread => ?_⟩
    have htakes : Receiver.kept.takes sent.length = true := rfl
    change driveTurn .kept true sent bytes = .inr f at hturn
    rw [driveTurn_of_chunk hread, if_pos htakes] at hturn
    cases hturn
  · rintro sent bytes sent' rest - hturn ⟨chunks, tail, hchunks, hno⟩
    obtain ⟨chunk, hread⟩ := readFrame_of_driveTurn hturn
    exact ⟨chunk :: chunks, tail, .cons hread hchunks, hno⟩

theorem Chunks.unique {rest' : Bytes} (h : Chunks bytes chunks rest) (hno : NoChunk rest)
    (h' : Chunks bytes chunks' rest') (hno' : NoChunk rest') : rest = rest' := by
  induction h generalizing chunks' with
  | nil =>
    cases h' with
    | nil => rfl
    | cons hread => exact absurd hread (hno _ _)
  | cons hread _ ih =>
    cases h' with
    | nil => exact absurd hread (hno' _ _)
    | cons hread' h' =>
      rw [hread] at hread'
      cases hread'
      exact ih hno h'

/-- **Run lemma.**  As long as the receiver is there, the chunks are sent. -/
theorem run_chunks (h : Chunks bytes chunks rest)
    (hout : receiver.Outlives (sent.length + chunks.length)) :
    (driveLoop receiver closed).run sent bytes =
      (driveLoop receiver closed).run (sent ++ chunks.map .ok) rest := by
  induction h generalizing sent with
  | nil => rw [List.map_nil, List.append_nil]
  | @cons bytes chunk rest tail chunks hread _ ih =>
    have htakes : receiver.takes sent.length = true := hout _ (by simp)
    have hturn : driveTurn receiver closed sent bytes = .inl (sent ++ [.ok chunk], rest) := by
      rw [driveTurn_of_chunk hread, if_pos htakes]
    rw [run_of_driveTurn_inl hturn, ih, List.map_cons, List.append_assoc, List.singleton_append]
    rw [List.length_append, List.length_singleton, Nat.add_assoc, Nat.add_comm 1]
    exact hout

/-- **Run lemma.**  Without the receiver, chunks are thrown away. -/
theorem run_discard (h : Chunks bytes chunks rest) :
    (discardLoop closed).run () bytes = (discardLoop closed).run () rest := by
  induction h with
  | nil => rfl
  | @cons bytes chunk rest tail chunks hread _ ih =>
    have hturn : (discardLoop closed).turn () bytes = .inl ((), rest) := by
      change discardTurn closed bytes = _
      rw [discardTurn, readPipe_of_readFrame hread]
    rw [Loop.run_more hturn, ih]

/-- **Run lemma.**  If the receiver goes away among the chunks, the second loop has
the rest of the pipe. -/
theorem run_disconnect (h : Chunks bytes chunks rest) (hsent : receiver.Outlives sent.length)
    (hout : ¬ receiver.Outlives (sent.length + chunks.length)) :
    ((driveLoop receiver closed).run sent bytes).done =
        ((discardLoop closed).run () rest).1 ∧
      ((driveLoop receiver closed).run sent bytes).rest =
        ((discardLoop closed).run () rest).2 := by
  induction h generalizing sent with
  | nil => exact absurd hsent hout
  | @cons bytes chunk rest tail chunks hread htail ih =>
    cases htakes : receiver.takes sent.length with
    | true =>
      have hturn : driveTurn receiver closed sent bytes = .inl (sent ++ [.ok chunk], rest) := by
        rw [driveTurn_of_chunk hread, if_pos htakes]
      rw [run_of_driveTurn_inl hturn]
      rw [List.length_cons] at hout
      refine ih ?_ ?_
      · intro m hm
        rw [List.length_append, List.length_singleton] at hm
        obtain hm | rfl := Nat.lt_succ_iff_lt_or_eq.1 hm
        · exact hsent m hm
        · exact htakes
      · rw [List.length_append, List.length_singleton, Nat.add_assoc, Nat.add_comm 1]
        exact hout
    | false =>
      have hturn : driveTurn receiver closed sent bytes =
          .inr ⟨sent, ((discardLoop closed).run () rest).1,
            ((discardLoop closed).run () rest).2⟩ := by
        rw [driveTurn_of_chunk hread, if_neg (by simp [htakes])]
      rw [run_of_driveTurn_inr hturn, run_discard htail]
      exact ⟨rfl, rfl⟩

/-! ## what the receiver sees -/

/-- The frame closes the response. -/
def Frame.isTerminal : Frame → Bool
  | .endFrame _ | .error _ => true
  | .headers _ _ | .bodyChunk _ => false

/-- Behind the chunks, an end or an error frame is read. -/
def ReadsTerminal (bytes : Bytes) : Prop :=
  ∃ chunks rest frame tail, Chunks bytes chunks rest ∧
    readFrame rest = .ok (some (frame, tail)) ∧ frame.isTerminal = true

/-- The pipe is closed behind a chunk. -/
def EndsBetweenFrames (closed : Bool) (bytes : Bytes) : Prop :=
  closed = true ∧ ∃ chunks, Chunks bytes chunks []

/-- The channel is closed, and `ChannelBody` shows no error. -/
def Forwarded.PresentsComplete (f : Forwarded) : Prop :=
  f.done.isSome = true ∧ ∃ body, channelBody f.sent = .ok body

theorem channelBody_chunks (chunks : List Bytes) :
    channelBody (chunks.map .ok) = .ok chunks.flatten := by
  induction chunks with
  | nil => rfl
  | cons chunk chunks ih =>
    rw [List.map_cons, channelBody, ih, List.flatten_cons]
    rfl

theorem channelBody_chunks_error (chunks : List Bytes) (e : BodyError) :
    channelBody (chunks.map .ok ++ [.error e]) = .error e := by
  induction chunks with
  | nil => rfl
  | cons chunk chunks ih =>
    rw [List.map_cons, List.cons_append, channelBody, ih]
    rfl

theorem noChunk_of_terminal (hread : readFrame bytes = .ok (some (frame, rest)))
    (hterm : frame.isTerminal = true) : NoChunk bytes := by
  intro chunk rest' hchunk
  rw [hread] at hchunk
  cases hchunk
  cases hterm

theorem noChunk_nil : NoChunk [] := fun _ _ h => by cases h

/-- A stream cannot both be closed by a frame and end between two frames. -/
theorem not_endsBetweenFrames_of_readsTerminal (h : ReadsTerminal bytes) :
    ¬ EndsBetweenFrames closed bytes := by
  rintro ⟨-, chunks', hchunks'⟩
  obtain ⟨chunks, rest, frame, tail, hchunks, hread, hterm⟩ := h
  obtain rfl := hchunks.unique (noChunk_of_terminal hread hterm) hchunks' noChunk_nil
  cases hread

/-- While the receiver is kept, the body looks complete iff a frame closed it or the
pipe ended between two frames. -/
theorem presentsComplete_iff (closed : Bool) (bytes : Bytes) :
    (startStreamingForwarder .kept closed bytes).PresentsComplete ↔
      ReadsTerminal bytes ∨ EndsBetweenFrames closed bytes := by
  obtain ⟨chunks, rest, hchunks, hno⟩ := exists_chunks bytes
  have hterminal : ReadsTerminal bytes ↔
      ∃ frame tail, readFrame rest = .ok (some (frame, tail)) ∧ frame.isTerminal = true := by
    constructor
    · rintro ⟨chunks', rest', frame, tail, hchunks', hread, hterm⟩
      obtain rfl := hchunks.unique hno hchunks' (noChunk_of_terminal hread hterm)
      exact ⟨frame, tail, hread, hterm⟩
    · rintro ⟨frame, tail, hread, hterm⟩
      exact ⟨chunks, rest, frame, tail, hchunks, hread, hterm⟩
  have hends : EndsBetweenFrames closed bytes ↔ rest = [] ∧ closed = true := by
    constructor
    · rintro ⟨hclosed, chunks', hchunks'⟩
      exact ⟨hchunks.unique hno hchunks' noChunk_nil, hclosed⟩
    · rintro ⟨rfl, hclosed⟩
      exact ⟨hclosed, chunks, hchunks⟩
  rw [startStreamingForwarder, run_chunks hchunks (fun _ _ => rfl), List.nil_append, hterminal,
    hends, ← readPipe_eq_eof]
  have hsend : ∀ item : Item, Receiver.kept.send (chunks.map .ok) item =
      chunks.map .ok ++ [item] := fun _ => rfl
  have hunread : (∀ frame tail, readPipe closed rest ≠ .frame frame tail) →
      ∀ frame tail, readFrame rest ≠ .ok (some (frame, tail)) :=
    fun hpipe frame tail hframe => hpipe frame tail (readPipe_of_readFrame hframe)
  cases hread : readPipe closed rest with
  | frame frame tail =>
    have hframe := readPipe_eq_frame.1 hread
    rw [hframe]
    cases frame with
    | headers httpStatus headers =>
      rw [run_of_driveTurn_inr (by rw [driveTurn, hread])]
      simp [Forwarded.PresentsComplete, hsend, channelBody_chunks_error, Frame.isTerminal]
    | bodyChunk chunk => exact absurd hframe (hno _ _)
    | endFrame ok | error msg =>
      rw [run_of_driveTurn_inr (by rw [driveTurn, hread])]
      simp [Forwarded.PresentsComplete, channelBody_chunks, Frame.isTerminal]
  | eof =>
    rw [run_of_driveTurn_inr (by rw [driveTurn, hread])]
    simp [Forwarded.PresentsComplete, channelBody_chunks]
  | failed e tail =>
    have hframe := hunread (by simp [hread])
    rw [run_of_driveTurn_inr (by rw [driveTurn, hread])]
    simp [Forwarded.PresentsComplete, hsend, channelBody_chunks_error, hframe]
  | pending =>
    have hframe := hunread (by simp [hread])
    rw [run_of_driveTurn_inr (by rw [driveTurn, hread])]
    simp [Forwarded.PresentsComplete, hframe]

/-- **Truncation.**  While the receiver is kept, a body that looks complete was closed
by an end or an error frame, unless the pipe ended between two frames: then it looks
complete although nothing closed it.  With `consume_streaming` it is the same behind
the headers. -/
theorem truncated_visible_iff (closed : Bool) (bytes : Bytes) :
    (((startStreamingForwarder .kept closed bytes).PresentsComplete → ReadsTerminal bytes) ↔
      ¬ EndsBetweenFrames closed bytes) ∧
    ∀ head, consumeStreaming .kept closed bytes = some (.ok head) →
      ∃ rest, readFrame bytes = .ok (some (.headers head.httpStatus head.headers, rest)) ∧
        ((head.body.PresentsComplete → ReadsTerminal rest) ↔ ¬ EndsBetweenFrames closed rest) := by
  have hiff : ∀ bytes, ((startStreamingForwarder .kept closed bytes).PresentsComplete →
      ReadsTerminal bytes) ↔ ¬ EndsBetweenFrames closed bytes := by
    intro bytes
    rw [presentsComplete_iff]
    constructor
    · intro h hends
      exact not_endsBetweenFrames_of_readsTerminal (h (.inr hends)) hends
    · rintro hends (h | h)
      · exact h
      · exact absurd h hends
  refine ⟨hiff bytes, fun head hhead => ?_⟩
  rw [consumeStreaming] at hhead
  split at hhead <;> cases hhead
  exact ⟨_, readPipe_eq_frame.1 ‹_›, hiff _⟩

/-- The worker dies behind a chunk: the chunk is presented as the whole body. -/
theorem cut_body_looks_complete :
    let f := startStreamingForwarder .kept true (encodeBodyChunk [1, 2, 3])
    channelBody f.sent = .ok [1, 2, 3] ∧ f.PresentsComplete ∧
      ¬ ReadsTerminal (encodeBodyChunk [1, 2, 3]) := by
  have hends : EndsBetweenFrames true (encodeBodyChunk [1, 2, 3]) :=
    ⟨rfl, [[1, 2, 3]], .cons (readFrame_encodeBodyChunk (by decide) []) .nil⟩
  exact ⟨rfl, ⟨rfl, [1, 2, 3], rfl⟩, fun h => not_endsBetweenFrames_of_readsTerminal h hends⟩

/-! ## where the forwarder stops -/

def Frame.isChunk : Frame → Bool
  | .bodyChunk _ => true
  | .headers _ _ | .endFrame _ | .error _ => false

/-- The chunks that the frames start with. -/
def leadingChunks (frames : List Frame) : List Frame := frames.takeWhile Frame.isChunk

/-- The first frame that is to stop the forwarder: an end, an error, or headers, which
have no place there. -/
def firstStop (frames : List Frame) : Option Frame := (frames.dropWhile Frame.isChunk).head?

/-- The frames behind it. -/
def afterStop (frames : List Frame) : List Frame := (frames.dropWhile Frame.isChunk).tail

/-- Whatever follows the frames, the forwarder takes the bytes up to and including the
first frame that is to stop it, and resolves `done`. -/
def StopsAtFirst (receiver : Receiver) (frames : List Frame) : Prop :=
  ∀ rest closed,
    let f := startStreamingForwarder receiver closed (frames.flatMap Frame.encode ++ rest)
    f.done.isSome = true ∧ f.rest = (afterStop frames).flatMap Frame.encode ++ rest

variable {stop : Frame}

/-- A receiver that goes away leaves the rest of the pipe to the second loop. -/
theorem start_disconnect (closed : Bool) (h : Chunks bytes chunks rest)
    (hout : ¬ receiver.Outlives chunks.length) :
    (startStreamingForwarder receiver closed bytes).done =
        ((discardLoop closed).run () rest).1 ∧
      (startStreamingForwarder receiver closed bytes).rest =
        ((discardLoop closed).run () rest).2 :=
  run_disconnect h outlives_zero (by simpa using hout)

/-- With the receiver still there, every frame that is no chunk stops the forwarder. -/
theorem stops_of_outlives (h : Chunks bytes chunks rest)
    (hread : readFrame rest = .ok (some (stop, tail))) (hstop : stop.isChunk = false)
    (hout : receiver.Outlives chunks.length) :
    (startStreamingForwarder receiver closed bytes).done.isSome = true ∧
      (startStreamingForwarder receiver closed bytes).rest = tail := by
  have hpipe : readPipe closed rest = .frame stop tail := readPipe_of_readFrame hread
  rw [startStreamingForwarder, run_chunks h (by simpa using hout)]
  cases stop with
  | bodyChunk chunk => cases hstop
  | headers httpStatus headers | endFrame ok | error msg =>
    rw [run_of_driveTurn_inr (by rw [driveTurn, hpipe])]
    exact ⟨rfl, rfl⟩

/-- With or without the receiver, an end frame stops the forwarder. -/
theorem stops_of_endFrame {ok : Bool} (h : Chunks bytes chunks rest)
    (hread : readFrame rest = .ok (some (.endFrame ok, tail))) :
    (startStreamingForwarder receiver closed bytes).done.isSome = true ∧
      (startStreamingForwarder receiver closed bytes).rest = tail := by
  by_cases hout : receiver.Outlives chunks.length
  · exact stops_of_outlives h hread rfl hout
  · have hturn : (discardLoop closed).turn () rest = .inr (some (.ok ok), tail) := by
      change discardTurn closed rest = _
      rw [discardTurn, readPipe_of_readFrame hread]
    obtain ⟨hdone, hrest⟩ := start_disconnect closed h hout
    rw [hdone, hrest, Loop.run_done hturn]
    exact ⟨rfl, rfl⟩

/-- On a pipe that stays open, the second loop waits or has taken something. -/
theorem discard_open (bytes : Bytes) :
    ((discardLoop false).run () bytes).1 = none ∨
      ((discardLoop false).run () bytes).2.length < bytes.length := by
  refine (discardLoop false).run_induction
    (P := fun _ bytes r => r.1 = none ∨ r.2.length < bytes.length) ?_ ?_ () bytes
  · intro _ bytes r hturn
    change discardTurn false bytes = .inr r at hturn
    rw [discardTurn] at hturn
    split at hturn <;> cases hturn
    · next hpipe => exact .inr (length_lt_of_readFrame (readPipe_eq_frame.1 hpipe))
    · next hpipe => exact absurd (readPipe_eq_eof.1 hpipe).2 Bool.false_ne_true
    · next hpipe => exact .inr (length_lt_of_failed hpipe)
    · exact .inl rfl
  · intro _ bytes _ rest r hturn ih
    obtain ⟨frame, hread⟩ := readFrame_of_discardTurn hturn
    exact ih.imp id fun hlt => Nat.lt_trans hlt (length_lt_of_readFrame hread)

/-- Without the receiver, no other frame does: the forwarder waits, or goes on into what
follows. -/
theorem passes_of_gone (h : Chunks bytes chunks rest)
    (hread : readFrame rest = .ok (some (stop, tail))) (hend : ∀ ok, stop ≠ .endFrame ok)
    (hout : ¬ receiver.Outlives chunks.length) :
    (startStreamingForwarder receiver false bytes).done = none ∨
      (startStreamingForwarder receiver false bytes).rest.length < tail.length := by
  have hturn : (discardLoop false).turn () rest = .inl ((), tail) := by
    change discardTurn false rest = _
    rw [discardTurn, readPipe_of_readFrame hread]
    cases stop with
    | endFrame ok => exact absurd rfl (hend ok)
    | headers | bodyChunk | error => rfl
  obtain ⟨hdone, hrest⟩ := start_disconnect false h hout
  rw [hdone, hrest, Loop.run_more hturn]
  exact discard_open tail

/-- A pipe with nothing but chunks is emptied; `done` resolves if it is closed. -/
theorem empties_chunks (h : Chunks bytes chunks []) :
    (startStreamingForwarder receiver closed bytes).rest = [] ∧
      (startStreamingForwarder receiver closed bytes).done.isSome = closed := by
  by_cases hout : receiver.Outlives chunks.length
  · rw [startStreamingForwarder, run_chunks h (by simpa using hout)]
    cases closed <;> exact ⟨rfl, rfl⟩
  · obtain ⟨hdone, hrest⟩ := start_disconnect closed h hout
    rw [hdone, hrest]
    cases closed <;> exact ⟨rfl, rfl⟩

/-- Leading chunks are read as chunks. -/
theorem chunks_of_leadingChunks (frames : List Frame) (hfits : ∀ frame ∈ frames, frame.Fits)
    (rest : Bytes) :
    ∃ chunks, chunks.length = (leadingChunks frames).length ∧
      Chunks ((leadingChunks frames).flatMap Frame.encode ++ rest) chunks rest := by
  induction frames with
  | nil => exact ⟨[], rfl, .nil⟩
  | cons frame frames ih =>
    rw [List.forall_mem_cons] at hfits
    obtain ⟨chunks, hlen, hchunks⟩ := ih hfits.2
    cases frame with
    | bodyChunk chunk =>
      have hlead : leadingChunks (.bodyChunk chunk :: frames) =
          .bodyChunk chunk :: leadingChunks frames := rfl
      refine ⟨chunk :: chunks, by rw [hlead, List.length_cons, List.length_cons, hlen], ?_⟩
      rw [hlead, List.flatMap_cons, List.append_assoc]
      exact .cons (readFrame_encode hfits.1 _) hchunks
    | headers | endFrame | error => exact ⟨[], rfl, .nil⟩

/-- **Where the forwarder stops.**  It takes exactly the bytes up to and including the
first end or error frame (or the first misplaced headers frame) and resolves `done`, iff
that frame is an end frame or the receiver is there until all chunks before it are sent.
Chunks that nothing follows are all taken, and `done` resolves when the pipe is closed. -/
theorem forwarder_stops_iff {frames : List Frame} (hfits : ∀ frame ∈ frames, frame.Fits)
    (receiver : Receiver) :
    (∀ stop, firstStop frames = some stop → (StopsAtFirst receiver frames ↔
      (∃ ok, stop = .endFrame ok) ∨ receiver.Outlives (leadingChunks frames).length)) ∧
    (firstStop frames = none → ∀ closed,
      let f := startStreamingForwarder receiver closed (frames.flatMap Frame.encode)
      f.rest = [] ∧ f.done.isSome = closed) := by
  have hsplit : leadingChunks frames ++ frames.dropWhile Frame.isChunk = frames :=
    List.takeWhile_append_dropWhile
  constructor
  · intro stop hstop
    obtain ⟨after, hdrop⟩ := List.head?_eq_some_iff.1 hstop
    have hbytes : ∀ rest, frames.flatMap Frame.encode ++ rest =
        (leadingChunks frames).flatMap Frame.encode ++
          (stop.encode ++ (after.flatMap Frame.encode ++ rest)) := by
      intro rest
      conv_lhs => rw [← hsplit, hdrop]
      simp
    have hafter : afterStop frames = after := by rw [afterStop, hdrop, List.tail_cons]
    have hmem : stop ∈ frames := by
      rw [← hsplit, hdrop]
      simp
    have hread : ∀ rest, readFrame (stop.encode ++ rest) = .ok (some (stop, rest)) :=
      readFrame_encode (hfits stop hmem)
    have hchunk : stop.isChunk = false := by
      have hhead := List.head?_dropWhile_not Frame.isChunk frames
      rw [hdrop] at hhead
      simpa using hhead
    constructor
    · intro h
      obtain ⟨chunks, hlen, hchunks⟩ := chunks_of_leadingChunks frames hfits
        (stop.encode ++ (after.flatMap Frame.encode ++ []))
      rw [← hbytes] at hchunks
      by_contra hnot
      rw [not_or, not_exists, ← hlen] at hnot
      obtain ⟨hdone, hrest⟩ := h [] false
      obtain hwaits | hlt := passes_of_gone hchunks (hread _) hnot.1 hnot.2
      · rw [hwaits] at hdone
        cases hdone
      · rw [hrest, hafter] at hlt
        exact Nat.lt_irrefl _ hlt
    · intro h rest closed
      obtain ⟨chunks, hlen, hchunks⟩ := chunks_of_leadingChunks frames hfits
        (stop.encode ++ (after.flatMap Frame.encode ++ rest))
      rw [← hbytes] at hchunks
      rw [hafter]
      obtain ⟨ok, rfl⟩ | hout := h
      · exact stops_of_endFrame hchunks (hread _)
      · exact stops_of_outlives hchunks (hread _) hchunk (hlen ▸ hout)
  · intro hnone closed
    rw [firstStop, List.head?_eq_none_iff] at hnone
    obtain ⟨chunks, -, hchunks⟩ := chunks_of_leadingChunks frames hfits []
    rw [hnone, List.append_nil] at hsplit
    rw [hsplit, List.append_nil] at hchunks
    exact empties_chunks hchunks

/-- The client goes away before the first chunk is sent, and the response ends as it
should. -/
theorem forwarder_stops_iff_endFrame :
    firstStop [.bodyChunk [1], .endFrame true] = some (.endFrame true) ∧
      StopsAtFirst (.dropped 0) [.bodyChunk [1], .endFrame true] := by
  have hfits : ∀ frame ∈ [Frame.bodyChunk [1], .endFrame true], frame.Fits := by simp [Frame.Fits]
  exact ⟨rfl, ((forwarder_stops_iff hfits (.dropped 0)).1 _ rfl).2 (.inl ⟨true, rfl⟩)⟩

/-- The client goes away before the chunk is sent, and an error frame follows: the
forwarder takes the next response off the pipe, or waits for it. -/
theorem forwarder_takes_next_response : let frames : List Frame := [.bodyChunk [1], .error [2]]
    let next := encodeHeaders 200 [] ++ encodeEnd true
    firstStop frames = some (.error [2]) ∧
      (startStreamingForwarder (.dropped 0) false (frames.flatMap Frame.encode ++ next)).rest = [] ∧
      (startStreamingForwarder (.dropped 0) false (frames.flatMap Frame.encode)).done = none := by
  exact ⟨rfl, rfl, rfl⟩

end Turbine.Streaming
