import Turbine.Native.Worker
import Turbine.Persistent.Worker

/-!
# Turbine.Pool.Termination

What a worker that waits for its next command makes of `Worker::terminate`.  A
forked worker gets a signal; a thread gets the byte `WorkerCmd::Shutdown` on its
command pipe, whichever event loop it runs.

`worker_event_loop_native` and `worker_event_loop_channel` know that byte,
`worker_event_loop_persistent` has one of its own (`0xFF`), and a channel worker
has no command pipe to write to.

The pipes stay open here, so a loop that finds too few bytes waits for more
(`Pass.blocked`), where the passes of the other modules find the end of the pipe.

* `understood_iff`: which workers leave their loop without another word.
-/

namespace Turbine.Pool

open Base Engine
open Native (NativeRequest NativeResponse answerTo)
open Persistent (DecodedRequest)

/-! ## event loops over open pipes -/

/-- One pass of an event loop over what has arrived so far: the loop is left, waits for
more, or has taken a command and leaves the rest. -/
inductive Pass (σ γ : Type)
  | exit
  | blocked
  | next (s : σ) (rest : List γ)

/-- Passes until the loop is left or waits: whether it was left, and what it has come to.
A pass takes something, so `fuel` does not run out when it exceeds the number of items. -/
def settle {σ γ : Type} (pass : σ → List γ → Pass σ γ) : Nat → σ → List γ → Bool × σ
  | 0, s, _ => (false, s)
  | fuel + 1, s, cmd =>
    match pass s cmd with
    | .exit => (true, s)
    | .blocked => (false, s)
    | .next s rest => settle pass fuel s rest

/-- `WorkerCmd::Shutdown`. -/
def shutdownCmd : UInt8 := 2

/-- `worker_event_loop_native`.  The state is what has been written. -/
def nativePass (php : NativeRequest → Native.Execution) (resp cmd : Bytes) : Pass Bytes UInt8 :=
  match Native.loopPass php cmd with
  | .answer a rest => .next (resp ++ a.frame) rest
  | .exit => if cmd.head? = some shutdownCmd then .exit else .blocked

/-- `worker_event_loop_persistent`. -/
def persistentPass (rt : Runtime) (php : DecodedRequest → Persistent.Execution) (s : Output)
    (cmd : Bytes) : Pass Output UInt8 :=
  match Persistent.loopPass rt php s cmd with
  | some (s, rest) => .next s rest
  | none => if cmd.head? = some 0xFF then .exit else .blocked

/-- `worker_event_loop_channel`, over the messages in the request channel.  The state is
what has been sent. -/
def channelPass (php : NativeRequest → Native.Execution) (sent : List NativeResponse) :
    List Bytes → Pass (List NativeResponse) Bytes
  | [] => .blocked
  | [] :: _ => .exit
  | (cmd :: payload) :: rest =>
    if cmd = shutdownCmd then .exit
    else if cmd = 3 ∧ 5 < payload.length + 1 then
      let data := payload.drop 4
      let totalLen := leValue (payload.take 4)
      .next (sent ++ [(answerTo php (data.take (min totalLen data.length))).response]) rest
    else .next sent rest

/-! ## workers and their handles -/

/-- A worker that waits for a command: the loop it runs, and what it has written or sent
so far. -/
inductive Loop
  | native (php : NativeRequest → Native.Execution) (resp : Bytes)
  | persistent (rt : Runtime) (php : DecodedRequest → Persistent.Execution) (out : Output)
  | channel (php : NativeRequest → Native.Execution) (sent : List NativeResponse)

/-- The worker was started with pipes.  `register_channel_thread` has `-1` for them. -/
def Loop.hasPipes : Loop → Bool
  | .native .. | .persistent .. => true
  | .channel .. => false

/-- All that went to the response pipe, and all that went to the response channel. -/
def Loop.written : Loop → Bytes × List NativeResponse
  | .native _ resp => (resp, [])
  | .persistent _ _ out => (out.pipe, [])
  | .channel _ sent => ([], sent)

inductive Backend
  | process
  | thread
deriving DecidableEq, Repr

/-- A worker of the pool that waits for a command.  Forked workers have pipes. -/
structure IdleWorker where
  backend : Backend
  loop : Loop
  pipes : backend = .process → loop.hasPipes = true

/-- What `Worker::terminate` delivers. -/
inductive Delivery
  | sigterm
  | bytes (cmd : Bytes)
  | nothing
deriving DecidableEq, Repr

/-- `Worker::terminate`.  Writing to the descriptor `-1` fails, and the error is dropped. -/
def IdleWorker.terminate (w : IdleWorker) : Delivery :=
  match w.backend with
  | .process => .sigterm
  | .thread => if w.loop.hasPipes then .bytes [shutdownCmd] else .nothing

/-- The loop takes what has arrived, bytes on the pipe or messages in the channel: whether
it is left, and how it stands then. -/
def Loop.take (cmd : Bytes) (messages : List Bytes) : Loop → Bool × Loop
  | .native php resp =>
    let r := settle (nativePass php) (cmd.length + 1) resp cmd
    (r.1, .native php r.2)
  | .persistent rt php out =>
    let r := settle (persistentPass rt php) (cmd.length + 1) out cmd
    (r.1, .persistent rt php r.2)
  | .channel php sent =>
    let r := settle (channelPass php) (messages.length + 1) sent messages
    (r.1, .channel php r.2)

/-- What becomes of the worker once that is delivered.  The signal ends a process. -/
def Loop.receive (loop : Loop) : Delivery → Bool × Loop
  | .sigterm => (true, loop)
  | .bytes cmd => loop.take cmd []
  | .nothing => loop.take [] []

/-- The worker leaves its loop when it is told to, and neither writes nor sends anything. -/
def IdleWorker.Understood (w : IdleWorker) : Prop :=
  (w.loop.receive w.terminate).1 = true ∧
    (w.loop.receive w.terminate).2.written = w.loop.written

/-! ## the byte in each loop -/

/-- The persistent loop answers that it does not know the command, and waits for the next
one. -/
theorem settle_shutdown_persistent (rt : Runtime) (php : DecodedRequest → Persistent.Execution)
    (out : Output) :
    settle (persistentPass rt php) 2 out [shutdownCmd] =
      (false, out.write Persistent.unknownCommand) := rfl

/-- A channel worker would understand the byte, if it got it. -/
example (php : NativeRequest → Native.Execution) (sent : List NativeResponse) :
    settle (channelPass php) 2 sent [[shutdownCmd]] = (true, sent) := rfl

/-- Exactly the forked workers and the native threads with pipes understand. -/
theorem understood_iff (w : IdleWorker) :
    w.Understood ↔ w.backend = .process ∨ ∃ php resp, w.loop = .native php resp := by
  obtain ⟨backend, loop, hpipes⟩ := w
  cases backend with
  | process => exact iff_of_true ⟨rfl, rfl⟩ (.inl rfl)
  | thread =>
    cases loop with
    | native php resp => exact iff_of_true ⟨rfl, rfl⟩ (.inr ⟨php, resp, rfl⟩)
    | persistent rt php out =>
      refine iff_of_false ?_ (by simp)
      rintro ⟨hleft, -⟩
      have hstays : (Loop.receive (.persistent rt php out) (.bytes [shutdownCmd])).1 = false :=
        congrArg Prod.fst (settle_shutdown_persistent rt php out)
      exact absurd (hstays.symm.trans hleft) Bool.false_ne_true
    | channel php sent =>
      refine iff_of_false ?_ (by simp)
      rintro ⟨hleft, -⟩
      cases hleft

/-- PHP does nothing. -/
def silentScript : Persistent.Execution := ⟨[], [], [], [], 200, true⟩

/-- A persistent worker thread that has signalled that it is ready. -/
def readyThread : IdleWorker where
  backend := .thread
  loop := .persistent ⟨true, toAsciiLowercase⟩ (fun _ => silentScript)
    { pipe := Persistent.readySignal }
  pipes := nofun

/-- It is told to stop, answers with an error response and goes on waiting. -/
theorem persistent_thread_stays :
    readyThread.terminate = .bytes [shutdownCmd] ∧
      (readyThread.loop.receive readyThread.terminate).1 = false ∧
      (readyThread.loop.receive readyThread.terminate).2.written =
        (Persistent.readySignal ++ Persistent.unknownCommand, []) ∧
      ¬ readyThread.Understood := by
  have hstays : (readyThread.loop.receive readyThread.terminate).1 = false := rfl
  refine ⟨rfl, hstays, rfl, fun hunderstood => ?_⟩
  exact absurd (hstays.symm.trans hunderstood.1) Bool.false_ne_true

end Turbine.Pool
