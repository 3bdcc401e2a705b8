import Turbine.Base.Duplex
import Turbine.Base.Fetch

/-!
# Turbine.Base.Sessions

A client that sends requests one at a time and reads a response after each, and a
server that reads commands and answers them, over two pipes.  Either side reads
with a decoder: a state machine that asks for items until it has its result.

* `Decoder.Halts`: what a decoder makes of a stream (`Fetch.halts_of_eval`, for decoders that
  run `Fetch` programs), and `Decoder.Yields`: it takes exactly these items for a result;
* `Served.delivers`: whatever the pipes hold at most, however reads and writes are split
  and interleaved, the client gets the responses in order, and all of them
  once nothing is left to do.
-/

namespace Turbine.Base

variable {α ε ρ A D D' R C T : Type}

/-! ## decoders -/

/-- A decoder with states `D` and results `R`: in every state it has its result, or asks
for a number of items. -/
structure Decoder (α D R : Type) where
  start : D
  view : D → (Nat × (Option (List α) → D)) ⊕ R

/-- What the decoder makes of a stream of these items, in `n` reads: its result, or `none`
if it waits for more, and the items it leaves.  A stream that has ended is cut off. -/
inductive Decoder.Halts (dec : Decoder α D R) (ended : Bool) :
    Nat → D → List α → Option R → List α → Prop
  | result {d : D} {r : R} (xs : List α) (h : dec.view d = .inr r) :
      Halts dec ended 0 d xs (some r) xs
  | waits {d : D} {xs : List α} {m : Nat} {next : Option (List α) → D}
      (h : dec.view d = .inl (m, next)) (hlen : xs.length < m) (hopen : ended = false) :
      Halts dec ended 0 d xs none xs
  | recv {n : Nat} {d : D} {xs ys rest : List α} {next : Option (List α) → D} {o : Option R}
      (h : dec.view d = .inl (xs.length, next))
      (hrest : Halts dec ended n (next (some xs)) ys o rest) :
      Halts dec ended (n + 1) d (xs ++ ys) o rest
  | cut {n m : Nat} {d : D} {xs rest : List α} {next : Option (List α) → D} {o : Option R}
      (h : dec.view d = .inl (m, next)) (hlen : xs.length < m) (hended : ended = true)
      (hrest : Halts dec ended n (next none) [] o rest) : Halts dec ended (n + 1) d xs o rest

/-- What a decoder makes of a stream depends on what it asks for only. -/
theorem Decoder.Halts.congr {dec : Decoder α D R} {ended : Bool} {n : Nat} {d d' : D}
    {xs rest : List α} {o : Option R} (h : dec.Halts ended n d xs o rest)
    (hview : dec.view d = dec.view d') : dec.Halts ended n d' xs o rest := by
  cases h with
  | result _ h => exact .result _ (hview.symm.trans h)
  | waits h hlen hopen => exact .waits (hview.symm.trans h) hlen hopen
  | recv h hrest => exact .recv (hview.symm.trans h) hrest
  | cut h hlen hended hrest => exact .cut (hview.symm.trans h) hlen hended hrest

/-- From `d` the decoder takes exactly `xs`, in `n` reads, and has its result. -/
def Decoder.Yields (dec : Decoder α D R) (n : Nat) (d : D) (xs : List α) (r : R) : Prop :=
  dec.Halts false n d xs (some r) []

namespace Fetch

/-- A decoder with a variable that runs a program for reading, and goes on from its result. -/
def decoder (f : Fetch α ε ρ) (a : A)
    (onwards : A → Except ε ρ → (Nat × (Option (List α) → A × Fetch α ε ρ)) ⊕ R) :
    Decoder α (A × Fetch α ε ρ) R where
  start := (a, f)
  view
    | (a, .recv n next) => .inl (n, fun xs => (a, next xs))
    | (a, .done r) => onwards a r

variable {f g : Fetch α ε ρ} {a₀ a : A} {ended : Bool} {n : Nat} {xs rest rest' : List α}
  {onwards : A → Except ε ρ → (Nat × (Option (List α) → A × Fetch α ε ρ)) ⊕ R} {o : Option R}

/-- One read, if there are enough items. -/
theorem halts_recv {m : Nat} {next : Option (List α) → Fetch α ε ρ} (hlen : m ≤ xs.length)
    (h : (f.decoder a₀ onwards).Halts ended n (a, next (some (xs.take m))) (xs.drop m) o rest) :
    (f.decoder a₀ onwards).Halts ended (n + 1) (a, .recv m next) xs o rest := by
  have hview : (f.decoder a₀ onwards).view (a, .recv m next) =
      .inl ((xs.take m).length, fun xs => (a, next xs)) := by
    rw [List.length_take_of_le hlen]
    rfl
  have hrecv := Decoder.Halts.recv hview h
  rwa [List.take_append_drop] at hrecv

/-- The decoder goes on behind what the program has taken. -/
theorem halts_of_eval {r : Except ε ρ} (heval : g.eval ended xs = some (r, rest))
    (h : (f.decoder a₀ onwards).Halts ended n (a, .done r) rest o rest') :
    ∃ m, (f.decoder a₀ onwards).Halts ended m (a, g) xs o rest' := by
  induction g generalizing xs with
  | done r' =>
    cases heval
    exact ⟨n, h⟩
  | recv m next ih =>
    rw [eval] at heval
    split_ifs at heval with hlen hended
    · obtain ⟨l, hl⟩ := ih _ heval
      exact ⟨l + 1, halts_recv hlen hl⟩
    · obtain ⟨l, hl⟩ := ih _ heval
      exact ⟨l + 1, .cut rfl (Nat.lt_of_not_le hlen) hended hl⟩

theorem halts_of_eval_none (heval : g.eval ended xs = none) :
    ∃ m rest, (f.decoder a₀ onwards).Halts ended m (a, g) xs none rest := by
  induction g generalizing xs with
  | done r => cases heval
  | recv m next ih =>
    rw [eval] at heval
    split_ifs at heval with hlen hended
    · obtain ⟨l, rest, hl⟩ := ih _ heval
      exact ⟨l + 1, rest, halts_recv hlen hl⟩
    · obtain ⟨l, rest, hl⟩ := ih _ heval
      exact ⟨l + 1, rest, .cut rfl (Nat.lt_of_not_le hlen) hended hl⟩
    · exact ⟨0, xs, .waits rfl (Nat.lt_of_not_le hlen) (eq_false_of_ne_true hended)⟩

end Fetch

/-! ## the two parties -/

/-- The client: about to send, or reading a response; the requests still to be sent and
the responses so far. -/
inductive Client (α D R : Type)
  | sending (todo : List (List α)) (got : List R)
  | reading (n : Nat) (next : Option (List α) → D) (todo : List (List α)) (got : List R)

/-- The responses so far. -/
def Client.got : Client α D R → List R
  | .sending _ got | .reading _ _ _ got => got

/-- The server: reading a command, answering it, or gone. -/
inductive Server (α D T : Type)
  | waiting (n : Nat) (next : Option (List α) → D) (t : T)
  | replying (answer : List α) (t : T)
  | exited

/-- What a client and a server do: how responses and commands are decoded, after which
responses the client goes on, and the answer to a command with the server's state after it,
or `none` if the server exits.  Both decoders read something before they have a result. -/
structure Session (α D R D' C T : Type) where
  dec : Decoder α D R
  good : R → Bool
  cmdDec : Decoder α D' C
  serve : T → C → Option (List α × T)
  reads : ∃ n next, dec.view dec.start = .inl (n + 1, next)
  readsCmd : ∃ n next, cmdDec.view cmdDec.start = .inl (n + 1, next)

namespace Session

variable (S : Session α D R D' C T)

/-- The client with its decoder in the given state. -/
def decoding (d : D) (todo : List (List α)) (got : List R) : Client α D R :=
  match S.dec.view d with
  | .inl (n, next) => .reading n next todo got
  | .inr r => .sending (if S.good r then todo else []) (got ++ [r])

def clientNext : Client α D R → Intent α (Client α D R)
  | .sending [] _ => .pause
  | .sending (req :: todo) got => .send req (S.decoding S.dec.start todo got)
  | .reading n next todo got => .recv n fun xs => S.decoding (next xs) todo got

/-- The server with its decoder in the given state. -/
def serving (d : D') (t : T) : Server α D' T :=
  match S.cmdDec.view d with
  | .inl (n, next) => .waiting n next t
  | .inr cmd => (S.serve t cmd).elim .exited fun (answer, t') => .replying answer t'

/-- The server waits for the next command. -/
def ready (t : T) : Server α D' T := S.serving S.cmdDec.start t

def serverNext : Server α D' T → Intent α (Server α D' T)
  | .waiting n next t => .recv n fun xs => S.serving (next xs) t
  | .replying answer t => .send answer (S.ready t)
  | .exited => .exit

/-- The client reads each response through a buffer of its own. -/
def client (size : Nat) : Party α (Client α D R) := ⟨S.clientNext, size, false⟩

/-- The server keeps its buffer. -/
def server (size : Nat) : Party α (Server α D' T) := ⟨S.serverNext, size, true⟩

/-- One exchange: the server decodes the request, its answer is decoded by the client, and is
good. -/
def Exchanges (t : T) (req : List α) (r : R) (t' : T) : Prop :=
  ∃ m l cmd answer, S.cmdDec.Yields m S.cmdDec.start req cmd ∧ S.serve t cmd = some (answer, t') ∧
    S.dec.Yields l S.dec.start answer r ∧ S.good r = true

/-- The requests and the responses of a session, exchange by exchange, and what they cost. -/
inductive Served : Nat → T → List (List α) → List R → T → Prop
  | nil (t : T) : Served 0 t [] [] t
  | cons {k l n : Nat} {t t' t'' : T} {req answer : List α} {cmd : C} {r : R}
      {reqs : List (List α)} {rs : List R} (hcmd : S.cmdDec.Yields k S.cmdDec.start req cmd)
      (hserve : S.serve t cmd = some (answer, t')) (hresp : S.dec.Yields l S.dec.start answer r)
      (hgood : S.good r = true) (hrest : Served n t' reqs rs t'') :
      Served (1 + 3 * req.length + (k + (1 + 3 * answer.length + (l + n)))) t (req :: reqs)
        (r :: rs) t''

/-- What comes behind a response: the other exchanges, with `rs` the responses there will
be. -/
structure Continues (rs : List R) (t₁ : T) (n : Nat) (r : R) (todo : List (List α))
    (got : List R) (t : T) : Prop where
  isGood : S.good r = true
  rest : ∃ rest, S.Served n t todo rest t₁ ∧ (got ++ [r]) ++ rest = rs

/-- A session on its way: what is left of it, and what that costs.  Nothing is under way but
a request that the server reads, or a response that the client reads. -/
inductive InStep (rs : List R) (t₁ : T) : Nat → Dialogue α (Client α D R) (Server α D' T) → Prop
  | idle {n : Nat} {t : T} {todo : List (List α)} {got rest : List R}
      (hserved : S.Served n t todo rest t₁) (hrs : got ++ rest = rs) :
      InStep rs t₁ n ⟨.sending todo got, S.ready t, [], []⟩
  | asked {k l n : Nat} {next : Option (List α) → D'} {t t' : T} {xs ys answer : List α}
      {cmd : C} {r : R} {todo : List (List α)} {got : List R}
      (hcmd : S.cmdDec.Yields k (next (some xs)) ys cmd)
      (hserve : S.serve t cmd = some (answer, t')) (hresp : S.dec.Yields l S.dec.start answer r)
      (hthen : S.Continues rs t₁ n r todo got t') :
      InStep rs t₁ (1 + (k + (1 + 3 * answer.length + (l + n))))
        ⟨S.decoding S.dec.start todo got, .waiting xs.length next t, xs ++ ys, []⟩
  | replying {l n : Nat} {t' : T} {answer : List α} {r : R} {todo : List (List α)}
      {got : List R} (hresp : S.dec.Yields l S.dec.start answer r)
      (hthen : S.Continues rs t₁ n r todo got t') :
      InStep rs t₁ (1 + 3 * answer.length + (l + n))
        ⟨S.decoding S.dec.start todo got, .replying answer t', [], []⟩
  | answered {l n : Nat} {next : Option (List α) → D} {t' : T} {xs ys : List α} {r : R}
      {todo : List (List α)} {got : List R} (hresp : S.dec.Yields l (next (some xs)) ys r)
      (hthen : S.Continues rs t₁ n r todo got t') :
      InStep rs t₁ (1 + (l + n)) ⟨.reading xs.length next todo got, S.ready t', [], xs ++ ys⟩

variable {S} {rs : List R} {t₁ t t' : T} {k l n : Nat} {d : D} {d' : D'} {xs answer : List α}
  {cmd : C} {r : R} {todo : List (List α)} {got : List R}

/-- The client is reading a response. -/
theorem InStep.of_yields (hresp : S.dec.Yields l d xs r)
    (hthen : S.Continues rs t₁ n r todo got t') :
    S.InStep rs t₁ (l + n) ⟨S.decoding d todo got, S.ready t', [], xs⟩ := by
  cases hresp with
  | result _ hview =>
    obtain ⟨hgood, rest, hserved, hrs⟩ := hthen
    rw [decoding, hview, Nat.zero_add]
    dsimp only
    rw [if_pos hgood]
    exact .idle hserved hrs
  | @recv l _ _ _ _ _ _ hview hrest =>
    rw [decoding, hview, Nat.add_comm l, Nat.add_assoc]
    exact .answered hrest hthen
  | cut _ _ hended => cases hended

/-- The server is reading a request. -/
theorem InStep.of_command (hcmd : S.cmdDec.Yields k d' xs cmd)
    (hserve : S.serve t cmd = some (answer, t')) (hresp : S.dec.Yields l S.dec.start answer r)
    (hthen : S.Continues rs t₁ n r todo got t') :
    S.InStep rs t₁ (k + (1 + 3 * answer.length + (l + n)))
      ⟨S.decoding S.dec.start todo got, S.serving d' t, xs, []⟩ := by
  cases hcmd with
  | result _ hview =>
    rw [serving, hview, Nat.zero_add]
    dsimp only
    rw [hserve]
    exact .replying hresp hthen
  | @recv k _ _ _ _ _ _ hview hrest =>
    rw [serving, hview, Nat.add_comm k, Nat.add_assoc]
    exact .asked hrest hserve hresp hthen
  | cut _ _ hended => cases hended

/-- A session is served if each request is, with an invariant that the server keeps. -/
theorem served_of_forall {β : Type} (items : List β) (encode : β → List α)
    (resp : β × Nat → R) (Inv : Nat → T → Prop) (ht : Inv k t)
    (h : ∀ p ∈ items.zipIdx k, ∀ t, Inv p.2 t →
      ∃ t', S.Exchanges t (encode p.1) (resp p) t' ∧ Inv (p.2 + 1) t') :
    ∃ n t', S.Served n t (items.map encode) ((items.zipIdx k).map resp) t' ∧
      Inv (k + items.length) t' := by
  induction items generalizing k t with
  | nil => exact ⟨0, t, .nil t, ht⟩
  | cons item items ih =>
    rw [List.zipIdx_cons, List.forall_mem_cons] at h
    obtain ⟨t', ⟨m, l, cmd, answer, hcmd, hserve, hresp, hgood⟩, ht'⟩ := h.1 t ht
    obtain ⟨n, t'', hrest, ht''⟩ := ih ht' h.2
    rw [Nat.add_right_comm, Nat.add_assoc] at ht''
    exact ⟨_, t'', .cons hcmd hserve hresp hgood hrest, ht''⟩

/-! ## one step -/

open Dialogue

/-- A client that has just asked waits, unless the server is gone. -/
theorem leftHop_decoding {c : Dialogue α (Client α D R) (Server α D' T)}
    (hleft : c.left = S.decoding S.dec.start todo got) (hto : c.toLeft = [])
    (hexit : (S.serverNext c.right).isExit = false) :
    leftHop S.clientNext S.serverNext c = none := by
  obtain ⟨n, next, hview⟩ := S.reads
  rw [decoding, hview] at hleft
  refine leftHop_wait (by rw [hleft, clientNext]) ?_ hexit
  rw [hto]
  exact Nat.succ_pos n

/-- A server that has just answered waits. -/
theorem leftHop_ready {c : Dialogue α (Server α D' T) (Client α D R)}
    (hleft : c.left = S.ready t) (hto : c.toLeft = []) :
    leftHop S.serverNext S.clientNext c = none := by
  obtain ⟨n, next, hview⟩ := S.readsCmd
  rw [ready, serving, hview] at hleft
  refine leftHop_wait (by rw [hleft, serverNext]) ?_ ?_
  · rw [hto]
    exact Nat.succ_pos n
  · match c.right with
    | .sending [] _ | .sending (_ :: _) _ | .reading .. => rfl

/-- **Step lemma.**  One process only can take a step, and the session is in step again;
or it is over. -/
theorem InStep.step {c : Dialogue α (Client α D R) (Server α D' T)} (h : S.InStep rs t₁ n c) :
    c = ⟨.sending [] rs, S.ready t₁, [], []⟩ ∨
      ∃ k m d, Moves S.clientNext S.serverNext c k d ∧ n = k + m ∧ S.InStep rs t₁ m d := by
  cases h with
  | @idle _ t _ got rest hserved hrs =>
    cases hserved with
    | nil =>
      rw [List.append_nil] at hrs
      rw [hrs]
      exact .inl rfl
    | @cons k l n _ t' _ req answer cmd r todo rest hcmd hserve hresp hgood hrest =>
      refine .inr ⟨_, _, _, .left (leftHop_send rfl) (leftHop_ready rfl rfl), rfl,
        .of_command hcmd hserve hresp ⟨hgood, rest, hrest, ?_⟩⟩
      rw [← hrs, List.append_assoc, List.singleton_append]
  | asked hcmd hserve hresp hthen =>
    exact .inr ⟨_, _, _, .right (leftHop_decoding rfl rfl rfl) (leftHop_recv rfl rfl), rfl,
      .of_command hcmd hserve hresp hthen⟩
  | replying hresp hthen =>
    exact .inr ⟨_, _, _, .right (leftHop_decoding rfl rfl rfl) (leftHop_send rfl), rfl,
      .of_yields hresp hthen⟩
  | answered hresp hthen =>
    exact .inr ⟨_, _, _, .left (leftHop_recv rfl rfl) (leftHop_ready rfl rfl), rfl,
      .of_yields hresp hthen⟩

theorem InStep.attended {c : Dialogue α (Client α D R) (Server α D' T)} (h : S.InStep rs t₁ n c) :
    c.Attended S.clientNext ∧ c.swap.Attended S.serverNext := by
  cases h with
  | idle | replying => exact ⟨fun h => absurd rfl h, fun h => absurd rfl h⟩
  | asked => exact ⟨fun h => absurd rfl h, fun _ => ⟨rfl, _, _, rfl⟩⟩
  | answered => exact ⟨fun _ => ⟨rfl, _, _, rfl⟩, fun h => absurd rfl h⟩

theorem Continues.got_le (h : S.Continues rs t₁ n r todo got t) : got <+: rs := by
  obtain ⟨-, rest, -, rfl⟩ := h
  rw [List.append_assoc]
  exact List.prefix_append _ _

theorem InStep.got_le {c : Dialogue α (Client α D R) (Server α D' T)}
    (h : S.InStep rs t₁ n c) : c.left.got <+: rs := by
  have hstart : ∀ todo got, (S.decoding S.dec.start todo got).got = got := by
    intro todo got
    obtain ⟨n, next, hview⟩ := S.reads
    rw [decoding, hview]
    rfl
  cases h with
  | idle _ hrs => exact ⟨_, hrs⟩
  | asked _ _ _ hthen | replying _ hthen =>
    rw [hstart]
    exact hthen.got_le
  | answered _ hthen => exact hthen.got_le

/-- The client gets these responses over pipes that hold `room` items, however writes and
reads are split and interleaved: it has the first of them, in order; the number of
operations is bounded; and where none is possible, it has them all, the server is in a state
that is expected, and nothing is left in a pipe or a buffer. -/
structure Delivers (S : Session α D R D' C T) (size size' room : Nat) (t : T)
    (reqs : List (List α)) (rs : List R) (expected : T → Prop) : Prop where
  inOrder : ∀ k w, Duplex.Runs (S.client size) (S.server size') room
    (Duplex.resting (.sending reqs []) (S.ready t)) k w → w.left.state.got <+: rs
  bounded : ∃ bound, ∀ k w, Duplex.Runs (S.client size) (S.server size') room
    (Duplex.resting (.sending reqs []) (S.ready t)) k w → k ≤ bound
  complete : ∀ k w, Duplex.Runs (S.client size) (S.server size') room
    (Duplex.resting (.sending reqs []) (S.ready t)) k w →
      Duplex.Stuck (S.client size) (S.server size') room w →
        ∃ t', expected t' ∧ w = Duplex.resting (.sending [] rs) (S.ready t')

/-- **Sessions.**  A client that reads each response through a new buffer and a server that
keeps its own, with pipes of any size between them. -/
theorem Served.delivers {reqs : List (List α)} (h : S.Served n t reqs rs t₁) {room : Nat}
    (hroom : 0 < room) (size size' : Nat) {expected : T → Prop} (ht₁ : expected t₁) :
    S.Delivers size size' room t reqs rs expected := by
  have htame : Duplex.Tame (S.client size) (S.server size') (S.InStep rs t₁) := by
    refine ⟨fun n k c d hc hhop => ?_, fun _ _ hc _ => hc.attended.1, fun _ _ hc _ => hc.attended.2⟩
    obtain rfl | ⟨k', m, d', hmoves, hn, hd'⟩ := hc.step
    · cases hhop with
      | left hhop => cases hhop
      | right hhop => cases (leftHop_ready rfl rfl).symm.trans hhop
    · obtain ⟨rfl, rfl⟩ := hmoves.unique hhop
      exact ⟨m, hn, hd'⟩
  have hstart : S.InStep rs t₁ n ⟨.sending reqs [], S.ready t, [], []⟩ := .idle h rfl
  constructor
  · intro k w hruns
    obtain ⟨m, hw, -⟩ := hruns.dialogue htame hstart
    exact hw.got_le
  · refine ⟨n, fun k w hruns => ?_⟩
    obtain ⟨m, -, hle⟩ := hruns.dialogue htame hstart
    exact Nat.le_trans (Nat.le_add_left _ _) hle
  · intro k w hruns hstuck
    obtain ⟨m, hw, -⟩ := hruns.dialogue htame hstart
    refine ⟨t₁, ht₁, Duplex.eq_resting ?_⟩
    have hfinal := Duplex.final_of_stuck hw.attended.1 hw.attended.2 hroom hstuck
    obtain heq | ⟨k', m', d', hmoves, -, -⟩ := hw.step
    · exact heq
    · exact absurd hfinal hmoves.not_final

end Session

end Turbine.Base
