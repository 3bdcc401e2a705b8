import Mathlib.Data.List.Basic

/-!
# Turbine.Base.Duplex

Two sequential processes with a pipe in either direction.  A process is a function from
its states to what it does next: it receives a number of items, sends some, or does
nothing more.  A pipe holds a bounded number of items; one `write` puts some of them in,
one `read` takes some out, and how many is up to the system.  A reader may have a buffer,
into which it reads ahead; a buffer that does not outlive the next write of its process is
dropped with what it holds.

* `Dialogue`: the same processes where items are sent and received as a whole;
* `Acts.dialogue`: an operation on the pipes is a part of a step of the dialogue, or the
  whole of one, so that `Runs.dialogue`, every run leads the dialogue on, in a bounded
  number of operations;
* `final_of_stuck`: and a run stops nowhere else, if whatever is under way is waited for.
-/

namespace Turbine.Base

variable {α σ τ : Type}

/-! ## processes -/

/-- What a process does next.  `recv n` waits for `n` items, and goes on with
`none` if the stream ends before; a process that pauses keeps its ends of the
streams open, one that exits closes them. -/
inductive Intent (α σ : Type)
  | recv (n : Nat) (next : Option (List α) → σ)
  | send (xs : List α) (next : σ)
  | pause
  | exit

/-- The process has closed its ends. -/
def Intent.isExit : Intent α σ → Bool
  | .exit => true
  | _ => false

/-- What carrying out an intent may cost in reads, writes and copies: three for
every item that is sent, and one for the step itself. -/
def Intent.cost : Intent α σ → Nat
  | .send xs _ => 1 + 3 * xs.length
  | _ => 1

/-- The states of two processes and what is on its way between them. -/
structure Dialogue (α σ τ : Type) where
  left : σ
  right : τ
  toRight : List α
  toLeft : List α

namespace Dialogue

/-- The dialogue seen from the other side. -/
def swap (c : Dialogue α σ τ) : Dialogue α τ σ := ⟨c.right, c.left, c.toLeft, c.toRight⟩

variable (p : σ → Intent α σ) (q : τ → Intent α τ)

/-- The step of the process on the left. -/
def leftHop (c : Dialogue α σ τ) : Option (Dialogue α σ τ) :=
  match p c.left with
  | .recv n next =>
    if n ≤ c.toLeft.length then
      some { c with left := next (some (c.toLeft.take n)), toLeft := c.toLeft.drop n }
    else if (q c.right).isExit then some { c with left := next none, toLeft := [] }
    else none
  | .send xs next => some { c with left := next, toRight := c.toRight ++ xs }
  | .pause | .exit => none

/-- A step of either process, with its cost. -/
inductive Hop : Nat → Dialogue α σ τ → Dialogue α σ τ → Prop
  | left {c d : Dialogue α σ τ} (h : leftHop p q c = some d) : Hop (p c.left).cost c d
  | right {c d : Dialogue α σ τ} (h : leftHop q p c.swap = some d.swap) : Hop (q c.right).cost c d

/-- Neither process can take a step. -/
def Final (c : Dialogue α σ τ) : Prop := leftHop p q c = none ∧ leftHop q p c.swap = none

/-- The only step that can be taken. -/
inductive Moves (c : Dialogue α σ τ) : Nat → Dialogue α σ τ → Prop
  | left {d : Dialogue α σ τ} (hleft : leftHop p q c = some d)
      (hright : leftHop q p c.swap = none) : Moves c (p c.left).cost d
  | right {d : Dialogue α τ σ} (hleft : leftHop p q c = none)
      (hright : leftHop q p c.swap = some d) : Moves c (q c.right).cost d.swap

/-- What is under way to the process on the left is waited for, and nothing is under way in
the other direction. -/
def Attended (p : σ → Intent α σ) (c : Dialogue α σ τ) : Prop :=
  c.toLeft ≠ [] → c.toRight = [] ∧ ∃ n next, p c.left = .recv n next

variable {p q} {c d : Dialogue α σ τ} {n k : Nat} {xs ys : List α} {next : Option (List α) → σ}

theorem leftHop_recv (hp : p c.left = .recv xs.length next) (hto : c.toLeft = xs ++ ys) :
    leftHop p q c = some { c with left := next (some xs), toLeft := ys } := by
  have hlen : xs.length ≤ (xs ++ ys).length := by
    rw [List.length_append]
    omega
  rw [leftHop, hp, hto]
  dsimp only
  rw [if_pos hlen, List.take_left, List.drop_left]

theorem leftHop_end (hp : p c.left = .recv n next) (hlen : c.toLeft.length < n)
    (hexit : (q c.right).isExit = true) :
    leftHop p q c = some { c with left := next none, toLeft := [] } := by
  rw [leftHop, hp]
  dsimp only
  rw [if_neg (Nat.not_le.2 hlen), if_pos hexit]

theorem leftHop_wait (hp : p c.left = .recv n next) (hlen : c.toLeft.length < n)
    (hexit : (q c.right).isExit = false) : leftHop p q c = none := by
  rw [leftHop, hp]
  dsimp only
  rw [if_neg (Nat.not_le.2 hlen), hexit, if_neg Bool.false_ne_true]

theorem leftHop_send {next : σ} (hp : p c.left = .send xs next) :
    leftHop p q c = some { c with left := next, toRight := c.toRight ++ xs } := by
  rw [leftHop, hp]

/-- What one step leads to, where it is the only one. -/
theorem Moves.unique (h : Moves p q c k d) {l : Nat} {e : Dialogue α σ τ} (hhop : Hop p q l c e) :
    l = k ∧ e = d := by
  cases h with
  | left hleft hright =>
    cases hhop with
    | left h => exact ⟨rfl, Option.some.inj (h.symm.trans hleft)⟩
    | right h => cases hright.symm.trans h
  | right hleft hright =>
    cases hhop with
    | left h => cases hleft.symm.trans h
    | right h => exact ⟨rfl, congrArg swap (Option.some.inj (h.symm.trans hright))⟩

theorem Moves.not_final (h : Moves p q c k d) : ¬ Final p q c := by
  intro hfinal
  cases h with
  | left hleft _ => cases hfinal.1.symm.trans hleft
  | right _ hright => cases hfinal.2.symm.trans hright

end Dialogue

/-! ## pipes and buffers -/

/-- A process and its reader: the capacity of the buffer it reads into, 0 if there is
none, and whether the buffer is kept when the process sends something. -/
structure Party (α σ : Type) where
  next : σ → Intent α σ
  size : Nat
  keeps : Bool

/-- A process in the middle of things: what its buffer holds, what there is of the
items it is waiting for, and what it has still to write. -/
structure Endpoint (α σ : Type) where
  state : σ
  held : List α := []
  filled : List α := []
  unsent : List α := []

/-- The process waits for `n` items, and is not writing. -/
structure Endpoint.Waits (A : Party α σ) (x : Endpoint α σ) (n : Nat)
    (next : Option (List α) → σ) : Prop where
  recv : A.next x.state = .recv n next
  written : x.unsent = []

/-- Two processes and the pipes between them. -/
structure Duplex (α σ τ : Type) where
  left : Endpoint α σ
  right : Endpoint α τ
  toRight : List α := []
  toLeft : List α := []

namespace Duplex

/-- The same seen from the other side. -/
def swap (w : Duplex α σ τ) : Duplex α τ σ := ⟨w.right, w.left, w.toLeft, w.toRight⟩

/-- What a process keeps of its buffer when it sends something. -/
def kept (A : Party α σ) (xs held : List α) : List α := if A.keeps || xs.isEmpty then held else []

variable (A : Party α σ) (B : Party α τ) (room : Nat)

/-- An operation of the process on the left.  Calls that are interrupted, or would block,
do nothing and are no operations. -/
inductive Acts (w : Duplex α σ τ) : Duplex α σ τ → Prop
  | start {xs : List α} {next : σ} (hp : A.next w.left.state = .send xs next)
      (hwritten : w.left.unsent = []) :
      Acts w { w with left := { w.left with
        state := next, held := kept A xs w.left.held, unsent := xs } }
  | write {k : Nat} (hpos : 0 < k) (hlen : k ≤ w.left.unsent.length)
      (hfits : w.toRight.length + k ≤ room) :
      Acts w { w with
        left := { w.left with unsent := w.left.unsent.drop k }
        toRight := w.toRight ++ w.left.unsent.take k }
  -- a read of at least as much as the buffer holds goes past it
  | read {n k : Nat} {next : Option (List α) → σ}
      (hwaits : w.left.Waits A n next) (hheld : w.left.held = []) (hpos : 0 < k)
      (hlen : k ≤ w.toLeft.length) (hask : w.left.filled.length + k ≤ n)
      (hsize : w.left.filled.length + A.size ≤ n) :
      Acts w { w with
        left := { w.left with filled := w.left.filled ++ w.toLeft.take k }
        toLeft := w.toLeft.drop k }
  | refill {n k : Nat} {next : Option (List α) → σ}
      (hwaits : w.left.Waits A n next) (hheld : w.left.held = []) (hpos : 0 < k)
      (hlen : k ≤ w.toLeft.length) (hask : k ≤ A.size) (hmissing : w.left.filled.length < n)
      (hsize : n < w.left.filled.length + A.size) :
      Acts w { w with left := { w.left with held := w.toLeft.take k }, toLeft := w.toLeft.drop k }
  | copy {n : Nat} {next : Option (List α) → σ}
      (hwaits : w.left.Waits A n next) (hheld : w.left.held ≠ [])
      (hmissing : w.left.filled.length < n) :
      Acts w { w with left := { w.left with
        filled := w.left.filled ++ w.left.held.take (n - w.left.filled.length)
        held := w.left.held.drop (n - w.left.filled.length) } }
  -- there are never more than `n`
  | finish {n : Nat} {next : Option (List α) → σ}
      (hwaits : w.left.Waits A n next) (hfull : n ≤ w.left.filled.length) :
      Acts w { w with left := { w.left with
        state := next (some (w.left.filled.take n)), filled := w.left.filled.drop n } }
  | hangup {n : Nat} {next : Option (List α) → σ}
      (hwaits : w.left.Waits A n next) (hmissing : w.left.filled.length < n)
      (hheld : w.left.held = []) (hempty : w.toLeft = [])
      (hexit : (B.next w.right.state).isExit = true) (hwritten : w.right.unsent = []) :
      Acts w { w with left := { w.left with state := next none, filled := [] } }

/-- An operation of either process. -/
inductive Step (w w' : Duplex α σ τ) : Prop
  | left (h : Acts A B room w w')
  | right (h : Acts B A room w.swap w'.swap)

/-- A run of so many operations. -/
inductive Runs (w : Duplex α σ τ) : Nat → Duplex α σ τ → Prop
  | refl : Runs w 0 w
  | tail {k : Nat} {v v' : Duplex α σ τ} (h : Runs w k v) (hstep : Step A B room v v') :
      Runs w (k + 1) v'

/-- No process can do anything. -/
def Stuck (w : Duplex α σ τ) : Prop := ∀ w', ¬ Step A B room w w'

/-- The dialogue: whatever has been sent and not been received yet is under way. -/
def dialogue (w : Duplex α σ τ) : Dialogue α σ τ :=
  ⟨w.left.state, w.right.state, w.right.filled ++ w.right.held ++ w.toRight ++ w.left.unsent,
    w.left.filled ++ w.left.held ++ w.toLeft ++ w.right.unsent⟩

/-- How many operations the items under way can take: each is written, read and
copied once. -/
def weight (w : Duplex α σ τ) : Nat :=
  3 * (w.left.unsent.length + w.right.unsent.length) + 2 * (w.toRight.length + w.toLeft.length) +
    (w.left.held.length + w.right.held.length)

theorem weight_swap (w : Duplex α σ τ) : w.swap.weight = w.weight := by
  simp only [weight, swap]
  omega

variable {A B room} {w w' : Duplex α σ τ}

/-! ## one operation -/

/-- A process drops its buffer only when it is empty. -/
theorem kept_held (hquiet : A.keeps = false → w.dialogue.Attended A.next) {xs : List α} {next : σ}
    (hp : A.next w.left.state = .send xs next) : kept A xs w.left.held = w.left.held := by
  rw [kept]
  split_ifs with hkeeps
  · rfl
  · simp only [Bool.or_eq_true, not_or, Bool.not_eq_true] at hkeeps
    by_contra hheld
    have hto : w.dialogue.toLeft ≠ [] := by simp [dialogue, Ne.symm hheld]
    obtain ⟨-, n, next', hrecv⟩ := hquiet hkeeps.1 hto
    cases hp.symm.trans hrecv

/-- **Step lemma.**  An operation of the left process is a step of its dialogue, or
changes nothing about it; either way there is less left to do. -/
theorem Acts.dialogue (h : Acts A B room w w')
    (hquiet : A.keeps = false → w.dialogue.Attended A.next) :
    (w'.dialogue = w.dialogue ∧ w'.weight + 1 ≤ w.weight) ∨
      (Dialogue.leftHop A.next B.next w.dialogue = some w'.dialogue ∧
        w'.weight + 1 ≤ w.weight + (A.next w.left.state).cost) := by
  cases h with
  | @start xs next hp hwritten =>
    refine .inr ⟨?_, ?_⟩
    · rw [Dialogue.leftHop_send (c := w.dialogue) hp, kept_held hquiet hp]
      simp only [Duplex.dialogue, hwritten, List.append_nil]
    · simp only [weight, hp, hwritten, kept_held hquiet hp, Intent.cost, List.length_nil]
      omega
  | write hpos hlen hfits =>
    refine .inl ⟨?_, ?_⟩
    · simp only [Duplex.dialogue, List.append_assoc, List.take_append_drop]
    · simp only [weight, List.length_append, List.length_drop, List.length_take]
      omega
  | @read n k next _ hheld hpos hlen hask hsize =>
    refine .inl ⟨?_, ?_⟩
    · simp only [Duplex.dialogue, hheld, List.append_nil, List.append_assoc]
      rw [← List.append_assoc (w.toLeft.take k), List.take_append_drop]
    · simp only [weight, List.length_drop]
      omega
  | @refill n k next _ hheld hpos hlen hask hmissing hsize =>
    refine .inl ⟨?_, ?_⟩
    · simp only [Duplex.dialogue, hheld, List.append_nil, List.append_assoc]
      rw [← List.append_assoc (w.toLeft.take k), List.take_append_drop]
    · simp only [weight, List.length_drop, List.length_take, hheld, List.length_nil]
      omega
  | copy _ hheld hmissing =>
    have hpos := List.length_pos_iff.2 hheld
    refine .inl ⟨?_, ?_⟩
    · simp only [Duplex.dialogue, List.append_assoc]
      rw [← List.append_assoc (w.left.held.take _), List.take_append_drop]
    · simp only [weight, List.length_drop]
      omega
  | @finish n next hwaits hfull =>
    have hp : A.next w.dialogue.left = .recv (w.left.filled.take n).length next := by
      rw [List.length_take_of_le hfull]
      exact hwaits.recv
    have hto : w.dialogue.toLeft = w.left.filled.take n ++
        (w.left.filled.drop n ++ w.left.held ++ w.toLeft ++ w.right.unsent) := by
      simp only [Duplex.dialogue, ← List.append_assoc, List.take_append_drop]
    refine .inr ⟨Dialogue.leftHop_recv hp hto, ?_⟩
    · rw [hwaits.recv]
      exact Nat.le_refl _
  | @hangup n next hwaits hmissing hheld hempty hexit hwritten =>
    have hlen : w.dialogue.toLeft.length < n := by
      simp only [Duplex.dialogue, hheld, hempty, hwritten, List.append_nil]
      exact hmissing
    refine .inr ⟨?_, ?_⟩
    · rw [Dialogue.leftHop_end (c := w.dialogue) hwaits.recv hlen hexit]
      simp only [Duplex.dialogue, hheld, hempty, hwritten, List.append_nil]
    · rw [hwaits.recv]
      exact Nat.le_refl _

/-! ## what is enabled -/

/-- A process that waits for items can go on while there are any, or if it has them
all. -/
theorem acts_of_waits {n : Nat} {next : Option (List α) → σ} (hwaits : w.left.Waits A n next)
    (hsome : n ≤ w.left.filled.length ∨ w.left.held ≠ [] ∨ w.toLeft ≠ []) :
    ∃ w', Acts A B room w w' := by
  by_cases hfull : n ≤ w.left.filled.length
  · exact ⟨_, .finish hwaits hfull⟩
  by_cases hheld : w.left.held = []
  · have hpos : 0 < w.toLeft.length := by
      rw [List.length_pos_iff]
      exact (hsome.resolve_left hfull).resolve_left (not_not.2 hheld)
    by_cases hsize : w.left.filled.length + A.size ≤ n
    · exact ⟨_, .read hwaits hheld Nat.zero_lt_one hpos (by omega) hsize⟩
    · exact ⟨_, .refill hwaits hheld Nat.zero_lt_one hpos (by omega) (by omega) (by omega)⟩
  · exact ⟨_, .copy hwaits hheld (by omega)⟩

/-- A process that is not writing can do something if its dialogue can go on, the other
process not writing either. -/
theorem acts_of_leftHop (h : Dialogue.leftHop A.next B.next w.dialogue ≠ none)
    (hleft : w.left.unsent = []) (hright : w.right.unsent = []) : ∃ w', Acts A B room w w' := by
  cases hp : A.next w.left.state with
  | recv n next =>
    have hwaits : w.left.Waits A n next := ⟨hp, hleft⟩
    by_cases hsome : n ≤ w.left.filled.length ∨ w.left.held ≠ [] ∨ w.toLeft ≠ []
    · exact acts_of_waits hwaits hsome
    · simp only [not_or, Nat.not_le, ne_eq, not_not] at hsome
      obtain ⟨hmissing, hheld, hempty⟩ := hsome
      cases hexit : (B.next w.right.state).isExit with
      | true => exact ⟨_, .hangup hwaits hmissing hheld hempty hexit hright⟩
      | false =>
        refine absurd (Dialogue.leftHop_wait (c := w.dialogue) hp ?_ hexit) h
        simp only [dialogue, hheld, hempty, hright, List.append_nil]
        exact hmissing
  | send xs next => exact ⟨_, .start hp hleft⟩
  | pause => simp [Dialogue.leftHop, dialogue, hp] at h
  | exit => simp [Dialogue.leftHop, dialogue, hp] at h

/-- A process whose write does not fit waits for the other to read. -/
theorem written_of_stuck (hroom : 0 < room) {n : Nat} {next : Option (List α) → τ}
    (hwaits : w.right.Waits B n next) (hstuck : Stuck A B room w) : w.left.unsent = [] := by
  by_contra hne
  by_cases hfits : w.toRight.length + 1 ≤ room
  · exact hstuck _ (.left (.write Nat.zero_lt_one (List.length_pos_iff.2 hne) hfits))
  · have hto : w.toRight ≠ [] := by
      rw [← List.length_pos_iff]
      omega
    obtain ⟨w', hacts⟩ : ∃ w', Acts B A room w.swap w' := acts_of_waits hwaits (.inr (.inr hto))
    exact hstuck w'.swap (.right hacts)

theorem Stuck.swap (h : Stuck A B room w) : Stuck B A room w.swap := by
  intro w' hstep
  cases hstep with
  | left hacts => exact h w'.swap (.right hacts)
  | right hacts => exact h w'.swap (.left hacts)

/-- Where no process can do anything, and everything is written, the dialogue has
ended. -/
theorem final_of_written (hleft : w.left.unsent = []) (hright : w.right.unsent = [])
    (hstuck : Stuck A B room w) : Dialogue.Final A.next B.next w.dialogue := by
  constructor
  · by_contra hsome
    obtain ⟨w', hacts⟩ : ∃ w', Acts A B room w w' := acts_of_leftHop hsome hleft hright
    exact hstuck w' (.left hacts)
  · by_contra hsome
    obtain ⟨w', hacts⟩ : ∃ w', Acts B A room w.swap w' := acts_of_leftHop hsome hright hleft
    exact hstuck w'.swap (.right hacts)

/-- **No deadlock.**  Where no process can do anything, and what is under way is waited
for, the dialogue has ended. -/
theorem final_of_stuck (hl : w.dialogue.Attended A.next) (hr : w.dialogue.swap.Attended B.next)
    (hroom : 0 < room) (hstuck : Stuck A B room w) : Dialogue.Final A.next B.next w.dialogue := by
  have hleft : w.left.unsent = [] := by
    by_contra hne
    obtain ⟨hto, n, next, hrecv⟩ := hr (by simp [dialogue, Dialogue.swap, hne])
    simp only [Dialogue.swap, dialogue, List.append_eq_nil_iff] at hto
    exact hne (written_of_stuck hroom ⟨hrecv, hto.2⟩ hstuck)
  have hright : w.right.unsent = [] := by
    by_contra hne
    obtain ⟨-, n, next, hrecv⟩ := hl (by simp [dialogue, hne])
    exact hne (written_of_stuck (w := w.swap) hroom ⟨hrecv, hleft⟩ hstuck.swap)
  exact final_of_written hleft hright hstuck

/-! ## runs -/

/-- A property of dialogues, and of what is left of them in costs, under which the
operations on the pipes keep to the steps of the dialogue: it is kept by those, and what is
under way to a process that drops its buffer is waited for. -/
structure Tame (A : Party α σ) (B : Party α τ) (I : Nat → Dialogue α σ τ → Prop) : Prop where
  hop : ∀ n k c d, I n c → Dialogue.Hop A.next B.next k c d → ∃ m, n = k + m ∧ I m d
  quietLeft : ∀ n c, I n c → A.keeps = false → c.Attended A.next
  quietRight : ∀ n c, I n c → B.keeps = false → c.swap.Attended B.next

variable {I : Nat → Dialogue α σ τ → Prop}

/-- **Step lemma.**  An operation of either process. -/
theorem Step.dialogue (hI : Tame A B I) {n : Nat} (hw : I n w.dialogue) (h : Step A B room w w') :
    ∃ m, I m w'.dialogue ∧ m + w'.weight + 1 ≤ n + w.weight := by
  cases h with
  | left h =>
    obtain ⟨hsame, hweight⟩ | ⟨hhop, hweight⟩ := h.dialogue (hI.quietLeft n _ hw)
    · exact ⟨n, by rwa [hsame], by omega⟩
    · obtain ⟨m, rfl, hm⟩ := hI.hop _ _ _ _ hw (.left hhop)
      refine ⟨m, hm, ?_⟩
      simp only [Duplex.dialogue]
      omega
  | right h =>
    obtain ⟨hsame, hweight⟩ | ⟨hhop, hweight⟩ := h.dialogue (hI.quietRight n _ hw)
    · rw [weight_swap, weight_swap] at hweight
      have hsame' : w'.dialogue = w.dialogue := congrArg Dialogue.swap hsame
      exact ⟨n, by rwa [hsame'], by omega⟩
    · rw [weight_swap, weight_swap] at hweight
      obtain ⟨m, rfl, hm⟩ := hI.hop _ _ _ w'.dialogue hw (.right hhop)
      refine ⟨m, hm, ?_⟩
      simp only [Duplex.dialogue, Duplex.swap] at hweight ⊢
      omega

/-- **Run lemma.** -/
theorem Runs.dialogue (hI : Tame A B I) {n k : Nat} (hw : I n w.dialogue)
    (h : Runs A B room w k w') : ∃ m, I m w'.dialogue ∧ m + w'.weight + k ≤ n + w.weight := by
  induction h with
  | refl => exact ⟨n, hw, Nat.le_refl _⟩
  | tail _ hstep ih =>
    obtain ⟨m, hm, hle⟩ := ih
    obtain ⟨m', hm', hle'⟩ := hstep.dialogue hI hm
    exact ⟨m', hm', by omega⟩

/-- Two processes with nothing under way. -/
def resting (s : σ) (t : τ) : Duplex α σ τ := ⟨{ state := s }, { state := t }, [], []⟩

theorem eq_resting {s : σ} {t : τ} (h : w.dialogue = ⟨s, t, [], []⟩) : w = resting s t := by
  obtain ⟨⟨s₁, held, filled, unsent⟩, ⟨t₁, held', filled', unsent'⟩, toRight, toLeft⟩ := w
  simp only [dialogue, Dialogue.mk.injEq, List.append_eq_nil_iff] at h
  obtain ⟨rfl, rfl, ⟨⟨⟨rfl, rfl⟩, rfl⟩, rfl⟩, ⟨⟨rfl, rfl⟩, rfl⟩, rfl⟩ := h
  rfl

end Duplex

end Turbine.Base
