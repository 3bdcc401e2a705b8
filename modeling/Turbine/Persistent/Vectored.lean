import Mathlib.Data.List.Basic

/-!
# Turbine.Persistent.Vectored

`writev_all_fd`, which writes a list of byte slices with as many calls of `writev` as
it takes.  What the calls do is up to the system: each one is interrupted, fails, or
takes some of the bytes it was given.

* `writevAllFd_exact`: whatever the calls do, the bytes that went out are those of the
  slices, in order, each of them once, and no more calls are made than there are bytes,
  interrupted calls apart.
-/

namespace Turbine.Persistent

/-! ## the loop -/

/-- What a call of `writev` does.  An error is one that is not `Interrupted`. -/
inductive Outcome (ε : Type)
  | interrupted
  | failed (e : ε)
  | wrote (n : Nat)
  deriving DecidableEq, Repr

/-- Where the function is: it has returned, an index was out of range, or it makes
another call. -/
inductive Progress (ε : Type)
  | ok
  | err (e : ε)
  | panicked
  | running
  deriving DecidableEq, Repr

/-- A run of the function: the calls it made, and the bytes they put on the pipe. -/
structure Report (ε : Type) where
  progress : Progress ε
  written : List UInt8
  calls : List (Outcome ε)
  deriving DecidableEq, Repr

/-- The run with a call in front of it. -/
def Report.after {ε : Type} (r : Report ε) (call : Outcome ε) (bytes : List UInt8) : Report ε :=
  { r with written := bytes ++ r.written, calls := call :: r.calls }

/-- `IOV_MAX`. -/
def iovMax : Nat := 1024

/-- The leading empty slices are skipped. -/
def skipEmpty (slices : List (List UInt8)) : List (List UInt8) := slices.dropWhile List.isEmpty

/-- The bytes that a call is given: `n = len.min(IOV_MAX)` slices. -/
def given (slices : List (List UInt8)) : List UInt8 := (slices.take iovMax).flatten

/-- `current_slices` advanced by `written` bytes; `none` where `current_slices[0]` is
out of range. -/
def advance : Nat → List (List UInt8) → Option (List (List UInt8))
  | 0, slices => some slices
  | _ + 1, [] => none
  | written + 1, first :: rest =>
    if first.length ≤ written + 1 then advance (written + 1 - first.length) rest
    else some (first.drop (written + 1) :: rest)

section Loop

variable {ε : Type}

/-- `writev_all_fd`, on a system whose calls do what the list says. -/
def writevAllFd (slices : List (List UInt8)) : List (Outcome ε) → Report ε
  | [] => if skipEmpty slices = [] then ⟨.ok, [], []⟩ else ⟨.running, [], []⟩
  | call :: calls =>
    let current := skipEmpty slices
    if current = [] then ⟨.ok, [], []⟩
    else match call with
      | .interrupted => (writevAllFd current calls).after call []
      | .failed e => ⟨.err e, [], [call]⟩
      | .wrote n =>
        let bytes := (given current).take n
        match advance n current with
        | none => ⟨.panicked, bytes, [call]⟩
        | some next => (writevAllFd next calls).after call bytes

/-- A call that writes takes at least one byte and at most those it was given. -/
def Behaves (slices : List (List UInt8)) : List (Outcome ε) → Prop
  | [] => True
  | call :: calls =>
    let current := skipEmpty slices
    current ≠ [] → match call with
      | .interrupted => Behaves current calls
      | .failed _ => True
      | .wrote n => 1 ≤ n ∧ n ≤ (given current).length ∧
          ∀ next, advance n current = some next → Behaves next calls

/-- The calls that were not interrupted. -/
def uninterrupted (calls : List (Outcome ε)) : Nat :=
  calls.countP fun call => match call with
    | .interrupted => false
    | _ => true

/-- The number of bytes that the calls took. -/
def taken : List (Outcome ε) → Nat
  | [] => 0
  | .wrote n :: calls => n + taken calls
  | _ :: calls => taken calls

/-! ## the bytes of the slices -/

@[simp]
theorem flatten_skipEmpty (slices : List (List UInt8)) :
    (skipEmpty slices).flatten = slices.flatten := by
  induction slices with
  | nil => rfl
  | cons first rest ih =>
    cases first with
    | nil => simpa [skipEmpty] using ih
    | cons => simp [skipEmpty]

theorem flatten_eq_nil_of_skipEmpty {slices : List (List UInt8)} (h : skipEmpty slices = []) :
    slices.flatten = [] := by
  rw [← flatten_skipEmpty, h, List.flatten_nil]

/-- A slice that is left has a byte in it. -/
theorem flatten_pos_of_skipEmpty {slices : List (List UInt8)} (h : skipEmpty slices ≠ []) :
    0 < slices.flatten.length := by
  induction slices with
  | nil => exact absurd rfl h
  | cons first rest ih =>
    cases first with
    | nil => simpa [skipEmpty] using ih h
    | cons => simp

theorem flatten_eq_given_append (slices : List (List UInt8)) :
    slices.flatten = given slices ++ (slices.drop iovMax).flatten := by
  rw [given, ← List.flatten_append, List.take_append_drop]

/-- The call takes the first bytes of the slices, also where there are more slices
than it is given. -/
theorem take_given {slices : List (List UInt8)} (h : n ≤ (given slices).length) :
    (given slices).take n = slices.flatten.take n := by
  rw [flatten_eq_given_append slices, List.take_append_of_le_length h]

theorem length_given_le (slices : List (List UInt8)) :
    (given slices).length ≤ slices.flatten.length := by
  simp [flatten_eq_given_append slices]

theorem flatten_advance (slices : List (List UInt8)) :
    ∀ n ≤ slices.flatten.length, ∃ next, advance n slices = some next ∧
      next.flatten = slices.flatten.drop n := by
  induction slices with
  | nil =>
    intro n hn
    obtain rfl : n = 0 := by simpa using hn
    exact ⟨[], rfl, rfl⟩
  | cons first rest ih =>
    intro n hn
    rw [List.flatten_cons, List.length_append] at hn
    cases n with
    | zero => exact ⟨first :: rest, rfl, rfl⟩
    | succ n =>
      by_cases hwhole : first.length ≤ n + 1
      · obtain ⟨next, hnext, hflat⟩ := ih (n + 1 - first.length) (by omega)
        refine ⟨next, by rw [advance, if_pos hwhole, hnext], ?_⟩
        rw [hflat, List.flatten_cons, List.drop_append, List.drop_eq_nil_of_le hwhole,
          List.nil_append]
      · refine ⟨first.drop (n + 1) :: rest, by rw [advance, if_neg hwhole], ?_⟩
        rw [List.flatten_cons, List.flatten_cons, List.drop_append_of_le_length (by omega)]

/-! ## whole runs -/

/-- What holds of a run from these slices under these calls. -/
structure Exact (slices : List (List UInt8)) (calls : List (Outcome ε)) (r : Report ε) :
    Prop where
  /-- The calls are made one after the other. -/
  made : r.calls <+: calls
  /-- No byte is repeated or skipped: the calls took the first ones. -/
  inOrder : r.written = slices.flatten.take (taken r.calls)
  within : taken r.calls ≤ slices.flatten.length
  /-- On `Ok` the calls took all bytes, and none failed. -/
  whole : r.progress = .ok →
    taken r.calls = slices.flatten.length ∧ ∀ e, .failed e ∉ r.calls
  /-- The error that is returned is that of the last call, the only one that failed. -/
  error : ∀ e, r.progress = .err e →
    ∃ front, r.calls = front ++ [.failed e] ∧ ∀ e', .failed e' ∉ front
  /-- The first call that fails is made, unless all bytes were out before, and is the last. -/
  fails : ∀ front e rest, calls = front ++ .failed e :: rest → (∀ e', .failed e' ∉ front) →
    taken front < slices.flatten.length → r.calls = front ++ [.failed e] ∧ r.progress = .err e
  /-- Another call is due only where no call failed and bytes are left. -/
  due : r.progress = .running → r.calls = calls ∧ (∀ e, .failed e ∉ calls) ∧
    uninterrupted calls ≤ taken calls ∧ taken calls < slices.flatten.length
  /-- No index is out of range. -/
  inRange : r.progress ≠ .panicked
  /-- Every call that is not interrupted has a byte to write. -/
  bounded : uninterrupted r.calls ≤ slices.flatten.length

theorem uninterrupted_cons (call : Outcome ε) (calls : List (Outcome ε)) :
    uninterrupted (call :: calls) = uninterrupted calls + uninterrupted [call] := by
  simp only [uninterrupted, List.countP_cons, List.countP_nil, Nat.zero_add]

theorem taken_cons (call : Outcome ε) (calls : List (Outcome ε)) :
    taken (call :: calls) = taken [call] + taken calls := by
  cases call <;> simp [taken]

/-- One call: it takes the bytes in front, a byte at least unless it is interrupted. -/
theorem Exact.after {slices next : List (List UInt8)} {call : Outcome ε} {r : Report ε}
    (hr : Exact next calls r) (hbytes : slices.flatten = bytes ++ next.flatten)
    (hcall : ∀ e, .failed e ≠ call) (htaken : taken [call] = bytes.length)
    (hcost : uninterrupted [call] ≤ bytes.length) :
    Exact slices (call :: calls) (r.after call bytes) where
  made := List.cons_prefix_cons.2 ⟨rfl, hr.made⟩
  inOrder := by
    rw [Report.after, taken_cons, htaken, hbytes, List.take_length_add_append, hr.inOrder]
  within := by
    have hrest := hr.within
    rw [Report.after, taken_cons, htaken, hbytes, List.length_append]
    omega
  whole hok := by
    obtain ⟨hall, hfailed⟩ := hr.whole hok
    refine ⟨?_, fun e => List.not_mem_cons_of_ne_of_not_mem (hcall e) (hfailed e)⟩
    rw [Report.after, taken_cons, htaken, hbytes, List.length_append, hall]
  error e herr := by
    obtain ⟨front, hcalls, hfront⟩ := hr.error e herr
    exact ⟨call :: front, congrArg (call :: ·) hcalls,
      fun e' => List.not_mem_cons_of_ne_of_not_mem (hcall e') (hfront e')⟩
  fails front e rest hcalls hfront hleft := by
    cases front with
    | nil => exact absurd (List.cons.inj hcalls).1.symm (hcall e)
    | cons call' front =>
      obtain ⟨rfl, hrest⟩ := List.cons.inj hcalls
      rw [taken_cons, htaken, hbytes, List.length_append] at hleft
      obtain ⟨hmade, herr⟩ := hr.fails front e rest hrest
        (fun e' he' => hfront e' (List.mem_cons_of_mem _ he')) (by omega)
      exact ⟨congrArg (call :: ·) hmade, herr⟩
  due hrun := by
    obtain ⟨hcalls, hfailed, hcosts, hleft⟩ := hr.due hrun
    refine ⟨congrArg (call :: ·) hcalls,
      fun e => List.not_mem_cons_of_ne_of_not_mem (hcall e) (hfailed e), ?_⟩
    rw [uninterrupted_cons, taken_cons, htaken, hbytes, List.length_append]
    omega
  inRange := hr.inRange
  bounded := by
    have hrest := hr.bounded
    rw [Report.after, uninterrupted_cons, hbytes, List.length_append]
    omega

theorem exact_of_skipEmpty (calls : List (Outcome ε)) (h : skipEmpty slices = []) :
    Exact slices calls ⟨.ok, [], []⟩ := by
  have hnil := flatten_eq_nil_of_skipEmpty h
  constructor <;> simp [hnil, taken, uninterrupted]

/-- The calls that were observed end before the function does. -/
theorem exact_of_no_call (h : skipEmpty slices ≠ []) :
    Exact slices ([] : List (Outcome ε)) ⟨.running, [], []⟩ := by
  have hpos := flatten_pos_of_skipEmpty h
  constructor <;> simp [taken, uninterrupted, -List.length_flatten, hpos]

/-- A call fails. -/
theorem exact_of_failed (e : ε) (calls : List (Outcome ε)) (h : skipEmpty slices ≠ []) :
    Exact slices (.failed e :: calls) ⟨.err e, [], [.failed e]⟩ where
  made := List.cons_prefix_cons.2 ⟨rfl, List.nil_prefix⟩
  inOrder := rfl
  within := Nat.zero_le _
  whole := by simp
  error e' he := by
    cases he
    exact ⟨[], rfl, fun _ => List.not_mem_nil⟩
  fails front e' rest hcalls hfront _ := by
    cases front with
    | nil =>
      rw [Outcome.failed.inj (List.cons.inj hcalls).1]
      exact ⟨rfl, rfl⟩
    | cons call front => exact absurd ((List.cons.inj hcalls).1 ▸ List.mem_cons_self) (hfront e)
  due := by simp
  inRange := by simp
  bounded := flatten_pos_of_skipEmpty h

theorem writevAllFd_of_skipEmpty (calls : List (Outcome ε)) (h : skipEmpty slices = []) :
    writevAllFd slices calls = ⟨.ok, [], []⟩ := by
  cases calls with
  | nil => rw [writevAllFd, if_pos h]
  | cons call calls => cases call <;> rw [writevAllFd, if_pos h]

theorem exact_writevAllFd (calls : List (Outcome ε)) :
    ∀ slices, Behaves slices calls → Exact slices calls (writevAllFd slices calls) := by
  induction calls with
  | nil =>
    intro slices _
    by_cases hnone : skipEmpty slices = []
    · rw [writevAllFd_of_skipEmpty _ hnone]
      exact exact_of_skipEmpty [] hnone
    · rw [writevAllFd, if_neg hnone]
      exact exact_of_no_call hnone
  | cons call calls ih =>
    intro slices h
    by_cases hnone : skipEmpty slices = []
    · rw [writevAllFd_of_skipEmpty _ hnone]
      exact exact_of_skipEmpty _ hnone
    · cases call with
      | interrupted =>
        rw [writevAllFd, if_neg hnone]
        exact (ih _ (h hnone)).after (by simp) (by simp) rfl (by simp [uninterrupted])
      | failed e =>
        rw [writevAllFd, if_neg hnone]
        exact exact_of_failed e calls hnone
      | wrote n =>
        obtain ⟨hpos, hle, hnext⟩ := h hnone
        have hall := Nat.le_trans hle (length_given_le _)
        obtain ⟨next, hadvance, hflat⟩ := flatten_advance _ n hall
        rw [writevAllFd, if_neg hnone, hadvance, take_given hle]
        rw [flatten_skipEmpty] at hflat hall ⊢
        have hlength : (slices.flatten.take n).length = n := List.length_take_of_le hall
        exact (ih next (hnext next hadvance)).after (by rw [hflat, List.take_append_drop])
          (by simp) (by simp [taken, hlength]) (by rw [hlength]; exact hpos)

/-- Whatever the calls do, the bytes that went out are the first ones of the slices, as
many as the calls took.  On `Ok` they are all of them; the first call that fails ends the
function with its error; where neither has happened, another call is made; and the
function has returned once as many calls went through as there are bytes. -/
theorem writevAllFd_exact (slices : List (List UInt8)) (calls : List (Outcome ε))
    (h : Behaves slices calls) : let r := writevAllFd slices calls
    r.calls <+: calls ∧
      r.written = slices.flatten.take (taken r.calls) ∧ r.written.length = taken r.calls ∧
      (r.progress = .ok → r.written = slices.flatten ∧ ∀ e, .failed e ∉ r.calls) ∧
      (∀ e, r.progress = .err e →
        ∃ front, r.calls = front ++ [.failed e] ∧ ∀ e', .failed e' ∉ front) ∧
      (∀ front e rest, calls = front ++ .failed e :: rest → (∀ e', .failed e' ∉ front) →
        taken front < slices.flatten.length →
        r.calls = front ++ [.failed e] ∧ r.progress = .err e) ∧
      (r.progress = .running → r.calls = calls ∧ (∀ e, .failed e ∉ calls) ∧
        taken calls < slices.flatten.length) ∧
      uninterrupted r.calls ≤ slices.flatten.length ∧
      (slices.flatten.length ≤ uninterrupted calls →
        r.progress = .ok ∨ ∃ e, r.progress = .err e) := by
  intro r
  have hr : Exact slices calls r := exact_writevAllFd calls slices h
  refine ⟨hr.made, hr.inOrder, ?_, fun hok => ⟨?_, (hr.whole hok).2⟩, hr.error, hr.fails,
    fun hrun => ⟨(hr.due hrun).1, (hr.due hrun).2.1, (hr.due hrun).2.2.2⟩, hr.bounded,
    fun hmany => ?_⟩
  · rw [hr.inOrder, List.length_take_of_le hr.within]
  · rw [hr.inOrder, (hr.whole hok).1, List.take_length]
  · cases hprogress : r.progress with
    | ok => exact .inl rfl
    | err e => exact .inr ⟨e, rfl⟩
    | panicked => exact absurd hprogress hr.inRange
    | running =>
      obtain ⟨-, -, hcosts, hleft⟩ := hr.due hprogress
      omega

/-- A byte is taken in front of the end of a slice, and then the rest of two slices. -/
theorem writevAllFd_exact_short :
    (writevAllFd [[], [1, 2, 3], [], [4]] [.wrote 1, .interrupted, .wrote 3] :
      Report Unit).written = [1, 2, 3, 4] := by
  have hcalls : Behaves [[], [1, 2, 3], [], [4]]
      ([.wrote 1, .interrupted, .wrote 3] : List (Outcome Unit)) := by
    simp [Behaves, skipEmpty, given, advance, iovMax]
  exact ((writevAllFd_exact _ _ hcalls).2.2.2.1 (by decide)).1

end Loop

end Turbine.Persistent
