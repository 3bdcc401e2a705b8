import Mathlib.Data.List.AList
import Turbine.Base.Float64

/-!
# Turbine.Security.Guard

The behaviour guard (crates/turbine-security/src/behaviour_guard.rs): a profile for each
address, and what the calls make of it when nobody comes in between.  Times are
nanoseconds since the guard was built.

* `evaluate_of_blocked`, `evaluate_of_free`: the two ways `evaluate` takes, after the window has
  been rolled over.
-/

namespace Turbine.Security

open Base

/-! ## model -/

structure BehaviourConfig where
  maxRps : UInt32 := 0
  sqliBlockThreshold : UInt32 := 3
  scanningErrorRate : Float64 := .finite false 1 (-1)
  scanningMinRequests : UInt32 := 20
  windowSeconds : Nat := 60

/-- `IpProfile`.  A deadline of zero is none. -/
structure IpProfile where
  requestCount : UInt32 := 0
  errorCount : UInt32 := 0
  sqliAttempts : UInt32 := 0
  windowStartNs : Nat
  blocked : Bool := false
  blockUntilNs : Nat := 0
deriving DecidableEq, Repr

/-- What the texts of the verdicts are made of. -/
inductive Reason
  | temporarilyBlocked
  | rateLimitExceeded (rps : Float64) (maxRps : UInt32)
  | scanningDetected (errorRate : Float64) (requests : UInt32)
deriving DecidableEq, Repr

inductive Verdict
  | allow
  | block (reason : Reason)
deriving DecidableEq, Repr

/-- `Verdict::is_blocked`. -/
def Verdict.isBlocked : Verdict → Bool
  | .allow => false
  | .block _ => true

/-- `u64::MAX`. -/
def u64Max : Nat := 18446744073709551615

/-- `u64::saturating_add`. -/
def saturatingAdd (a b : Nat) : Nat := min (b + a) u64Max

/-- How long a scan and an injection are punished. -/
def scanningBlockNs : Nat := 300000000000

def sqliBlockNs : Nat := 600000000000

/-- `IpProfile::new`. -/
def IpProfile.new (now : Nat) : IpProfile := { windowStartNs := now }

def BehaviourConfig.windowNs (cfg : BehaviourConfig) : Nat :=
  min (1000000000 * cfg.windowSeconds) u64Max

/-- The window is over. -/
def rollsOver (cfg : BehaviourConfig) (now windowStart : Nat) : Bool :=
  0 < cfg.windowNs && cfg.windowNs < now - windowStart

/-- The block has a deadline, and it is over. -/
def IpProfile.isOver (p : IpProfile) (now : Nat) : Bool :=
  p.blockUntilNs ≠ 0 && p.blockUntilNs ≤ now

/-- The block has a deadline, and it is not over. -/
def IpProfile.isPending (p : IpProfile) (now : Nat) : Bool :=
  p.blockUntilNs ≠ 0 && now < p.blockUntilNs

/-- Requests per second since the start of the window, over a millisecond at least. -/
def rps (now windowStart : Nat) (count : UInt32) : Float64 :=
  (Float64.ofNat count.toNat).div
    ((Float64.ofNat (max (now - windowStart) 1000000)).div (Float64.ofNat 1000000000))

/-- The rate limit is on and exceeded. -/
def exceedsRate (cfg : BehaviourConfig) (now windowStart : Nat) (count : UInt32) : Bool :=
  0 < cfg.maxRps && 10 < count &&
    (Float64.ofNat cfg.maxRps.toNat).lt (rps now windowStart count)

def errorRate (errors count : UInt32) : Float64 :=
  (Float64.ofNat errors.toNat).div (Float64.ofNat count.toNat)

/-- There are enough requests, and too many errors among them. -/
def isScanning (cfg : BehaviourConfig) (errors count : UInt32) : Bool :=
  cfg.scanningMinRequests ≤ count && cfg.scanningErrorRate.lt (errorRate errors count)

/-- Step 1 of `evaluate`: a new window, and no block that is over. -/
def rollWindow (cfg : BehaviourConfig) (p : IpProfile) (now : Nat) : IpProfile :=
  if rollsOver cfg now p.windowStartNs then
    let p := { p with windowStartNs := now, requestCount := 0, errorCount := 0 }
    if p.isOver now then { p with blocked := false, blockUntilNs := 0, sqliAttempts := 0 } else p
  else p

/-- Steps 3 and 4 of `evaluate`: the request is counted and judged. -/
def judge (cfg : BehaviourConfig) (p : IpProfile) (now : Nat) : IpProfile × Verdict :=
  let count := p.requestCount + 1
  let p := { p with requestCount := count }
  if exceedsRate cfg now p.windowStartNs count then
    (p, .block (.rateLimitExceeded (rps now p.windowStartNs count) cfg.maxRps))
  else if isScanning cfg p.errorCount count then
    ({ p with blocked := true, blockUntilNs := saturatingAdd now scanningBlockNs },
      .block (.scanningDetected (errorRate p.errorCount count) count))
  else (p, .allow)

/-- `BehaviourGuard::evaluate`. -/
def evaluate (cfg : BehaviourConfig) (p : IpProfile) (now : Nat) : IpProfile × Verdict :=
  let p := rollWindow cfg p now
  if p.blocked then
    if p.isPending now then (p, .block .temporarilyBlocked)
    else judge cfg { p with blocked := false, blockUntilNs := 0 } now
  else judge cfg p now

/-- `fetch_add` on the attempts, and the block from the threshold on. -/
def IpProfile.attempt (cfg : BehaviourConfig) (p : IpProfile) (now : Nat) : IpProfile :=
  let attempts := p.sqliAttempts + 1
  let p := { p with sqliAttempts := attempts }
  if cfg.sqliBlockThreshold ≤ attempts then
    { p with blocked := true, blockUntilNs := saturatingAdd now sqliBlockNs }
  else p

/-- An error is counted. -/
def IpProfile.error (p : IpProfile) : IpProfile := { p with errorCount := p.errorCount + 1 }

/-- The stores of `unblock_ip`. -/
def IpProfile.unblock (p : IpProfile) : IpProfile :=
  { p with blocked := false, blockUntilNs := 0, sqliAttempts := 0 }

/-- `BehaviourGuard`; `with_config` sets `max_profiles` to a hundred thousand. -/
structure BehaviourGuard (Ip : Type) where
  profiles : AList fun _ : Ip => IpProfile
  maxProfiles : Nat := 100000

variable {Ip : Type} [DecidableEq Ip]

namespace BehaviourGuard

/-- `DashMap::len`. -/
def size (g : BehaviourGuard Ip) : Nat := g.profiles.entries.length

def profile? (g : BehaviourGuard Ip) (ip : Ip) : Option IpProfile := g.profiles.lookup ip

def store (g : BehaviourGuard Ip) (ip : Ip) (p : IpProfile) : BehaviourGuard Ip :=
  { g with profiles := g.profiles.insert ip p }

/-- The map is full, and the address is not in it. -/
def turnsAway (g : BehaviourGuard Ip) (ip : Ip) : Bool :=
  g.maxProfiles ≤ g.size && (g.profile? ip).isNone

/-- `BehaviourGuard::check_request`. -/
def checkRequest (cfg : BehaviourConfig) (g : BehaviourGuard Ip) (ip : Ip) (now : Nat) :
    BehaviourGuard Ip × Verdict :=
  if g.turnsAway ip then (g, .allow)
  else
    let outcome := evaluate cfg ((g.profile? ip).getD (.new now)) now
    (g.store ip outcome.1, outcome.2)

/-- `BehaviourGuard::record_request`. -/
def recordRequest (g : BehaviourGuard Ip) (ip : Ip) (wasError : Bool) : BehaviourGuard Ip :=
  if !wasError then g
  else match g.profile? ip with
    | some p => g.store ip p.error
    | none => g

/-- `BehaviourGuard::record_sqli_attempt`. -/
def recordSqliAttempt (cfg : BehaviourConfig) (g : BehaviourGuard Ip) (ip : Ip) (now : Nat) :
    BehaviourGuard Ip :=
  if g.turnsAway ip then g
  else g.store ip (((g.profile? ip).getD (.new now)).attempt cfg now)

/-- `BehaviourGuard::unblock_ip`. -/
def unblockIp (g : BehaviourGuard Ip) (ip : Ip) : BehaviourGuard Ip × Bool :=
  match g.profile? ip with
  | some p => (g.store ip p.unblock, true)
  | none => (g, false)

end BehaviourGuard

/-! ## evaluation -/

variable {cfg : BehaviourConfig} {p : IpProfile} {now : Nat}

theorem rollWindow_of_rollsOver (h : rollsOver cfg now p.windowStartNs = true) :
    rollWindow cfg p now =
      if p.isOver now then { windowStartNs := now }
      else { p with windowStartNs := now, requestCount := 0, errorCount := 0 } := by
  rw [rollWindow, if_pos h]
  rfl

theorem rollWindow_of_not_rollsOver (h : rollsOver cfg now p.windowStartNs = false) :
    rollWindow cfg p now = p := by
  rw [rollWindow, if_neg (by rw [h]; exact Bool.false_ne_true)]

theorem evaluate_of_blocked (hblocked : (rollWindow cfg p now).blocked = true)
    (hpending : (rollWindow cfg p now).isPending now = true) :
    evaluate cfg p now = (rollWindow cfg p now, .block .temporarilyBlocked) := by
  rw [evaluate, if_pos hblocked, if_pos hpending]

/-- The profile as it is judged, when no block is in force. -/
def released (cfg : BehaviourConfig) (p : IpProfile) (now : Nat) : IpProfile :=
  if (rollWindow cfg p now).blocked then
    { rollWindow cfg p now with blocked := false, blockUntilNs := 0 }
  else rollWindow cfg p now

theorem evaluate_of_free
    (hfree : (rollWindow cfg p now).blocked = true → (rollWindow cfg p now).isPending now = false) :
    evaluate cfg p now = judge cfg (released cfg p now) now := by
  rw [evaluate, released]
  split
  case isTrue hblocked => rw [if_neg (by rw [hfree hblocked]; exact Bool.false_ne_true)]
  case isFalse => rfl

end Turbine.Security
