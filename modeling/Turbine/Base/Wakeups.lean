import Mathlib.Data.List.Basic

/-!
# Turbine.Base.Wakeups

A queue whose consumers sleep on a notifier that stores at most one permit.
`Ledger` counts what is in flight between them.  A notification goes to a parked
consumer if there is one; otherwise it leaves a permit, and if there is a permit
already it is lost.

* `Ledger.Covered`: if a consumer sleeps or is about to, then either every queued
  item has a permit, a wake-up or a pending notification of its own, or the one
  consumer about to sleep will find the permit;
* it survives every move but a lost notification while two consumers are about
  to sleep (`Covered.lose`).
-/

namespace Turbine.Base

/-- The items in the queue; the permits stored; the consumers that found the queue
empty and are about to poll the notifier; those parked on it; the wake-ups
delivered and not yet handled; and the items whose producer is yet to notify. -/
structure Ledger where
  queued : Nat
  permits : Nat
  polling : Nat
  parked : Nat
  woken : Nat
  notifying : Nat
deriving DecidableEq, Repr

namespace Ledger

/-- No item is left behind. -/
structure Covered (l : Ledger) : Prop where
  /-- Nobody is parked while a permit is there. -/
  idle : 0 < l.permits → l.parked = 0
  covered : l.polling + l.parked = 0 ∨
    l.queued ≤ l.permits + l.woken + l.notifying ∨ l.parked = 0 ∧ l.polling ≤ l.permits

variable {l l' : Ledger}

/-- With nothing in flight, nobody is parked behind a queued item. -/
theorem Covered.queued_eq_zero (h : l.Covered) (hparked : 0 < l.parked) (hwoken : l.woken = 0)
    (hnotifying : l.notifying = 0) (hpermits : l.permits = 0) : l.queued = 0 := by
  obtain ⟨-, hcovered⟩ := h
  omega

/-- Moves that take items out of the queue, or parked consumers away. -/
theorem Covered.shrink (h : l.Covered) (hqueued : l'.queued ≤ l.queued)
    (hpermits : l'.permits = l.permits) (hpolling : l'.polling = l.polling)
    (hparked : l'.parked ≤ l.parked) (hwoken : l'.woken = l.woken)
    (hnotifying : l'.notifying = l.notifying) : l'.Covered := by
  obtain ⟨hidle, hcovered⟩ := h
  constructor <;> omega

/-- An item is put in the queue. -/
theorem Covered.append (h : l.Covered) :
    Covered { l with queued := l.queued + 1, notifying := l.notifying + 1 } := by
  obtain ⟨hidle, hcovered⟩ := h
  constructor <;> dsimp only <;> omega

/-- A consumer finds the queue empty. -/
theorem Covered.look (h : l.Covered) (hqueued : l.queued = 0) :
    Covered { l with polling := l.polling + 1 } := by
  obtain ⟨hidle, -⟩ := h
  constructor <;> dsimp only <;> omega

/-- A consumer about to sleep finds the permit. -/
theorem Covered.take (h : l.Covered) (hpermits : l.permits = 1) (hpolling : 0 < l.polling) :
    Covered { l with permits := 0, polling := l.polling - 1, woken := l.woken + 1 } := by
  obtain ⟨hidle, hcovered⟩ := h
  constructor <;> dsimp only <;> omega

/-- A consumer goes to sleep. -/
theorem Covered.park (h : l.Covered) (hpermits : l.permits = 0) (hpolling : 0 < l.polling) :
    Covered { l with polling := l.polling - 1, parked := l.parked + 1 } := by
  obtain ⟨hidle, hcovered⟩ := h
  constructor <;> dsimp only <;> omega

/-- A woken consumer looks at the queue. -/
theorem Covered.handle (h : l.Covered) (hwoken : 0 < l.woken) :
    Covered { l with queued := l.queued - 1, woken := l.woken - 1 } := by
  obtain ⟨hidle, hcovered⟩ := h
  constructor <;> dsimp only <;> omega

/-- A notification wakes a parked consumer. -/
theorem Covered.wake (h : l.Covered) (hparked : 0 < l.parked) (hnotifying : 0 < l.notifying) :
    Covered { l with
      parked := l.parked - 1, woken := l.woken + 1, notifying := l.notifying - 1 } := by
  obtain ⟨hidle, hcovered⟩ := h
  constructor <;> dsimp only <;> omega

/-- A notification leaves a permit. -/
theorem Covered.store (h : l.Covered) (hparked : l.parked = 0) (hpermits : l.permits = 0)
    (hnotifying : 0 < l.notifying) :
    Covered { l with permits := 1, notifying := l.notifying - 1 } := by
  obtain ⟨hidle, hcovered⟩ := h
  constructor <;> dsimp only <;> omega

/-- A notification is lost, but at most one consumer is about to sleep, and it will
find the permit. -/
theorem Covered.lose (h : l.Covered) (hparked : l.parked = 0) (hpermits : l.permits = 1)
    (hpolling : l.polling ≤ 1) : Covered { l with notifying := l.notifying - 1 } := by
  obtain ⟨hidle, hcovered⟩ := h
  constructor <;> dsimp only <;> omega

/-- A delivered wake-up turns back into a pending notification. -/
theorem Covered.passOn (h : l.Covered) (hwoken : 0 < l.woken) :
    Covered { l with woken := l.woken - 1, notifying := l.notifying + 1 } := by
  obtain ⟨hidle, hcovered⟩ := h
  constructor <;> dsimp only <;> omega

end Ledger

end Turbine.Base
