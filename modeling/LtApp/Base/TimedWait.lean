/-!
# A timed wait without a predicate

A thread calls `wait_for` on a condition variable again and again until a call reports something other than a
time-out; nothing else is looked at. `Waiter.next` is everything that can happen to the thread, `Waiter.notify`
what a notification does to it: only a thread inside the call hears it. A call may be woken for no reason, and a
call that has been woken still reports a time-out if its time is up before it has the lock again.

`Waiter.waits` holds while only a notification yet to come ends the loop.
-/

namespace LtApp

/-- Where the thread stands. -/
inductive Waiter
  /-- Before the first call, or between two. -/
  | outside
  /-- Inside a call, asleep. -/
  | blocked
  /-- Inside a call, woken. -/
  | woken
  /-- Past the loop. -/
  | gone
deriving DecidableEq, Repr

namespace Waiter

inductive Act
  | enter
  /-- The time is up: the call reports a time-out. -/
  | timeout
  /-- A spurious wake-up. -/
  | wake
  /-- A woken call reports a time-out all the same. -/
  | late
  /-- A woken call reports no time-out. -/
  | leave
deriving DecidableEq, Repr

def next : Act → Waiter → Option Waiter
  | .enter, .outside => some .blocked
  | .timeout, .blocked => some .outside
  | .wake, .blocked => some .woken
  | .late, .woken => some .outside
  | .leave, .woken => some .gone
  | _, _ => none

/-- `notify_all`. -/
def notify : Waiter → Waiter
  | .blocked => .woken
  | w => w

/-- In the loop, and not woken. -/
def waits : Waiter → Bool
  | .outside | .blocked => true
  | _ => false

/-- A notification is missed by a thread outside the call, and by no other. -/
theorem waits_notify (w : Waiter) : w.notify.waits = true ↔ w = .outside := by
  cases w <;> simp [notify, waits]

/-- Only a late return makes a woken thread wait again. -/
theorem waits_next {a : Act} {w w' : Waiter} (h : next a w = some w') (hw : w.waits = false) :
    w'.waits = true ↔ a = .late := by
  unfold next at h
  split at h <;> cases h <;> simp [waits] at hw ⊢

/-- Only a wake-up makes a waiting thread stop waiting. -/
theorem waits_next_of_ne {a : Act} {w w' : Waiter} (h : next a w = some w') (hw : w.waits = true) (ha : a ≠ .wake) :
    w'.waits = true := by
  unfold next at h
  split at h <;> cases h <;> simp [waits] at hw ha ⊢

end Waiter
end LtApp
