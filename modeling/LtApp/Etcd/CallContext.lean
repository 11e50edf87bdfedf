import Mathlib.Tactic.Simps.Basic

/-!
# `CallContext`

| here | there |
| --- | --- |
| `CallContext` | the members of `CallContext` (`call_context.h:41`) |
| `lockContext`, `cancel`, `reset` | `LockContext`, `Cancel`, `Reset` (`call_context.cc:18`, `call_context.h:52`, `call_context.cc:28`) |
| `report`, `resumer` | the two halves of `ResumeContext` (`call_context.cc:8`): the stores of `success_` and `done_`, and the call of `resumer_` under `mu_` |

`resumer_` is a closure that schedules one coroutine at the `CO_YIELD` it was made for: it is modelled by the name
`ρ` of that suspension. `ResumeContext` calls it and leaves it in place.
-/

namespace LtApp.Etcd

structure CallContext (ρ : Type) where
  success  : Bool := false
  canceled : Bool := false
  done     : Bool := false
  resumer  : Option ρ := none
deriving DecidableEq, Repr

namespace CallContext

variable {ρ : Type}

/-- `LockContext` on the coroutine about to yield at `r`; its value is `done_`. -/
@[simps] def lockContext (r : ρ) (x : CallContext ρ) : CallContext ρ := { x with resumer := some r }

/-- `ResumeContext`, up to the call of `resumer_`. -/
@[simps] def report (ok : Bool) (x : CallContext ρ) : CallContext ρ := { x with success := ok, done := true }

/-- `success_ = ok`. -/
@[simps] def storeSuccess (ok : Bool) (x : CallContext ρ) : CallContext ρ := { x with success := ok }

/-- `done_.store(true)`. -/
@[simps] def storeDone (x : CallContext ρ) : CallContext ρ := { x with done := true }

@[simps] def cancel (x : CallContext ρ) : CallContext ρ := { x with canceled := true }

def reset (_ : CallContext ρ) : CallContext ρ := {}

end CallContext
end LtApp.Etcd
