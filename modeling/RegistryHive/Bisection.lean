/-!
# Search by halving

A test on indices that fails from some index on is searched by halving the
interval in which the first failure lies.
-/

namespace RegistryHive

/-- The index in an interval from which on a test fails. -/
@[specialize] def bisect (test : Nat → Bool) (low high : Nat) : Nat :=
  if low < high then
    let middle := (low + high) / 2
    if test middle then bisect test (middle + 1) high else bisect test low middle
  else low
termination_by high - low

end RegistryHive
