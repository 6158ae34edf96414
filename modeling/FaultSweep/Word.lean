/-!
# Words

The numbers of a plan, of a record and of a total are words of 64 bits; the counts of a grid are
words of 32 bits.
-/

namespace FaultSweep

/-- Words of 64 bits are the numbers below this bound. -/
def wordBound : Nat := 18446744073709551616

/-- Words of 32 bits are the numbers below this bound. -/
def countBound : Nat := 4294967296

end FaultSweep
