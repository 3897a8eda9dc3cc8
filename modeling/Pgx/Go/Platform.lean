import Pgx.Go.BigEndian

/-!
# The size of `int`
-/
namespace Pgx.Go

/-- The size of `int` -/
inductive Platform where
  | bits32
  | bits64
  deriving DecidableEq

def Platform.bits : Platform → Nat
  | bits32 => 32
  | bits64 => 64

/-- The conversion to `int` -/
def Platform.int (p : Platform) (n : Int) : Int := signed p.bits n

end Pgx.Go
