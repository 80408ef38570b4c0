/-!
Sets of characters as ranges of code points.
-/

namespace Simultaneous.Text

abbrev Ranges := List (Nat × Nat)

namespace Ranges

def contains (rs : Ranges) (c : Char) : Bool :=
  rs.any fun (low, high) => low ≤ c.toNat && c.toNat ≤ high

end Ranges

end Simultaneous.Text
