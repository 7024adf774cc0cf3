/-!
Sets of code points, written as the ascending list of the points where membership changes.
-/
namespace LiveLayout.Text

/-- The points at which membership switches, from outside to inside and back, ascending. -/
structure CodeSet where
  switches : List Nat

namespace CodeSet

/-- Membership after the switches at or below the code point have been passed. -/
def walk : List Nat → Nat → Bool
  | [], _ => false
  | s :: rest, c => if c < s then false else !walk rest c

def contains (set : CodeSet) (c : Char) : Bool := walk set.switches c.toNat

end CodeSet
end LiveLayout.Text
