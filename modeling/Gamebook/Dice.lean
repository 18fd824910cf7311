/-!
# Dice

Random effects are decided by dice whose throws are fixed in advance: `face n` is the result of
the `n`-th throw, counted from zero, reduced to the number of sides that the throw needs.
-/

namespace Gamebook

/-- A sequence of throws and the number of throws that have been made. -/
structure Dice where
  face : Nat → Nat
  thrown : Nat := 0

namespace Dice

/-- Dice that repeat a list of faces forever; without faces every throw is zero. -/
def ofList (faces : List Nat) : Dice where
  face n := faces[n % faces.length]?.getD 0

/-- A throw with a positive number of sides, and the dice after it. -/
def throwSides (d : Dice) (sides : Nat) : Nat × Dice :=
  (d.face d.thrown % sides, { d with thrown := d.thrown + 1 })

end Dice

end Gamebook
