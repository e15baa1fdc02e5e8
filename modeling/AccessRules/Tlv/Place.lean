import AccessRules.Number.Basic
import AccessRules.Tlv.Element

/-!
# Places in nested data objects

A place inside nested data objects is reached in moves: over an object, back to the start of its
value, on to a child. Its offset is the sum of the moves. Counted from a start that is given as a
number, every sum on the way is a number again, so that far from zero a place can be a little off;
`Place.countedFrom_eq` says how far from zero it is exact.
-/

namespace AccessRules

/-! ## Places -/

/-- The moves that lead to a place. -/
abbrev Place := List Int

/-- How far a place is from the start. -/
def Place.offset : Place → Int
  | [] => 0
  | move :: place => move + Place.offset place

/-- The number reached by the moves from a start. -/
def Place.countedFrom (start : Int) : Place → Int
  | [] => start
  | move :: place => Place.countedFrom (nearestWhole (start + move)) place

/-- Something at a place. -/
structure Placed (α : Type) where
  item : α
  place : Place
  deriving DecidableEq, Repr

/-- The same thing at the offset of its place. -/
def Placed.located {α : Type} (placed : Placed α) : Located α := ⟨placed.item, placed.place.offset⟩

/-- The same thing at the number that is reached from a start. -/
def Placed.locatedFrom {α : Type} (start : Int) (placed : Placed α) : Located α :=
  ⟨placed.item, placed.place.countedFrom start⟩

/-- The place `offset` octets into the value of a data object. -/
def Placed.inValue (element : Placed Tlv.Element) (offset : Int) : Place :=
  element.place ++ [(element.item.size : Int), -(element.item.value.length : Int), offset]

/-! ## Near zero places are exact -/

/-- A place is counted exactly from a start if no sum on the way leaves the whole numbers that 53
binary digits write. -/
theorem Place.countedFrom_eq {start : Int} {place : Place}
    (near : ∀ way, way <+: place → (start + Place.offset way).natAbs ≤ 2 * leastMantissa) :
    place.countedFrom start = start + place.offset := by
  induction place generalizing start with
  | nil => exact (Int.add_zero start).symm
  | cons move place ih =>
    have first : nearestWhole (start + move) = start + move :=
      nearestWhole_eq_self (by simpa [Place.offset] using near [move] (by simp))
    have rest := @ih (start + move) fun way ahead => by
      simpa [Place.offset, Int.add_assoc] using
        near (move :: way) (List.cons_prefix_cons.2 ⟨rfl, ahead⟩)
    rw [Place.countedFrom, first, rest, Place.offset, Int.add_assoc]

end AccessRules
