/-!
# Observers

An observer reports the height of the line being typed. One at most is attached. A window shares two
64-bit cells with its observers: the number that was given out last, and the number of the observer
that is attached, where 0 stands for none. Attaching overwrites the second cell, and an observer
that is given up clears the cell only if its own number stands there.
-/

namespace LineEditor

/-- an observer, known by its number -/
structure Observer where
  number : UInt64
deriving DecidableEq

/-- the cells that a window shares with its observers -/
structure Slot where
  /-- the number of the observer that is attached, 0 if none is -/
  active : UInt64
  /-- the number that was given out last -/
  last : UInt64
deriving DecidableEq

namespace Slot

def empty : Slot := ⟨0, 0⟩

/-- attaches a new observer in place of any other -/
def attach (t : Slot) : Observer × Slot := (⟨t.last + 1⟩, ⟨t.last + 1, t.last + 1⟩)

/-- whether an observer is the one that is attached -/
def holds (t : Slot) (o : Observer) : Bool := t.active == o.number

/-- whether any observer is attached -/
def isOccupied (t : Slot) : Bool := t.active != 0

/-- detaches an observer if it is the one that is attached -/
def release (t : Slot) (o : Observer) : Slot := if t.holds o then { t with active := 0 } else t

/-- detaches whichever observer is attached -/
def clear (t : Slot) : Slot := { t with active := 0 }

theorem holds_attach (t : Slot) : t.attach.2.holds t.attach.1 = true := beq_self_eq_true _

end Slot

end LineEditor
