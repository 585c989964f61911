import RealTime.Ordered.Map
import RealTime.Ordered.Set

/-! # Groups of related tasks

Tasks that compete with each other, directly or through others, are in one group.  Groups are
numbered from 1; number 0 stands for no group.  A group has a threshold: once all its members on
a core owe that much, the threshold is taken off their debts. -/

namespace RealTime

/-- Tasks that compete with each other. -/
structure Group where
  /-- Debt that all members on a core must reach before it is taken off. -/
  threshold : Nat := 0
  members : OrderedSet String := .empty

/-- The groups by number. -/
abbrev Groups := OrderedMap Nat Group

namespace Groups

/-- The number of the next group: one past the largest in use. -/
def nextId (gs : Groups) : Nat :=
  match gs.last? with
  | some (id, _) => id + 1
  | none => 1

/-- Make a group of two tasks; the answer is its number. -/
def create (gs : Groups) (a b : String) : Nat × Groups :=
  (gs.nextId, gs.insert gs.nextId { members := (OrderedSet.empty.insert a).insert b })

/-- Which group survives a union and which members have moved into it. -/
structure Merge where
  survivor : Nat
  moved : List String
  deriving DecidableEq, Repr

/-- Unite two different groups into the one with more members, or into `a` if they have equally
many.  The larger threshold stays. -/
def merge (gs : Groups) (a b : Nat) : Option (Merge × Groups) :=
  if a = b then none
  else
    match gs.get? a, gs.get? b with
    | some ga, some gb =>
      let (survivor, absorbed, old) :=
        if ga.members.size ≥ gb.members.size then (a, b, gb) else (b, a, ga)
      some (⟨survivor, old.members.elems⟩,
        (gs.erase absorbed).modify survivor fun g =>
          { threshold := max g.threshold old.threshold, members := g.members.union old.members })
    | _, _ => none

/-- Add a member to a group. -/
def addMember (gs : Groups) (id : Nat) (name : String) : Groups :=
  gs.modify id fun g => { g with members := g.members.insert name }

/-- Raise the threshold of a group to a value. -/
def raiseThreshold (gs : Groups) (id : Nat) (value : Nat) : Groups :=
  gs.modify id fun g => { g with threshold := max g.threshold value }

end Groups

end RealTime
