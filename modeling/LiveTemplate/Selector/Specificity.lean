import LiveTemplate.Selector.Basic

/-!
# Weight of selectors

A selector weighs as many ids, classes and types as it names.  A negation and
`:is` weigh as much as their heaviest alternative, `:where` nothing, and
`:host` one class more than its argument.  A weight is packed into three fields
of ten bits, each of which stops at its maximum.
-/

namespace LiveTemplate.Selector

structure Weight where
  ids : Nat
  classes : Nat
  types : Nat
  deriving DecidableEq, Repr

namespace Weight

def zero : Weight := ⟨0, 0, 0⟩

def add (left right : Weight) : Weight :=
  ⟨left.ids + right.ids, left.classes + right.classes,
    left.types + right.types⟩

/-- The most that one field holds. -/
def fieldMax : Nat := 1023

def pack (weight : Weight) : Nat :=
  min weight.ids fieldMax * 1048576 + min weight.classes fieldMax * 1024 +
    min weight.types fieldMax

def unpack (packed : Nat) : Weight :=
  ⟨packed / 1048576, packed / 1024 % 1024, packed % 1024⟩

end Weight

mutual

def Simple.weight : Simple → Weight
  | .universal => .zero
  | .noNamespace => .zero
  | .tag _ => ⟨0, 0, 1⟩
  | .id _ => ⟨1, 0, 0⟩
  | .negation selectors => .unpack (heaviest selectors)
  | .anyOf selectors => .unpack (heaviest selectors)
  | .anyWithoutWeight _ => .zero
  | .host selector => (Weight.unpack selector.weight.pack).add ⟨0, 1, 0⟩
  | _ => ⟨0, 1, 0⟩

def partsWeight : List Simple → Weight
  | [] => .zero
  | part :: parts => part.weight.add (partsWeight parts)

def Complex.weight : Complex → Weight
  | .compound last => partsWeight last
  | .combined left _ last => left.weight.add (partsWeight last)

/-- The packed weight of the heaviest selector. -/
def heaviest : List Complex → Nat
  | [] => 0
  | selector :: selectors => max selector.weight.pack (heaviest selectors)

end

end LiveTemplate.Selector
