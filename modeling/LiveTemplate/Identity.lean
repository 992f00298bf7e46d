/-!
# Names of things that change

Whatever changes over time is known by a number: holding the number is holding
the thing, and equal numbers are the same thing.  A handler is the number under
which a client keeps a piece of its own code.
-/

namespace LiveTemplate

structure ObservableId where
  index : Nat
  deriving DecidableEq, Repr, Inhabited

structure EmitterId where
  index : Nat
  deriving DecidableEq, Repr, Inhabited

structure RevokerId where
  index : Nat
  deriving DecidableEq, Repr, Inhabited

structure FlagId where
  index : Nat
  deriving DecidableEq, Repr, Inhabited

structure TemplateId where
  index : Nat
  deriving DecidableEq, Repr, Inhabited

structure ViewId where
  index : Nat
  deriving DecidableEq, Repr, Inhabited

structure CollectionId where
  index : Nat
  deriving DecidableEq, Repr, Inhabited

/-- A subscription's number, unique within its source. -/
structure ListenerId where
  index : Nat
  deriving DecidableEq, Repr, Inhabited

structure Handler where
  index : Nat
  deriving DecidableEq, Repr, Inhabited

end LiveTemplate
