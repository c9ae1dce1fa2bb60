import DataShape.Descriptor.Basic
import DataShape.Shape

/-!
# Compiling descriptors

A descriptor becomes the checker it describes. Its references are bound to a
registry and looked up there when values are checked. A reference that stands
directly under an object property becomes a deferred property ; every other one
gets a serial number of its own, counted up from the one given.
-/

namespace DataShape.Descriptor

mutual
/-- The checker of a descriptor and the next serial number. -/
def compile (registry : Nat) : Descriptor → Nat → Checker × Nat
  | kind p, n => (.primitive p, n)
  | literal s, n => (.literal s, n)
  | any ds, n =>
    let (cs, n) := compileItems registry ds n
    (.any cs, n)
  | nullable d, n =>
    let (c, n) := compile registry d n
    (.nullable c, n)
  | array d, n =>
    let (c, n) := compile registry d n
    (.array c, n)
  | object ps, n =>
    let (ps, n) := compileProperties registry ps n
    (.ofShape (.ofList ps), n)
  | ref name, n => (.reference ⟨n, .entry registry name⟩, n + 1)

def compileItems (registry : Nat) : List Descriptor → Nat → List Checker × Nat
  | [], n => ([], n)
  | d :: ds, n =>
    let (c, n) := compile registry d n
    let (cs, n) := compileItems registry ds n
    (c :: cs, n)

def compileProperties (registry : Nat) :
    List (String × Descriptor) → Nat → List (String × Property) × Nat
  | [], n => ([], n)
  | (k, ref name) :: ps, n =>
    let (qs, n) := compileProperties registry ps n
    ((k, .found none (.entry registry name)) :: qs, n)
  | (k, d) :: ps, n =>
    let (c, n) := compile registry d n
    let (qs, n) := compileProperties registry ps n
    ((k, .direct c) :: qs, n)
end

end DataShape.Descriptor
