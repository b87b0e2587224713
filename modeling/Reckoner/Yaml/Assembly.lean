import Reckoner.Yaml.Fault
/-!
# Putting values together

A value is put together from the values of its parts, and each part may have a fault. Collections are filled from the
outside inwards, so of several faults the one inside the fewest collections is reported, and of those inside equally
many the first one.
-/
namespace Reckoner.Yaml

/-- A part of a value, or the fault that is reported for it and the number of collections inside the part that are
around the fault. -/
inductive Assembly (α : Type) where
  | whole (a : α)
  | faulty (depth : Nat) (f : Fault)

namespace Assembly

variable {α β : Type}

def ofExcept : Except Fault α → Assembly α
  | .ok a => .whole a
  | .error f => .faulty 0 f

def toExcept : Assembly α → Except Fault α
  | .whole a => .ok a
  | .faulty _ f => .error f

def map (g : α → β) : Assembly α → Assembly β
  | .whole a => .whole (g a)
  | .faulty depth f => .faulty depth f

/-- Two parts side by side. -/
def both : Assembly α → Assembly β → Assembly (α × β)
  | .whole a, .whole b => .whole (a, b)
  | .whole _, .faulty depth f => .faulty depth f
  | .faulty depth f, .whole _ => .faulty depth f
  | .faulty depth f, .faulty other g => if other < depth then .faulty other g else .faulty depth f

/-- The part as the content of a collection. -/
def enclosed : Assembly α → Assembly α
  | .whole a => .whole a
  | .faulty depth f => .faulty (depth + 1) f

end Assembly
end Reckoner.Yaml
