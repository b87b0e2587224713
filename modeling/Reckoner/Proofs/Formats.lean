import Reckoner.Formats
import Reckoner.Proofs.Json.OfValue
/-!
# What is asked of formats

The journal relies on two things in the JSON of a value, which every serializer keeps to: no object has a key twice, and
a value that JSON has is kept as it is.
-/
namespace Reckoner.Formats

/-- No object in the JSON of a value has a key twice. -/
def KeysDiffer (formats : Formats) : Prop := ∀ v j, formats.toJson v = .ok j → j.KeysDiffer

/-- A value that JSON has is kept as it is. -/
def KeepsJson (formats : Formats) : Prop :=
  ∀ v j, v.IsJson → Json.ofValue? v = some j → formats.toJson v = .ok j

end Reckoner.Formats
