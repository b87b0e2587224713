import Reckoner.Value.Equality
/-!
# Contexts

A context gives values to names. Where a name occurs more than once its first value counts, so contexts are merged by
putting the stronger one in front.
-/
namespace Reckoner

abbrev Context := List (Text × Value)

namespace Context

/-- The value of a name, if it has one. -/
def get? (ctx : Context) (name : Text) : Option Value := List.lookup name ctx

/-- The value a property of this name reads: absent without a value. -/
def read (ctx : Context) (name : Text) : Value := (ctx.get? name).getD .absent

/-- The entries of a mapping whose keys are texts. -/
def ofEntries (entries : List (Value × Value)) : Context :=
  entries.filterMap fun (key, v) => key.asText?.map (·, v)

end Context
end Reckoner
