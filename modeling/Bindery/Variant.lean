/-!
# Variants of the generated code
-/

namespace Bindery

/-- Which directory a run writes to; the passes are the same. -/
inductive Variant where
  | legacy | enhanced
  deriving DecidableEq, Inhabited

namespace Variant

def directory : Variant → String
  | .legacy => "OLD"
  | .enhanced => "NEW"

/-- The word for the variant in messages. -/
def label : Variant → String
  | .legacy => "old"
  | .enhanced => "new"

/-- The word for the variant in stored values. -/
def tag : Variant → String
  | .legacy => "legacy"
  | .enhanced => "enhanced"

end Variant

end Bindery
