import Discussion.Text.Shown
import Discussion.Threading.Basic

/-!
# The wording of threading errors
-/

namespace Discussion.ThreadingError

universe v

variable {ι : Type v}

/-- The error with the identity as it is shown for inspection. -/
def inspected [Inspect ι] : ThreadingError ι → ThreadingError String
  | duplicateId id => duplicateId (inspect id)
  | cycle id => cycle (inspect id)

/-- The wording of an error. -/
def message : ThreadingError String → String
  | duplicateId id => "duplicate item id: " ++ id
  | cycle id => "cycle detected in reply hierarchy at item: " ++ id

end Discussion.ThreadingError
