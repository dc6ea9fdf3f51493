/-!
# Data

Values of the kinds that the data formats can write down. The readers of the formats produce them, and
posts and settings are taken from them.

The members of a record are kept as they were written, in their order and with repetitions, so that
whoever takes a record apart decides what a repeated name means.
-/

namespace Discussion

/-- A value of one of the data formats. -/
inductive Data where
  | null
  | boolean (value : Bool)
  | integer (value : Int)
  | real (value : Float)
  | text (value : String)
  | list (items : List Data)
  | record (members : List (String × Data))

namespace Data

universe u

variable {α : Type u}

/-- One more than the greatest signed word. -/
def signedLimit : Int := 9223372036854775808

/-- Whether an integer fits a signed word. -/
def fitsSigned (z : Int) : Bool :=
  -signedLimit ≤ z && z < signedLimit

/-- An integer from 0 up to the greatest word. -/
def natural? : Data → Option UInt64
  | integer z => if 0 ≤ z ∧ z < UInt64.size then some (UInt64.ofNat z.toNat) else none
  | _ => none

/-- A text. -/
def text? : Data → Option String
  | text s => some s
  | _ => none

/-- A list, every item of which is read by `read`. -/
def listOf? (read : Data → Option α) : Data → Option (List α)
  | list ds => ds.mapM read
  | _ => none

/-- Null, or what `read` takes. -/
def nullable? (read : Data → Option α) : Data → Option (Option α)
  | null => some none
  | d => (read d).map some

/-- The values of the members that have one of the given names. -/
def valuesOf (names : List String) (members : List (String × Data)) : List Data :=
  (members.filter fun m => names.contains m.1).map (·.2)

/-- What `read` takes from the only member with one of the given names. -/
def required? (names : List String) (read : Data → Option α) (members : List (String × Data)) :
    Option α :=
  match valuesOf names members with
  | [d] => read d
  | _ => none

/-- What `read` takes from the only member with one of the given names, or `missing` if there is no
such member. -/
def optional? (names : List String) (read : Data → Option α) (missing : α)
    (members : List (String × Data)) : Option α :=
  match valuesOf names members with
  | [] => some missing
  | [d] => read d
  | _ => none

end Data

end Discussion
