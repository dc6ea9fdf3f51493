import Discussion.Data.Basic

/-!
# Tables

The values of a TOML text. A table remembers how it came to be, because that decides whether later
lines may add to it:

* an inline table is complete,
* a table made by the dots of a key takes further dotted keys,
* a table that is only implied by the header of a table inside it can still get a header of its own,
* a table with a header takes the lines under its header.

`Members.put` adds the value of a key, `Members.declare` a header, and `Members.within` finds the
table to which the lines under a header belong. Each fails where the rules forbid the addition.
-/

namespace Discussion.Toml

/-- How a table came to be. -/
inductive Form where
  | inlined
  | dotted
  | implied
  | headed
deriving DecidableEq, Repr

/-- A value of a TOML text. -/
inductive Value where
  | text (value : String)
  | integer (value : Int)
  | real (value : Float)
  | boolean (value : Bool)
  /-- A date, a time of day, or both. -/
  | moment
  | array (items : List Value)
  | table (form : Form) (members : List (String × Value))
  /-- The tables of repeated headers, the latest first. -/
  | tables (items : List (List (String × Value)))

/-- The members of a table, in the order in which their names appeared. -/
abbrev Members := List (String × Value)

namespace Members

/-- Changes the value of a name. The change is given the value, if there is one; a value for a new name
goes to the end. -/
def alter (name : String) (change : Option Value → Option Value) : Members → Option Members
  | [] => (change none).map fun v => [(name, v)]
  | (n, v) :: ms =>
    if n = name then (change (some v)).map fun w => (n, w) :: ms
    else (alter name change ms).map ((n, v) :: ·)

/-- Gives a value to a dotted key: the names before the last dot and the name behind it. The names
before the dot lead through tables made by dots; only on the way may there be implied tables and the
latest of repeated tables. -/
def put : (path : List String) → (name : String) → Value → Members → Option Members
  | [], name, v, ms => alter name (fun old => if old.isNone then some v else none) ms
  | n :: path, name, v, ms =>
    alter n
      (fun
        | none => (put path name v []).map (.table .dotted)
        | some (.table .dotted inner) => (put path name v inner).map (.table .dotted)
        | some (.table .implied inner) =>
          if path.isEmpty then none else (put path name v inner).map (.table .implied)
        | some (.tables (inner :: earlier)) =>
          if path.isEmpty then none
          else (put path name v inner).map fun inner => .tables (inner :: earlier)
        | some _ => none)
      ms

/-- Opens the table of a header; `repeats` tells whether the header may be repeated. Tables on the way
to it that do not exist are implied. -/
def declare (repeats : Bool) : (path : List String) → (name : String) → Members → Option Members
  | [], name, ms =>
    alter name
      (fun
        | none => some (if repeats then .tables [[]] else .table .headed [])
        | some (.table .implied inner) => if repeats then none else some (.table .headed inner)
        | some (.tables items) => if repeats then some (.tables ([] :: items)) else none
        | some _ => none)
      ms
  | n :: path, name, ms =>
    alter n
      (fun
        | none => (declare repeats path name []).map (.table .implied)
        | some (.table .inlined _) => none
        | some (.table form inner) => (declare repeats path name inner).map (.table form)
        | some (.tables (inner :: earlier)) =>
          (declare repeats path name inner).map fun inner => .tables (inner :: earlier)
        | some _ => none)
      ms

/-- Changes the members of the table to which a header leads. -/
def within (change : Members → Option Members) : (path : List String) → Members → Option Members
  | [], ms => change ms
  | n :: path, ms =>
    alter n
      (fun
        | some (.table form inner) => (within change path inner).map (.table form)
        | some (.tables (inner :: earlier)) =>
          (within change path inner).map fun inner => .tables (inner :: earlier)
        | _ => none)
      ms

end Members

mutual

/-- A value as data. Dates and times carry nothing that a post can hold; they become records without
members. -/
def Value.toData : Value → Data
  | .text s => .text s
  | .integer z => .integer z
  | .real f => .real f
  | .boolean b => .boolean b
  | .moment => .record []
  | .array vs => .list (Value.listToData vs)
  | .table _ ms => .record (Value.membersToData ms)
  | .tables items => .list (Value.tablesToData items).reverse

/-- Values as data. -/
def Value.listToData : List Value → List Data
  | [] => []
  | v :: vs => v.toData :: Value.listToData vs

/-- Members as data. -/
def Value.membersToData : List (String × Value) → List (String × Data)
  | [] => []
  | (n, v) :: ms => (n, v.toData) :: Value.membersToData ms

/-- Tables as data. -/
def Value.tablesToData : List (List (String × Value)) → List Data
  | [] => []
  | ms :: items => .record (Value.membersToData ms) :: Value.tablesToData items

end

end Discussion.Toml
