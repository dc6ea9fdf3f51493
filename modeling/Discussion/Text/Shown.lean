import Discussion.Text.Quoted

/-!
# Values shown for inspection

A value is shown as an atom or as a group of parts between an opening and a closing mark. The same
value can be shown on one line (`Shown.compact`), or with every part on a line of its own
(`Shown.spread`).
-/

namespace Discussion

universe u v

/-- The structure of a shown value. -/
inductive Shown where
  /-- A text without parts. -/
  | atom (text : String)
  /-- A part with its name. -/
  | named (name : String) (value : Shown)
  /-- Parts between two marks; on one line, `padding` sets the marks apart from the parts. -/
  | group (opening closing padding : String) (parts : List Shown)

namespace Shown

mutual

/-- The value on one line. -/
def compact : Shown → String
  | atom text => text
  | named name value => name ++ ": " ++ value.compact
  | group opening closing padding parts =>
    if parts.isEmpty then opening ++ closing
    else opening ++ padding ++ compactParts parts ++ padding ++ closing

/-- The parts on one line, with commas between them. -/
def compactParts : List Shown → String
  | [] => ""
  | [p] => p.compact
  | p :: q :: ps => p.compact ++ ", " ++ compactParts (q :: ps)

end

mutual

/-- The value with each part on a line of its own; continued lines begin with `margin`. -/
def spread (margin : String) : Shown → String
  | atom text => text
  | named name value => name ++ ": " ++ value.spread margin
  | group opening closing _ parts =>
    if parts.isEmpty then opening ++ closing
    else opening ++ "\n" ++ spreadParts (margin ++ "    ") parts ++ margin ++ closing

/-- The parts on lines of their own, each followed by a comma. -/
def spreadParts (margin : String) : List Shown → String
  | [] => ""
  | p :: ps => margin ++ p.spread margin ++ ",\n" ++ spreadParts margin ps

end

/-- A sequence. -/
def list (parts : List Shown) : Shown :=
  group "[" "]" "" parts

/-- Values side by side, behind the name of what they make up. -/
def tuple (name : String) (parts : List Shown) : Shown :=
  group (name ++ "(") ")" "" parts

/-- Named values, behind the name of what they make up. -/
def record (name : String) (fields : List (String × Shown)) : Shown :=
  group (name ++ " \x7b") "\x7d" " " (fields.map fun f => named f.1 f.2)

end Shown

/-- Values that can be shown for inspection. -/
class Inspect (α : Type u) where
  /-- The structure of the value. -/
  shown : α → Shown

export Inspect (shown)

/-- The value on one line. -/
def inspect {α : Type u} [Inspect α] (x : α) : String :=
  (shown x).compact

instance : Inspect Nat := ⟨fun n => .atom (toString n)⟩

instance : Inspect Int := ⟨fun n => .atom (toString n)⟩

instance : Inspect UInt64 := ⟨fun n => .atom (toString n)⟩

instance : Inspect String := ⟨fun s => .atom (Text.quote s)⟩

instance {α : Type u} {β : Type v} [Inspect α] [Inspect β] : Inspect (α × β) :=
  ⟨fun p => .tuple "" [shown p.1, shown p.2]⟩

instance {α : Type u} [Inspect α] : Inspect (Option α) where
  shown
    | none => .atom "None"
    | some x => .tuple "Some" [shown x]

instance {α : Type u} [Inspect α] : Inspect (List α) :=
  ⟨fun l => .list (l.map shown)⟩

end Discussion
