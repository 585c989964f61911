import RealTime.Yaml.Node
import RealTime.Yaml.Number

/-! # Values of documents

`Decode` reads values out of the nodes of a document.  What a node means depends on what is
asked for: the scalar `5` is a number where a number is expected and text where text is.

Nothing written counts as an empty sequence or mapping.  Following aliases is limited in number,
so that a short document cannot stand for an endless one. -/

namespace RealTime.Yaml

/-- A reader of values.  The state is how many aliases may still be followed. -/
abbrev Decode := ReaderT Document (StateT Nat Option)

namespace Decode

/-- How often each node of a document may be reached through an alias, on average. -/
def aliasFactor : Nat := 100

/-- Read a value from the root of a document. -/
def run? {α : Type} (d : Document) (read : Node → Decode α) : Option α :=
  (((read d.root).run d).run (aliasFactor * d.size)).map (·.1)

/-- Read a value from a text. -/
def ofText? {α : Type} (text : String) (read : Node → Decode α) : Option α := do
  run? (← Document.ofText? text) read

/-- Follow an alias. -/
def follow (n : Node) : Decode Node := do
  match n with
  | .alias anchor =>
    match ← get, (← read).anchored? anchor with
    | left + 1, some node =>
      set left
      return node
    | _, _ => failure
  | _ => return n

/-! ### Scalars -/

/-- The largest number of sixty-four bits. -/
def wordLimit : Nat := 0xFFFFFFFFFFFFFFFF

/-- The largest number of thirty-two bits. -/
def halfWordLimit : Nat := 0xFFFFFFFF

/-- The text of the standard tag with a given name. -/
def standardTag (name : String) : String := "tag:yaml.org,2002:" ++ name

/-- Whether a plain text stands for nothing. -/
def isNull (text : String) : Bool := text ∈ ["null", "Null", "NULL", "~"]

/-- The truth value that a plain text stands for. -/
def truth? (text : String) : Option Bool :=
  if text ∈ ["true", "True", "TRUE"] then some true
  else if text ∈ ["false", "False", "FALSE"] then some false
  else none

/-- The name in a private tag. -/
def privateTag? (tag : Option String) : Option String := do
  match (← tag).toList with
  | ['!'] => some "!"
  | '!' :: cs => some (String.ofList cs)
  | _ => none

/-- Read any scalar as text. -/
def text (n : Node) : Decode String := do
  match ← follow n with
  | .scalar _ _ text => return text
  | _ => failure

/-- Whether a scalar can be a number or nothing: it is plain, or a literal block with the tag. -/
def isLiteral (name : String) (tag : Option String) (style : Style) : Bool :=
  style = .plain || (style = .literal && tag = some (standardTag name))

/-- Read an integer that is not negative and at most `limit`. -/
def natural (limit : Nat) (n : Node) : Decode Nat := do
  match ← follow n with
  | .scalar tag style text =>
    if !isLiteral "int" tag style then failure
    match unsigned? text.toList with
    | some v => if v ≤ limit then return v else failure
    | none => failure
  | _ => failure

/-- Read one of some values by its name.  The name is a scalar, or a private tag on nothing. -/
def choice {α : Type} (ofName? : String → Option α) (n : Node) : Decode α := do
  match ← follow n with
  | .scalar tag style text =>
    match privateTag? tag with
    | some name =>
      if style = .plain && (text.isEmpty || isNull text) then (ofName? name).getDM failure
      else failure
    | none => (ofName? text).getDM failure
  | _ => failure

/-- Read a value that may be missing. -/
def optional {α : Type} (value : Node → Decode α) (n : Node) : Decode (Option α) := do
  let n ← follow n
  match n with
  | .scalar tag .plain text =>
    if tag = some (standardTag "null") then
      if isNull text then return none else failure
    else if tag.isNone && (text.isEmpty || isNull text) then return none
    else return some (← value n)
  | _ => return some (← value n)

/-! ### Collections -/

/-- Read the items of a sequence. -/
def items (n : Node) : Decode (List Node) := do
  match ← follow n with
  | .sequence _ items => return items
  | .scalar _ .plain "" => return []
  | _ => failure

/-- Read a sequence of values. -/
def list {α : Type} (value : Node → Decode α) (n : Node) : Decode (List α) := do
  (← items n).mapM value

/-- Read the entries of a mapping.  Every key must be a scalar. -/
def entries (n : Node) : Decode (List (String × Node)) := do
  match ← follow n with
  | .mapping _ entries => entries.mapM fun (k, v) => return (← text k, v)
  | .scalar _ .plain "" => return []
  | _ => failure

/-- The only value under a name, if there is one. -/
def only? {α : Type} (entries : List (String × α)) (name : String) : Decode (Option α) :=
  match entries.filter (·.1 = name) with
  | [] => return none
  | [(_, value)] => return some value
  | _ => failure

/-- Read a field of a mapping, if it is there. -/
def field? {α : Type} (entries : List (String × Node)) (name : String) (value : Node → Decode α) :
    Decode (Option α) := do
  match ← only? entries name with
  | some n => return some (← value n)
  | none => return none

/-- Read a field of a mapping that has a default. -/
def fieldD {α : Type} (entries : List (String × Node)) (name : String) (default : α)
    (value : Node → Decode α) : Decode α := do
  return (← field? entries name value).getD default

/-- Read a field of a mapping that must be there. -/
def field {α : Type} (entries : List (String × Node)) (name : String) (value : Node → Decode α) :
    Decode α := do
  (← field? entries name value).getDM failure

end Decode

end RealTime.Yaml
