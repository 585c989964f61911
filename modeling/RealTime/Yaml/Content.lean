import RealTime.Yaml.Decode

/-! # Values without an expected kind

Where nothing is known about what is expected, a scalar tells by itself what it is: plain text
is nothing, a truth value or a number if it reads as one, and quoted text is text.  Private tags
have no meaning here, and integers must fit sixty-four bits. -/

namespace RealTime.Yaml

/-- A value that tells its kind. -/
inductive Content where
  | null
  | truth (b : Bool)
  | integer (v : Int)
  | real
  | text (s : String)
  | list
  | table (entries : List (Content × Content))

namespace Content

/-- The kinds of integers: those that fit, those too wide, and texts that are no integers. -/
inductive Width where
  | fits (v : Int)
  | tooWide
  | none

/-- How wide the integer that a text writes is. -/
def width (text : String) : Width :=
  match integer? text.toList with
  | some v =>
    let narrow : Int := 0x10000000000000000
    let wide : Int := 0x100000000000000000000000000000000
    if -narrow ≤ 2 * v ∧ v < narrow then .fits v
    else if -wide ≤ 2 * v ∧ v < wide then .tooWide
    else .none
  | none => .none

/-- What a plain scalar without a tag is. -/
def ofPlain? (text : String) : Option Content :=
  if text.isEmpty || Decode.isNull text then some .null
  else
    match Decode.truth? text with
    | some b => some (.truth b)
    | none =>
      match width text with
      | .fits v => some (.integer v)
      | .tooWide => none
      | .none =>
        if !hasLeadingZero text.toList && isReal text then some .real else some (.text text)

/-- What a scalar is. -/
def ofScalar? (tag : Option String) (style : Style) (text : String) : Option Content :=
  match tag with
  | none => if style = .plain then ofPlain? text else some (.text text)
  | some tag =>
    if tag = Decode.standardTag "bool" then (Decode.truth? text).map .truth
    else if tag = Decode.standardTag "int" then
      match width text with
      | .fits v => some (.integer v)
      | _ => none
    else if tag = Decode.standardTag "float" then (if isReal text then some .real else none)
    else if tag = Decode.standardTag "null" then
      (if Decode.isNull text then some .null else none)
    else some (.text text)

/-- Read a node.  At most `depth` collections may be nested. -/
def ofNode : Nat → Node → Decode Content
  | depth, n => do
    match ← Decode.follow n with
    | .scalar tag style written =>
      if (Decode.privateTag? tag).isSome then failure
      else (ofScalar? tag style written).getDM failure
    | .sequence tag items =>
      if (Decode.privateTag? tag).isSome then failure
      match depth with
      | 0 => failure
      | depth + 1 =>
        discard (items.mapM (ofNode depth))
        return .list
    | .mapping tag entries =>
      if (Decode.privateTag? tag).isSome then failure
      match depth with
      | 0 => failure
      | depth + 1 =>
        return .table (← entries.mapM fun (k, v) => return (← ofNode depth k, ← ofNode depth v))
    | .alias _ => failure

/-! ### Expectations -/

/-- An integer between two bounds. -/
def integerIn? (low high : Int) : Content → Option Int
  | integer v => if low ≤ v ∧ v ≤ high then some v else none
  | _ => none

/-- A text. -/
def text? : Content → Option String
  | text s => some s
  | _ => none

/-- A truth value. -/
def truth? : Content → Option Bool
  | truth b => some b
  | _ => none

/-- Whether a value stands for nothing. -/
def isNothing : Content → Bool
  | null => true
  | table [] => true
  | _ => false

/-- One of some values, by its name or its number, or by a mapping from one of these to
nothing. -/
def choice? {α : Type} (ofName? : String → Option α) (all : List α) : Content → Option α
  | text s => ofName? s
  | table [(text s, v)] => if v.isNothing then ofName? s else none
  | table [(integer i, v)] =>
    if v.isNothing then (if 0 ≤ i then all[i.toNat]? else none) else none
  | _ => none

end Content

end RealTime.Yaml
