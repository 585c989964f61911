import RealTime.Yaml.Text

/-! # Numbers

A plain scalar is a number if its text is a decimal integer without leading zeros, an integer in
base sixteen, eight or two behind `0x`, `0o` or `0b`, or a decimal fraction.  A fraction too
large for a double-precision number is no number but text.

Integers have no bound here; those who read them state theirs. -/

namespace RealTime.Yaml

/-- The text behind a given start. -/
def afterStart? : List Char → List Char → Option (List Char)
  | [], cs => some cs
  | _ :: _, [] => none
  | a :: start, c :: cs => if a = c then afterStart? start cs else none

/-- The starts of integers in other bases. -/
def bases : List (List Char × Nat) := [(['0', 'x'], 16), (['0', 'o'], 8), (['0', 'b'], 2)]

/-- An integer in another base. -/
def based? (cs : List Char) : Option Nat :=
  bases.findSome? fun (start, base) => (afterStart? start cs).bind (natural? base)

/-- Leave out a plus sign in front. -/
def dropPlus (cs : List Char) : List Char :=
  match cs with
  | '+' :: cs => cs
  | cs => cs

/-- Leave out a sign in front. -/
def dropSign (cs : List Char) : List Char :=
  match cs with
  | '+' :: cs => cs
  | '-' :: cs => cs
  | cs => cs

/-- Whether a text has digits only, with a zero in front of others. -/
def hasLeadingZero (cs : List Char) : Bool :=
  match dropSign cs with
  | '0' :: d :: ds => (d :: ds).all (·.isDigit)
  | _ => false

/-- A decimal integer without a sign. -/
def decimal? (cs : List Char) : Option Nat :=
  if hasLeadingZero cs then none else natural? 10 cs

/-- The integer that a text without a minus sign writes. -/
def unsigned? (cs : List Char) : Option Nat :=
  let cs := dropPlus cs
  (based? cs).or (decimal? cs)

/-- The integer that a text with or without a minus sign writes. -/
def integer? (cs : List Char) : Option Int :=
  match cs with
  | '-' :: cs => ((based? cs).or (decimal? cs)).map fun n => -(n : Int)
  | cs => (unsigned? cs).map Int.ofNat

/-! ### Fractions -/

/-- The exponent of a fraction. -/
def exponent? : List Char → Option Int
  | [] => some 0
  | e :: cs =>
    if e = 'e' || e = 'E' then
      match cs with
      | '-' :: ds => (natural? 10 ds).map fun n => -(n : Int)
      | cs => (natural? 10 (dropPlus cs)).map Int.ofNat
    else none

/-- Digits, the number of places behind the point, and an exponent. -/
structure Fraction where
  digits : List Char
  places : Nat
  exponent : Int

/-- Read a fraction without a sign. -/
def fraction? (cs : List Char) : Option Fraction := do
  let (whole, rest) := cs.span Char.isDigit
  let (part, rest) := match rest with
    | '.' :: rest => rest.span Char.isDigit
    | rest => ([], rest)
  if whole.isEmpty && part.isEmpty then none
  else some ⟨whole ++ part, part.length, ← exponent? rest⟩

/-- Whether a fraction stays below the bound from which numbers round to infinity. -/
def Fraction.isFinite (f : Fraction) : Bool :=
  let digits := f.digits.dropWhile (· = '0')
  let exponent := f.exponent - f.places
  -- The value lies below ten to the power `size` and not below a tenth of that.
  let size := digits.length + exponent
  let value := (natural? 10 digits).getD 0
  let bound := Nat.pow 2 1024 - Nat.pow 2 970
  if digits.isEmpty || size < 309 then true
  else if 309 < size then false
  else if exponent < 0 then value < bound * Nat.pow 10 exponent.natAbs
  else value * Nat.pow 10 exponent.toNat < bound

/-- The names of infinity and of what is not a number, with their signs. -/
def isSpecialNumber (text : String) : Bool :=
  text ∈ [".inf", ".Inf", ".INF", "+.inf", "+.Inf", "+.INF", "-.inf", "-.Inf", "-.INF", ".nan",
    ".NaN", ".NAN"]

/-- Whether a text writes a number with a point, an exponent or more digits than an integer may
have. -/
def isReal (text : String) : Bool :=
  isSpecialNumber text ||
    match fraction? (dropSign text.toList) with
    | some f => f.isFinite
    | none => false

end RealTime.Yaml
