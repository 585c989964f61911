/-! # UTF-8 with replacement

Octets are read as text in two ways: `read?` wants every octet to belong to a well-formed
character, `readLossy` puts one U+FFFD in the place of each longest run of octets that starts
but does not complete a character.

* `readLossy_write`  reading written text gives the text back, without replacements
* `read?_write`      the same for the strict reader

`fit` cuts a text at a character boundary so that it needs no more than a given number of
octets; it keeps as many characters as possible (`cut_fit`). -/

namespace RealTime.Utf8

/-- The octets of a list of characters. -/
def write (cs : List Char) : List UInt8 := cs.flatMap String.utf8EncodeChar

/-- The well-formed character that a list of octets starts with. -/
def leading? (bs : List UInt8) : Option Char := (bs.take 4).toByteArray.utf8DecodeChar? 0

/-- Whether an octet continues a character. -/
def isContinuation (b : UInt8) : Bool := 0x80 ≤ b && b ≤ 0xBF

/-- Whether `b` can follow the first octet `a` of a character of three or four octets. -/
def isSecond (a b : UInt8) : Bool :=
  if a = 0xE0 then 0xA0 ≤ b && b ≤ 0xBF
  else if a = 0xED then 0x80 ≤ b && b ≤ 0x9F
  else if a = 0xF0 then 0x90 ≤ b && b ≤ 0xBF
  else if a = 0xF4 then 0x80 ≤ b && b ≤ 0x8F
  else 0xE1 ≤ a && a ≤ 0xF3 && isContinuation b

/-- Number of octets, at least one, that start but do not complete a character. -/
def spoilt : List UInt8 → Nat
  | a :: b :: c :: _ =>
    if isSecond a b then (if 0xF0 ≤ a && isContinuation c then 3 else 2) else 1
  | [a, b] => if isSecond a b then 2 else 1
  | _ => 1

theorem spoilt_pos (bs : List UInt8) : 0 < spoilt bs := by
  fun_cases spoilt <;> simp

/-- Read octets as text; ill-formed runs become U+FFFD. -/
def readLossy : List UInt8 → List Char
  | [] => []
  | b :: bs =>
    match leading? (b :: bs) with
    | some c => c :: readLossy ((b :: bs).drop c.utf8Size)
    | none => '\uFFFD' :: readLossy ((b :: bs).drop (spoilt (b :: bs)))
termination_by bs => bs.length
decreasing_by
  · have := c.utf8Size_pos; simp; omega
  · have := spoilt_pos (b :: bs); simp; omega

/-- Read octets as text if they are well-formed throughout. -/
def read? : List UInt8 → Option (List Char)
  | [] => some []
  | b :: bs =>
    match leading? (b :: bs) with
    | some c => (read? ((b :: bs).drop c.utf8Size)).map (c :: ·)
    | none => none
termination_by bs => bs.length
decreasing_by have := c.utf8Size_pos; simp; omega

/-- The longest initial segment whose octets number at most `budget`. -/
def fit (budget : Nat) : List Char → List Char
  | [] => []
  | c :: cs => if c.utf8Size ≤ budget then c :: fit (budget - c.utf8Size) cs else []

theorem length_utf8EncodeChar_le (c : Char) : (String.utf8EncodeChar c).length ≤ 4 := by
  rw [String.length_utf8EncodeChar]; exact c.utf8Size_le_four

theorem leading?_append (c : Char) (bs : List UInt8) :
    leading? (String.utf8EncodeChar c ++ bs) = some c := by
  rw [leading?, List.take_append, List.take_of_length_le (length_utf8EncodeChar_le c),
    List.toByteArray_append]
  exact ByteArray.utf8DecodeChar?_utf8EncodeChar_append

theorem write_cons (c : Char) (cs : List Char) :
    write (c :: cs) = String.utf8EncodeChar c ++ write cs := rfl

theorem drop_write_cons (c : Char) (cs : List Char) :
    (write (c :: cs)).drop c.utf8Size = write cs := by
  rw [write_cons, ← String.length_utf8EncodeChar, List.drop_left]

theorem leading?_write_cons (c : Char) (cs : List Char) : leading? (write (c :: cs)) = some c :=
  leading?_append c _

theorem readLossy_of_leading? {bs : List UInt8} {c : Char} (h : leading? bs = some c) :
    readLossy bs = c :: readLossy (bs.drop c.utf8Size) := by
  cases bs with
  | nil => simp [leading?, ByteArray.utf8DecodeChar?] at h
  | cons b bs => rw [readLossy, h]

theorem read?_of_leading? {bs : List UInt8} {c : Char} (h : leading? bs = some c) :
    read? bs = (read? (bs.drop c.utf8Size)).map (c :: ·) := by
  cases bs with
  | nil => simp [leading?, ByteArray.utf8DecodeChar?] at h
  | cons b bs => rw [read?, h]

/-- Written text is read back as it was. -/
theorem readLossy_write (cs : List Char) : readLossy (write cs) = cs := by
  induction cs with
  | nil => simp [write, readLossy]
  | cons c cs ih => rw [readLossy_of_leading? (leading?_write_cons c cs), drop_write_cons, ih]

/-- Written text is well-formed throughout. -/
theorem read?_write (cs : List Char) : read? (write cs) = some cs := by
  induction cs with
  | nil => simp [write, read?]
  | cons c cs ih => rw [read?_of_leading? (leading?_write_cons c cs), drop_write_cons, ih]; rfl

theorem length_write_cons (c : Char) (cs : List Char) :
    (write (c :: cs)).length = c.utf8Size + (write cs).length := by
  rw [write_cons, List.length_append, String.length_utf8EncodeChar]

theorem octets_fit_le (budget : Nat) (cs : List Char) :
    (write (fit budget cs)).length ≤ budget := by
  induction cs generalizing budget with
  | nil => simp [fit, write]
  | cons c cs ih =>
    rw [fit]
    split
    · rw [length_write_cons]; have := ih (budget - c.utf8Size); omega
    · simp [write]

theorem fit_prefix (budget : Nat) (cs : List Char) : fit budget cs <+: cs := by
  induction cs generalizing budget with
  | nil => simp [fit]
  | cons c cs ih =>
    rw [fit]
    split
    · exact (List.prefix_cons_inj c).2 (ih _)
    · exact List.nil_prefix

/-- Whatever else a text starts with and fits is no longer. -/
theorem prefix_fit_of_octets_le {budget : Nat} {cs other : List Char} (h : other <+: cs)
    (hle : (write other).length ≤ budget) : other <+: fit budget cs := by
  induction cs generalizing budget other with
  | nil => exact h
  | cons c cs ih =>
    rcases List.prefix_cons_iff.1 h with rfl | ⟨rest, rfl, hrest⟩
    · exact List.nil_prefix
    · rw [length_write_cons] at hle
      rw [fit, if_pos (by omega)]
      exact (List.prefix_cons_inj c).2 (ih hrest (by omega))

/-- A text is cut to its longest initial segment whose octets number at most `budget`. -/
structure Cut (budget : Nat) (cs cut : List Char) : Prop where
  initial : cut <+: cs
  octets_le : (write cut).length ≤ budget
  longest : ∀ {other : List Char}, other <+: cs → (write other).length ≤ budget → other <+: cut

theorem cut_fit (budget : Nat) (cs : List Char) : Cut budget cs (fit budget cs) where
  initial := fit_prefix budget cs
  octets_le := octets_fit_le budget cs
  longest := prefix_fit_of_octets_le

/-- A text that fits as it is loses nothing. -/
theorem Cut.eq_of_octets_le {budget : Nat} {cs cut : List Char} (h : Cut budget cs cut)
    (hle : (write cs).length ≤ budget) : cut = cs :=
  h.initial.eq_of_length_le (h.longest (List.prefix_refl cs) hle).length_le

theorem length_write_toList (s : String) : (write s.toList).length = s.utf8ByteSize := by
  have hbytes : s.toByteArray = (write s.toList).toByteArray := by
    rw [← String.ofList_toList (s := s), String.toByteArray_ofList, String.toList_ofList]
    rfl
  rw [← String.size_toByteArray, hbytes, List.size_toByteArray]

end RealTime.Utf8
