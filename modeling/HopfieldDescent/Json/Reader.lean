import HopfieldDescent.Decimal.Rounding
import HopfieldDescent.Json
import HopfieldDescent.Scalar.Double

/-!
# Reading JSON texts

The reader works on the list of characters and produces a value with its faults in place.  Each
part returns what it read and what is left; nothing is left once reading has stopped at a fault.

Strings are scanned unit by unit.  An escaped code unit from the surrogate range counts only
together with its partner; a string with a lone one can be passed over but has no value.  Numbers
are rounded to the nearest double.
-/

namespace HopfieldDescent.Json

/-- Something read, and the text after it; `none` once reading has stopped. -/
structure Reading (α : Type) where
  /-- What was read. -/
  value : α
  /-- The text after it. -/
  rest : Option (List Char)

/-- Whether a character may stand between the parts of a value. -/
def isBlank (c : Char) : Bool := c == ' ' || c == '\n' || c == '\t' || c == '\r'

/-- The text from its first character that is not blank. -/
def skipBlanks (text : List Char) : List Char := text.dropWhile isBlank

/-! ## Strings -/

/-- The value of a hexadecimal digit. -/
def hexDigit? (c : Char) : Option Nat :=
  if c.isDigit then some (c.toNat - '0'.toNat)
  else if 'a' ≤ c ∧ c ≤ 'f' then some (c.toNat - 'a'.toNat + 10)
  else if 'A' ≤ c ∧ c ≤ 'F' then some (c.toNat - 'A'.toNat + 10)
  else none

/-- The code unit written with four hexadecimal digits. -/
def codeUnit? (a b c d : Char) : Option Nat := do
  return ((← hexDigit? a) * 16 + (← hexDigit? b)) * 256 + (← hexDigit? c) * 16 + (← hexDigit? d)

/-- The character of a one-letter escape. -/
def simpleEscape? : Char → Option Char
  | '"' => some '"'
  | '\\' => some '\\'
  | '/' => some '/'
  | 'b' => some '\x08'
  | 'f' => some '\x0c'
  | 'n' => some '\n'
  | 'r' => some '\r'
  | 't' => some '\t'
  | _ => none

/-- A string under construction: characters so far, last one first, an unpaired leading surrogate,
and whether the string still has a value. -/
structure StringState where
  /-- The characters, in reverse. -/
  reversed : List Char
  /-- A leading surrogate that waits for its partner. -/
  waiting : Option Nat
  /-- Whether every surrogate so far had a partner. -/
  valid : Bool

namespace StringState

/-- The empty string. -/
def empty : StringState := ⟨[], none, true⟩

/-- Appends a character; a surrogate that was waiting stays alone. -/
def push (state : StringState) (c : Char) : StringState :=
  ⟨c :: state.reversed, none, state.valid && state.waiting.isNone⟩

/-- Appends a code unit, joining a trailing surrogate with the one that waits for it. -/
def pushUnit (state : StringState) (unit : Nat) : StringState :=
  match state.waiting with
  | some leading =>
    if 0xDC00 ≤ unit ∧ unit < 0xE000 then
      let joined := 0x10000 + (leading - 0xD800) * 0x400 + (unit - 0xDC00)
      ⟨Char.ofNat joined :: state.reversed, none, state.valid⟩
    else ⟨state.reversed, none, false⟩
  | none =>
    if 0xD800 ≤ unit ∧ unit < 0xDC00 then ⟨state.reversed, some unit, state.valid⟩
    else if 0xDC00 ≤ unit ∧ unit < 0xE000 then ⟨state.reversed, none, false⟩
    else ⟨Char.ofNat unit :: state.reversed, none, state.valid⟩

/-- The string, if it has a value. -/
def finish (state : StringState) : Except SyntaxFault String :=
  if state.valid && state.waiting.isNone then .ok (String.ofList state.reversed.reverse)
  else .error .malformedString

end StringState

/-- Reads a string after its opening quote.  The outer fault is one at which reading stops, the
inner one leaves a string without a value. -/
def readString : StringState → List Char →
    Except SyntaxFault (Except SyntaxFault String × List Char)
  | _, [] => .error .endOfText
  | state, '"' :: rest => .ok (state.finish, rest)
  | _, ['\\'] => .error .endOfText
  | state, '\\' :: 'u' :: a :: b :: c :: d :: rest =>
    match codeUnit? a b c d with
    | some unit => readString (state.pushUnit unit) rest
    | none => .error .malformedString
  | state, '\\' :: letter :: rest =>
    match simpleEscape? letter with
    | some c => readString (state.push c) rest
    | none => .error .malformedString
  | state, c :: rest =>
    if c.toNat < 0x20 then .error .malformedString else readString (state.push c) rest

/-! ## Numbers -/

/-- The number that a run of decimal digits denotes. -/
def digitsValue (digits : List Char) : Nat :=
  digits.foldl (fun n c => 10 * n + (c.toNat - '0'.toNat)) 0

/-- The double nearest to a decimal; nothing beyond the finite range.  Exponents far outside the
range are settled by size alone. -/
def nearestDouble? (coefficient : Nat) (exponent : Int) : Option Float :=
  let size := Int.ofNat (Decimal.digitCount coefficient) + exponent
  if coefficient = 0 ∨ size < -400 then some 0.0
  else if 400 < size then none
  else
    let value := Float.ofScientific coefficient (decide (exponent < 0)) exponent.natAbs
    if value.isFinite then some value else none

/-- A whole part, a fraction and an exponent as a value. -/
def numberValue (negative : Bool) (whole fraction : List Char) (exponent : Int)
    (plain : Bool) : Json Float :=
  let coefficient := digitsValue (whole ++ fraction)
  if plain && !negative && decide (coefficient < Nat.pow 2 64) then .number (.natural coefficient)
  else match nearestDouble? coefficient (exponent - Int.ofNat fraction.length) with
    | some value => .number (.real (if negative then -value else value))
    | none => .unreadable .numberOutOfRange

/-- An exponent with its sign, after the letter that announces it. -/
def readExponent? (text : List Char) : Option (Int × List Char) :=
  let (negative, digitsOn) := match text with
    | '-' :: rest => (true, rest)
    | '+' :: rest => (false, rest)
    | rest => (false, rest)
  let digits := digitsOn.takeWhile Char.isDigit
  if digits.isEmpty then none
  else
    let size := Int.ofNat (digitsValue digits)
    some (if negative then -size else size, digitsOn.dropWhile Char.isDigit)

/-- Reads a number; a whole part of several digits does not start with zero, and a point or an
exponent has digits after it. -/
def readNumber (text : List Char) : Reading (Json Float) :=
  let stopped : Reading (Json Float) := ⟨.broken .malformedNumber, none⟩
  let (negative, text) := match text with
    | '-' :: rest => (true, rest)
    | rest => (false, rest)
  let whole := text.takeWhile Char.isDigit
  let afterWhole := text.dropWhile Char.isDigit
  if whole.isEmpty || (whole.head? == some '0' && decide (1 < whole.length)) then stopped
  else
    let pointed := afterWhole.head? == some '.'
    let fraction := if pointed then (afterWhole.drop 1).takeWhile Char.isDigit else []
    let afterFraction := if pointed then (afterWhole.drop 1).dropWhile Char.isDigit else afterWhole
    if pointed && fraction.isEmpty then stopped
    else match afterFraction with
      | letter :: rest =>
        if letter == 'e' || letter == 'E' then
          match readExponent? rest with
          | some (exponent, rest) =>
            ⟨numberValue negative whole fraction exponent false, some rest⟩
          | none => stopped
        else ⟨numberValue negative whole fraction 0 (!pointed), some afterFraction⟩
      | [] => ⟨numberValue negative whole fraction 0 (!pointed), some []⟩

/-! ## Values -/

/-- Reads a fixed word, of which the first letter has been seen. -/
def readWord (word : List Char) (value : Json Float) (text : List Char) : Reading (Json Float) :=
  if word.isPrefixOf text then ⟨value, some (text.drop word.length)⟩
  else ⟨.broken .unexpected, none⟩

mutual

/-- Reads one value.  Entering a nested part takes two of the `fuel` and at least one character, so
fuel of a little more than twice the length of the text never runs out. -/
def readValue : (fuel : Nat) → List Char → Reading (Json Float)
  | 0, _ => ⟨.broken .endOfText, none⟩
  | fuel + 1, text =>
    match skipBlanks text with
    | [] => ⟨.broken .endOfText, none⟩
    | '"' :: rest =>
      match readString .empty rest with
      | .ok (.ok s, rest) => ⟨.string s, some rest⟩
      | .ok (.error fault, rest) => ⟨.unreadable fault, some rest⟩
      | .error fault => ⟨.broken fault, none⟩
    | '[' :: rest =>
      let items := readItems fuel true rest
      ⟨.array items.value.1 items.value.2, items.rest⟩
    | '{' :: rest =>
      let members := readMembers fuel true rest
      ⟨.object members.value.1 members.value.2, members.rest⟩
    | 'n' :: rest => readWord "ull".toList .null rest
    | 't' :: rest => readWord "rue".toList (.bool true) rest
    | 'f' :: rest => readWord "alse".toList (.bool false) rest
    | c :: rest =>
      if c == '-' || c.isDigit then readNumber (c :: rest) else ⟨.broken .unexpected, none⟩

/-- Reads the items of an array up to its closing bracket. -/
def readItems : (fuel : Nat) → (first : Bool) → List Char →
    Reading (List (Json Float) × Option SyntaxFault)
  | 0, _, _ => ⟨([], some .endOfText), none⟩
  | fuel + 1, first, text =>
    match skipBlanks text with
    | [] => ⟨([], some .endOfText), none⟩
    | ']' :: rest => ⟨([], none), some rest⟩
    | c :: rest =>
      let itemOn := if first then c :: rest else skipBlanks rest
      if !first && c != ',' then ⟨([], some .unexpected), none⟩
      else if !first && itemOn.head? == some ']' then ⟨([], some .trailingComma), none⟩
      else
        let item := readValue fuel itemOn
        match item.rest with
        | none => ⟨([item.value], none), none⟩
        | some rest =>
          let items := readItems fuel false rest
          ⟨(item.value :: items.value.1, items.value.2), items.rest⟩

/-- Reads the members of an object up to its closing brace. -/
def readMembers : (fuel : Nat) → (first : Bool) → List Char →
    Reading (List (MemberName × Json Float) × Option SyntaxFault)
  | 0, _, _ => ⟨([], some .endOfText), none⟩
  | fuel + 1, first, text =>
    match skipBlanks text with
    | [] => ⟨([], some .endOfText), none⟩
    | '}' :: rest => ⟨([], none), some rest⟩
    | c :: rest =>
      let nameOn := if first then c :: rest else skipBlanks rest
      if !first && c != ',' then ⟨([], some .unexpected), none⟩
      else match nameOn with
        | [] => ⟨([], some .endOfText), none⟩
        | '}' :: _ => ⟨([], some .trailingComma), none⟩
        | '"' :: rest =>
          match readString .empty rest with
          | .ok (read, rest) =>
            let name := MemberName.ofExcept read
            let value := match skipBlanks rest with
              | ':' :: rest => readValue fuel rest
              | [] => ⟨.broken .endOfText, none⟩
              | _ => ⟨.broken .unexpected, none⟩
            match value.rest with
            | none => ⟨([(name, value.value)], none), none⟩
            | some rest =>
              let members := readMembers fuel false rest
              ⟨((name, value.value) :: members.value.1, members.value.2), members.rest⟩
          | .error fault => ⟨([], some fault), none⟩
        | _ => ⟨([], some .nameExpected), none⟩

end

end Json

/-- Reads a text. -/
def Document.ofText (text : String) : Document Float :=
  let characters := text.toList
  let reading := Json.readValue (2 * characters.length + 2) characters
  ⟨reading.value, (reading.rest.getD []).any fun c => !Json.isBlank c⟩

end HopfieldDescent
