import HopfieldDescent.Scalar

/-!
# JSON values, read as far as they go

A text is read from the front, and whoever wants a value out of it stops at the first thing that is
wrong.  To keep that order, a fault of the text is kept in the tree, at the place where reading
found it: `broken` is a value at which reading stopped, `unreadable` is a literal that can be passed
over but has no value, the name of a member may be such a literal too, and an array or an object may
end in a fault.  Nothing follows a fault at which reading stopped.

Two walks over a tree find its first fault.  `faultWhenSkipped` serves a value that nobody wants,
`faultWhenKept` one that is taken in whole before its shape is looked at.
-/

namespace HopfieldDescent

/-- What is wrong with a JSON text. -/
inductive SyntaxFault where
  /-- The text ends inside a value. -/
  | endOfText
  /-- A character that cannot stand where it is. -/
  | unexpected
  /-- An object member that does not start with its name in quotes. -/
  | nameExpected
  /-- A comma with nothing after it but the closing bracket. -/
  | trailingComma
  /-- A number against the grammar of numbers. -/
  | malformedNumber
  /-- A number beyond the range of scalars. -/
  | numberOutOfRange
  /-- A string with a raw control character or a bad escape. -/
  | malformedString
  /-- Arrays and objects nested too deep. -/
  | tooDeep
  /-- Something after the end of the value. -/
  | trailingText
deriving DecidableEq, Repr

/-- A number as the text gives it: natural numbers below two to the power 64 are kept apart. -/
inductive Numeral (R : Type) where
  /-- Digits only, within 64 bits. -/
  | natural (n : Nat)
  /-- Any other number. -/
  | real (r : R)

/-- The scalar that a numeral denotes. -/
def Numeral.toScalar {R : Type} [Scalar R] : Numeral R → R
  | .natural n => Scalar.ofNat n
  | .real r => r

/-- The name of an object member: a string, or the fault that leaves it without a value. -/
inductive MemberName where
  /-- A string. -/
  | readable (name : String)
  /-- A literal without a value; what follows it is still read. -/
  | unreadable (fault : SyntaxFault)
deriving DecidableEq, Repr

/-- A name from the string that was read for it. -/
def MemberName.ofExcept : Except SyntaxFault String → MemberName
  | .ok name => .readable name
  | .error fault => .unreadable fault

/-- The fault of a name, if it has one. -/
def MemberName.fault? : MemberName → Option SyntaxFault
  | .readable _ => none
  | .unreadable fault => some fault

/-- A JSON value together with the fault at which reading it stopped, if it did. -/
inductive Json (R : Type) where
  /-- The null value. -/
  | null
  /-- A truth value. -/
  | bool (b : Bool)
  /-- A number. -/
  | number (n : Numeral R)
  /-- A string. -/
  | string (s : String)
  /-- A list of values, and the fault that stands in place of its closing bracket. -/
  | array (items : List (Json R)) (ending : Option SyntaxFault)
  /-- Named values in order, and the fault that stands in place of the closing brace. -/
  | object (members : List (MemberName × Json R)) (ending : Option SyntaxFault)
  /-- A literal without a value; what follows it is still read. -/
  | unreadable (fault : SyntaxFault)
  /-- The place where reading stopped. -/
  | broken (fault : SyntaxFault)

namespace Json

variable {R : Type}

/-- An object with the given members, read to its end. -/
def ofMembers (members : List (String × Json R)) : Json R :=
  .object (members.map fun (name, value) => (.readable name, value)) none

/-- An array of the given values, read to its end. -/
def ofItems (items : List (Json R)) : Json R := .array items none

mutual

/-- First fault of a value that is passed over: literals in it, names included, need not have a
value. -/
def faultWhenSkipped : Json R → Option SyntaxFault
  | .broken fault => some fault
  | .array items ending => (firstSkipped items).or ending
  | .object members ending =>
    -- Skipping does not tell a trailing comma from any other missing name.
    (firstSkippedMember members).or
      (ending.map fun fault => if fault = .trailingComma then .nameExpected else fault)
  | .null | .bool _ | .number _ | .string _ | .unreadable _ => none

/-- First fault of a list of values that are passed over. -/
def firstSkipped : List (Json R) → Option SyntaxFault
  | [] => none
  | item :: items => (faultWhenSkipped item).or (firstSkipped items)

/-- First fault of a list of members that are passed over. -/
def firstSkippedMember : List (MemberName × Json R) → Option SyntaxFault
  | [] => none
  | (_, value) :: members => (faultWhenSkipped value).or (firstSkippedMember members)

end

mutual

/-- First fault of a value that is taken in whole, inside which arrays and objects may be nested
`room` deep. -/
def faultWhenKept (room : Nat) : Json R → Option SyntaxFault
  | .broken fault | .unreadable fault => some fault
  | .array items ending =>
    if room = 0 then some .tooDeep else (firstKept (room - 1) items).or ending
  | .object members ending =>
    if room = 0 then some .tooDeep else (firstKeptMember (room - 1) members).or ending
  | .null | .bool _ | .number _ | .string _ => none

/-- First fault of a list of values that are taken in. -/
def firstKept (room : Nat) : List (Json R) → Option SyntaxFault
  | [] => none
  | item :: items => (faultWhenKept room item).or (firstKept room items)

/-- First fault of a list of members that are taken in. -/
def firstKeptMember (room : Nat) : List (MemberName × Json R) → Option SyntaxFault
  | [] => none
  | (name, value) :: members =>
    (name.fault?.or (faultWhenKept room value)).or (firstKeptMember room members)

end

end Json

/-- A text read to its end: its value, and whether anything but blanks follows it. -/
structure Document (R : Type) where
  /-- The value. -/
  value : Json R
  /-- Whether more text follows. -/
  trailing : Bool

end HopfieldDescent
