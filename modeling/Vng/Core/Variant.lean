import Vng.Host
import Vng.Lib.Decimal

/-!
# `core::Variant`

The values of `corevariant.cpp` that JSON texts are written from, and its printer. A map is the
list of its members in the order of their keys. On the target `int` and `long` have 32 bits.
-/

namespace Vng

/-- `Variant` with the types that `toJson` prints. -/
inductive Variant
  | map (members : List (List Byte × Variant))
  | list (elements : List Variant)
  | string (value : List Byte)
  | bool (value : Bool)
  | int (value : BitVec 32)
  | uint (value : BitVec 32)
  | long (value : BitVec 32)
  | ulong (value : BitVec 32)

namespace Variant

/-- `value`: a member of a map. -/
def value (name : List Byte) : Variant → Option Variant
  | .map members => (members.find? (·.1 = name)).map Prod.snd
  | _ => none

/-! ## `toJson` -/

/-- The tabs for an indentation: one more than it says. -/
def tabs (indents : ℤ) : List Byte := List.replicate (indents + 1).toNat 0x09

mutual
def toJson (indents : ℤ) : Variant → List Byte
  | .map members =>
    let json := [0x7B, 0x0A] ++ tabs indents ++ membersToJson indents members
    let json := if members.length > 1 then json.dropLast else json
    json ++ [0x0A] ++ tabs indents ++ [0x7D]
  | .list elements =>
    let json := [0x5B, 0x0A] ++ tabs indents ++ elementsToJson indents elements
    let json := if elements.length > 1 then json.dropLast else json
    json ++ List.replicate indents.toNat 0x09 ++ [0x5D]
  | .string value => value
  | .bool value => if value then [0x74, 0x72, 0x75, 0x65] else [0x66, 0x61, 0x6C, 0x73, 0x65]
  | .int value => Decimal.integer value.toInt
  | .uint value => Decimal.natural value.toNat
  | .long value => Decimal.integer value.toInt
  -- `%ld` for an unsigned value
  | .ulong value => Decimal.integer value.toInt

/-- The loop over a map: each member with its tabs inside the quotes, and a comma. -/
def membersToJson (indents : ℤ) : List (List Byte × Variant) → List Byte
  | [] => []
  | (key, value) :: members =>
    [0x0A, 0x22] ++ tabs indents ++ key ++ [0x22, 0x3A, 0x20] ++ toJson (indents + 1) value ++
      [0x2C] ++ membersToJson indents members

/-- The loop over a list. -/
def elementsToJson (indents : ℤ) : List Variant → List Byte
  | [] => []
  | value :: elements => toJson indents value ++ [0x2C] ++ elementsToJson indents elements
end

def INT_MAX : ℤ := 2 ^ 31 - 1

/-- Whether the loops over the tabs end: `indent <= INT_MAX` always holds. -/
def tabsEnd (indents : ℤ) : Bool := indents < INT_MAX

mutual
/-- Whether `toJson` ends: no loop over tabs runs for ever. -/
def ends (indents : ℤ) : Variant → Bool
  | .map members => tabsEnd indents && membersEnd indents members
  | .list elements => tabsEnd indents && elementsEnd indents elements
  | .string _ | .bool _ | .int _ | .uint _ | .long _ | .ulong _ => true

def membersEnd (indents : ℤ) : List (List Byte × Variant) → Bool
  | [] => true
  | (_, value) :: members => ends (indents + 1) value && membersEnd indents members

def elementsEnd (indents : ℤ) : List Variant → Bool
  | [] => true
  | value :: elements => ends indents value && elementsEnd indents elements
end

/-- The text that a caller of `toJson` gets, who starts from an empty one. -/
def printed (indents : BitVec 32) (value : Variant) : Memory.Checked (List Byte) :=
  if ends indents.toInt value then .ok (toJson indents.toInt value) else .error .diverges

end Variant
end Vng
