import Vng.Core.Variant

/-!
# `core::Variant` as it is read

What a configuration file or a JSON text is loaded into, with all types of `corevariant.cpp`, and
the accessors that its readers use. `Variant` has the values that are printed; `Variant.setting`
places them here.
-/

namespace Vng

/-- A setting as the program reads it back. -/
inductive Setting
  | unknown
  | map (members : List (List Byte × Setting))
  | list (elements : List Setting)
  | string (value : List Byte)
  | bool (value : Bool)
  | int (value : BitVec 32)
  | uint (value : BitVec 32)
  | long (value : BitVec 32)
  | ulong (value : BitVec 32)
  -- the two formats, as their bits
  | double (value : BitVec 64)
  | float (value : BitVec 32)

namespace Setting

/-- `Private::lookup`: a member of a map. -/
def value (name : List Byte) : Setting → Option Setting
  | .map members => (members.find? (·.1 = name)).map Prod.snd
  | _ => none

/-- `toInt`, of a value that `isInteger`. -/
def integer : Setting → Option (BitVec 32)
  | .int value | .uint value | .long value | .ulong value => some value
  | _ => none

/-- `toString`, empty for everything that is not a string. -/
def toString : Setting → List Byte
  | .string value => value
  | _ => []

end Setting

mutual
def Variant.setting : Variant → Setting
  | .map members => .map (membersSetting members)
  | .list elements => .list (elementsSetting elements)
  | .string value => .string value
  | .bool value => .bool value
  | .int value => .int value
  | .uint value => .uint value
  | .long value => .long value
  | .ulong value => .ulong value

def Variant.membersSetting : List (List Byte × Variant) → List (List Byte × Setting)
  | [] => []
  | (key, value) :: members => (key, value.setting) :: membersSetting members

def Variant.elementsSetting : List Variant → List Setting
  | [] => []
  | value :: elements => value.setting :: elementsSetting elements
end

/-- A lookup finds the same member. -/
lemma Variant.value_setting (v : Variant) (name : List Byte) :
    v.setting.value name = (v.value name).map Variant.setting := by
  cases v with
  | map members =>
    dsimp only [Variant.setting, Setting.value, Variant.value]
    induction members with
    | nil => rfl
    | cons member members ih =>
      obtain ⟨key, value⟩ := member
      rw [Variant.membersSetting, List.find?_cons, List.find?_cons]
      dsimp only
      by_cases hkey : key = name
      · simp [hkey]
      · simpa [hkey] using ih
  | _ => rfl

end Vng
