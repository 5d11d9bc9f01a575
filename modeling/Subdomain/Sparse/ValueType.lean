/-!
# Value types

The types of value that a sparse field can hold. A field remembers its type, so that a look-up at
another type is refused by name. Fields work over any family of types; the one given here has the
types that come up in practice.
-/

namespace Subdomain

/-- A family of types of value that fields can hold. -/
class ValueFamily (ι : Type) where
  /-- The values of a type. -/
  Carrier : ι → Type
  /-- The value that every cell of a type starts from. -/
  start : (type : ι) → Carrier type
  /-- The name that messages give a type. -/
  name : ι → String
  /-- Bytes of one stored cell. -/
  cellBytes : ι → Nat

instance {ι : Type} [ValueFamily ι] (type : ι) : Inhabited (ValueFamily.Carrier type) :=
  ⟨ValueFamily.start type⟩

/-- A type of value that comes up in practice. -/
inductive ValueType where
  /-- Unsigned 64-bit words. -/
  | word64
  /-- Signed 64-bit integers. -/
  | signed64
  /-- Unsigned 32-bit words. -/
  | word32
  /-- Texts. -/
  | text
  /-- Double-precision numbers. -/
  | double
  /-- Truth values. -/
  | flag
  /-- Three single-precision coordinates. -/
  | coordinates
  deriving DecidableEq, Repr

namespace ValueType

/-- The values of a type. -/
abbrev Carrier : ValueType → Type
  | word64 => UInt64
  | signed64 => Int64
  | word32 => UInt32
  | text => String
  | double => Float
  | flag => Bool
  | coordinates => Float32 × Float32 × Float32

/-- Every type has a starting value: zero, the empty text or false. -/
instance : (type : ValueType) → Inhabited type.Carrier
  | word64 => ⟨0⟩
  | signed64 => ⟨0⟩
  | word32 => ⟨0⟩
  | text => ⟨""⟩
  | double => ⟨0⟩
  | flag => ⟨false⟩
  | coordinates => ⟨(0, 0, 0)⟩

/-- The name that messages give a type. -/
def name : ValueType → String
  | word64 => "u64"
  | signed64 => "i64"
  | word32 => "u32"
  | text => "alloc::string::String"
  | double => "f64"
  | flag => "bool"
  | coordinates => "[f32; 3]"

/-- Bytes of one stored cell: an eight-byte entry and the value, padded to a multiple of eight. -/
def cellBytes : ValueType → Nat
  | text => 32
  | coordinates => 24
  | _ => 16

end ValueType

instance : ValueFamily ValueType where
  Carrier := ValueType.Carrier
  start _ := default
  name := ValueType.name
  cellBytes := ValueType.cellBytes

end Subdomain
