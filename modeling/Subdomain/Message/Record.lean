import Subdomain.Message.Program

/-!
# Records

Records of a fixed number of bytes, as they travel in messages: words are written with the least
byte first, and the fields of a record one after the other.

Main statements: reading back what was written (`Record.decode_encode`, `decodeMany_encodeMany`).
-/

namespace Subdomain

/-- The low bytes of a number, least first. -/
def littleEndian : Nat → Nat → Bytes
  | 0, _ => []
  | count + 1, number => UInt8.ofNat number :: littleEndian count (number / 256)

/-- The number with the given bytes, least first. -/
def ofLittleEndian (bytes : Bytes) : Nat :=
  bytes.foldr (fun byte number => byte.toNat + 256 * number) 0

@[simp] theorem length_littleEndian (count number : Nat) :
    (littleEndian count number).length = count := by
  induction count generalizing number with
  | zero => rfl
  | succ count ih => simp [littleEndian, ih]

theorem ofLittleEndian_littleEndian {count number : Nat} (fits : number < Nat.pow 256 count) :
    ofLittleEndian (littleEndian count number) = number := by
  induction count generalizing number with
  | zero =>
    have zero : number = 0 := Nat.lt_one_iff.1 fits
    subst zero
    rfl
  | succ count ih =>
    have step : ofLittleEndian (littleEndian (count + 1) number) =
        (UInt8.ofNat number).toNat + 256 * ofLittleEndian (littleEndian count (number / 256)) := rfl
    have smaller : number / 256 < Nat.pow 256 count :=
      Nat.div_lt_of_lt_mul (Nat.mul_comm .. ▸ fits)
    rw [step, ih smaller, UInt8.toNat_ofNat']
    omega

/-- A type of records of a fixed number of bytes. -/
class Record (ρ : Type) where
  /-- Bytes of one record. -/
  size : Nat
  encode : ρ → Bytes
  decode : Bytes → ρ
  length_encode : ∀ record, (encode record).length = size
  decode_encode : ∀ record, decode (encode record) = record

namespace Record

variable {ρ : Type} [Record ρ]

/-- The bytes of some records, one after the other. -/
def encodeMany (records : List ρ) : Bytes := records.flatMap encode

/-- So many records read off the front of some bytes. -/
def decodeMany : Nat → Bytes → List ρ
  | 0, _ => []
  | count + 1, bytes => decode (bytes.take (size ρ)) :: decodeMany count (bytes.drop (size ρ))

@[simp] theorem length_encodeMany (records : List ρ) :
    (encodeMany records).length = records.length * size ρ := by
  induction records with
  | nil => simp [encodeMany]
  | cons head rest ih =>
    have step : encodeMany (head :: rest) = encode head ++ encodeMany rest := rfl
    rw [step, List.length_append, ih, length_encode, List.length_cons, Nat.succ_mul, Nat.add_comm]

theorem decodeMany_encodeMany (records : List ρ) :
    decodeMany records.length (encodeMany records) = records := by
  induction records with
  | nil => rfl
  | cons head rest ih =>
    have step : encodeMany (head :: rest) = encode head ++ encodeMany rest := rfl
    simp only [List.length_cons, decodeMany, step]
    rw [← length_encode head, List.take_left, List.drop_left, decode_encode, ih]

end Record

/-- A word takes eight bytes. -/
instance : Record UInt64 where
  size := 8
  encode word := littleEndian 8 word.toNat
  decode bytes := UInt64.ofNat (ofLittleEndian bytes)
  length_encode _ := length_littleEndian ..
  decode_encode word := by
    rw [ofLittleEndian_littleEndian word.toNat_lt, UInt64.ofNat_toNat]

/-- Where an entity lives: the answer of its owner to a request. -/
structure Location where
  id : EntityId
  /-- The rank that owns the entity. -/
  owner : Rank
  /-- The position of the entity in the owner's numbering. -/
  offset : UInt64
  deriving DecidableEq, Repr

/-- A location takes three words. -/
instance : Record Location where
  size := 24
  encode location := Record.encodeMany [location.id, location.owner, location.offset]
  decode bytes :=
    match Record.decodeMany (ρ := UInt64) 3 bytes with
    | [id, owner, offset] => ⟨id, owner, offset⟩
    | _ => ⟨0, 0, 0⟩
  length_encode _ := by rw [Record.length_encodeMany]; rfl
  decode_encode location := by
    have same := Record.decodeMany_encodeMany [location.id, location.owner, location.offset]
    simp only [List.length_cons, List.length_nil, Nat.zero_add, Nat.reduceAdd] at same
    rw [same]

end Subdomain
