import Mathlib.Algebra.Group.Nat.Defs
import Subdomain.Proofs.Outcome
import Subdomain.Sparse.Store

/-!
# Packed descriptors as numbers

A word is a start times a power of two, plus a count below that power.  Reading the two fields divides
by the power, and packing multiplies, so a pair that fits its fields is read back as it was packed, and
every word is the packing of what is read from it.  To replace one field is to pack the other again.
-/

namespace Subdomain

namespace Offset

variable {bits : Nat}

theorem toNat_shift (narrow : bits < 64) : (shift bits).toNat = bits := by
  rw [shift, UInt64.toNat_ofNat_of_lt']
  exact Nat.lt_trans narrow (by decide)

theorem two_pow_mul_two_pow (narrow : bits < 64) : 2 ^ (64 - bits) * 2 ^ bits = 2 ^ 64 := by
  rw [← Nat.pow_add, Nat.sub_add_cancel (Nat.le_of_lt narrow)]

theorem two_pow_lt (narrow : bits < 64) : 2 ^ bits < 2 ^ 64 :=
  Nat.pow_lt_pow_right (by decide) narrow

theorem toNat_countMask (narrow : bits < 64) : (countMask bits).toNat = 2 ^ bits - 1 := by
  have unit : ((1 : UInt64) <<< shift bits).toNat = 2 ^ bits := by
    rw [UInt64.toNat_shiftLeft, toNat_shift narrow, Nat.mod_eq_of_lt narrow, UInt64.toNat_one,
      Nat.one_shiftLeft, Nat.mod_eq_of_lt (two_pow_lt narrow)]
  have positive : (1 : UInt64) ≤ 1 <<< shift bits := by
    rw [UInt64.le_iff_toNat_le, unit]
    exact Nat.one_le_two_pow
  rw [countMask, UInt64.toNat_sub_of_le _ _ positive, unit]
  rfl

theorem toNat_count (narrow : bits < 64) (offset : Offset bits) :
    offset.count.toNat = offset.word.toNat % 2 ^ bits := by
  rw [count, UInt64.toNat_and, toNat_countMask narrow, Nat.and_two_pow_sub_one_eq_mod]

theorem toNat_start (narrow : bits < 64) (offset : Offset bits) :
    offset.start.toNat = offset.word.toNat / 2 ^ bits := by
  rw [start, UInt64.toNat_shiftRight, toNat_shift narrow, Nat.mod_eq_of_lt narrow,
    Nat.shiftRight_eq_div_pow]

/-- A start and a count that fit their fields fill the word without overlap. -/
theorem toNat_word_pack (narrow : bits < 64) {start count : UInt64}
    (startFits : start.toNat < 2 ^ (64 - bits)) (countFits : count.toNat < 2 ^ bits) :
    (pack start count : Offset bits).word.toNat = start.toNat * 2 ^ bits + count.toNat := by
  have below : start.toNat * 2 ^ bits < 2 ^ 64 := by
    rw [← two_pow_mul_two_pow narrow]
    exact Nat.mul_lt_mul_of_pos_right startFits (Nat.two_pow_pos bits)
  rw [pack, UInt64.toNat_or, UInt64.toNat_shiftLeft, UInt64.toNat_and, toNat_shift narrow,
    Nat.mod_eq_of_lt narrow, toNat_countMask narrow, Nat.and_two_pow_sub_one_eq_mod,
    Nat.mod_eq_of_lt countFits, Nat.shiftLeft_eq, Nat.mod_eq_of_lt below, ← Nat.shiftLeft_eq,
    Nat.shiftLeft_add_eq_or_of_lt countFits]

/-- What is packed is read back, as long as it fits. -/
theorem unpack_pack (narrow : bits < 64) {start count : UInt64}
    (startFits : start.toNat < 2 ^ (64 - bits)) (countFits : count.toNat < 2 ^ bits) :
    (pack start count : Offset bits).start = start ∧ (pack start count : Offset bits).count = count := by
  have word := toNat_word_pack narrow startFits countFits
  constructor
  · rw [← UInt64.toNat_inj, toNat_start narrow, word, Nat.mul_comm,
      Nat.mul_add_div (Nat.two_pow_pos bits), Nat.div_eq_of_lt countFits, Nat.add_zero]
  · rw [← UInt64.toNat_inj, toNat_count narrow, word, Nat.mul_comm, Nat.mul_add_mod,
      Nat.mod_eq_of_lt countFits]

/-! ## Every word is packed -/

variable {offset : Offset bits} {start count : UInt64}

theorem le_maxStart_iff (narrow : bits < 64) :
    start ≤ maxStart bits ↔ start.toNat < 2 ^ (64 - bits) := by
  rw [UInt64.le_iff_toNat_le, maxStart, UInt64.toNat_shiftRight, toNat_shift narrow,
    Nat.mod_eq_of_lt narrow, Nat.shiftRight_eq_div_pow, Nat.le_div_iff_mul_le (Nat.two_pow_pos bits)]
  rw [← Nat.mul_lt_mul_right (Nat.two_pow_pos bits), two_pow_mul_two_pow narrow]
  exact Nat.lt_succ_iff.symm

theorem le_maxCount_iff (narrow : bits < 64) : count ≤ maxCount bits ↔ count.toNat < 2 ^ bits := by
  rw [UInt64.le_iff_toNat_le, maxCount, toNat_countMask narrow]
  exact Nat.le_sub_one_iff_lt (Nat.two_pow_pos bits)

theorem start_le_maxStart (narrow : bits < 64) (offset : Offset bits) :
    offset.start ≤ maxStart bits := by
  rw [le_maxStart_iff narrow, toNat_start narrow, Nat.div_lt_iff_lt_mul (Nat.two_pow_pos bits),
    two_pow_mul_two_pow narrow]
  exact offset.word.toNat_lt

theorem count_le_maxCount (narrow : bits < 64) (offset : Offset bits) :
    offset.count ≤ maxCount bits := by
  rw [le_maxCount_iff narrow, toNat_count narrow]
  exact Nat.mod_lt _ (Nat.two_pow_pos bits)

/-- A start and a count that fit their fields are read back as they were packed. -/
theorem fields_pack (narrow : bits < 64) (startFits : start ≤ maxStart bits)
    (countFits : count ≤ maxCount bits) :
    (pack start count : Offset bits).start = start ∧ (pack start count : Offset bits).count = count :=
  unpack_pack narrow ((le_maxStart_iff narrow).1 startFits) ((le_maxCount_iff narrow).1 countFits)

/-- Its start and its count make up a word. -/
theorem toNat_word (narrow : bits < 64) (offset : Offset bits) :
    offset.word.toNat = offset.start.toNat * 2 ^ bits + offset.count.toNat := by
  rw [toNat_start narrow, toNat_count narrow, Nat.div_add_mod']

theorem eq_of_word_eq {first second : Offset bits} (same : first.word = second.word) :
    first = second := by
  cases first
  cases second
  cases same
  rfl

theorem pack_fields (narrow : bits < 64) (offset : Offset bits) :
    pack offset.start offset.count = offset := by
  apply eq_of_word_eq
  rw [← UInt64.toNat_inj, toNat_word narrow offset]
  exact toNat_word_pack narrow ((le_maxStart_iff narrow).1 (start_le_maxStart narrow offset))
    ((le_maxCount_iff narrow).1 (count_le_maxCount narrow offset))

/-- The end of a row fits a word, as it is no larger than the word that describes the row. -/
theorem toNat_stop (narrow : bits < 64) (offset : Offset bits) :
    offset.stop.toNat = offset.start.toNat + offset.count.toNat := by
  have below : offset.start.toNat + offset.count.toNat < 2 ^ 64 := by
    calc offset.start.toNat + offset.count.toNat
      _ ≤ offset.start.toNat * 2 ^ bits + offset.count.toNat :=
        Nat.add_le_add_right (Nat.le_mul_of_pos_right _ (Nat.two_pow_pos bits)) _
      _ = offset.word.toNat := (toNat_word narrow offset).symm
      _ < 2 ^ 64 := offset.word.toNat_lt
  rw [stop, UInt64.toNat_add, Nat.mod_eq_of_lt below]

/-! ## Replacing one field -/

/-- What a mask clears of a word and what it keeps add up to the word. -/
theorem toNat_clear_add_keep (word mask : UInt64) :
    (word &&& ~~~mask).toNat + (word &&& mask).toNat = word.toNat := by
  have apart : (word &&& ~~~mask).toBitVec &&& (word &&& mask).toBitVec = 0#64 := by
    ext position inside
    simp only [UInt64.toBitVec_and, UInt64.toBitVec_not, BitVec.getElem_and, BitVec.getElem_not]
    cases word.toBitVec[position] <;> cases mask.toBitVec[position] <;> simp
  have joined : (word &&& ~~~mask).toBitVec ||| (word &&& mask).toBitVec = word.toBitVec := by
    ext position inside
    simp only [UInt64.toBitVec_and, UInt64.toBitVec_not, BitVec.getElem_or, BitVec.getElem_and,
      BitVec.getElem_not]
    cases word.toBitVec[position] <;> cases mask.toBitVec[position] <;> rfl
  have sum := BitVec.toNat_add_of_and_eq_zero apart
  rw [BitVec.add_eq_or_of_and_eq_zero _ _ apart, joined] at sum
  exact sum.symm

/-- A word without its count is its start at its place. -/
theorem clear_count (narrow : bits < 64) (offset : Offset bits) :
    offset.word &&& ~~~countMask bits = offset.start <<< shift bits := by
  have parts := toNat_clear_add_keep offset.word (countMask bits)
  have kept : (offset.word &&& countMask bits).toNat = offset.count.toNat := rfl
  rw [toNat_word narrow offset, kept] at parts
  have cleared := Nat.add_right_cancel parts
  have below : offset.start.toNat * 2 ^ bits < 2 ^ 64 := cleared ▸ UInt64.toNat_lt _
  rw [← UInt64.toNat_inj, cleared, UInt64.toNat_shiftLeft, toNat_shift narrow,
    Nat.mod_eq_of_lt narrow, Nat.shiftLeft_eq, Nat.mod_eq_of_lt below]

theorem setCount_eq_pack (narrow : bits < 64) (offset : Offset bits) (count : UInt64) :
    offset.setCount count = pack offset.start count := by
  rw [setCount, clear_count narrow, pack]

theorem setStart_eq_pack (offset : Offset bits) (start : UInt64) :
    offset.setStart start = pack start offset.count := by
  rw [setStart, pack, Offset.count, UInt64.and_assoc, UInt64.and_self, UInt64.or_comm]

/-- Replace the count of a descriptor where it stands. A count that does not fit is refused before
anything is written. -/
def setCountInPlace (count : UInt64) : ExceptT Error (StateM (Offset bits)) Unit := do
  if maxCount bits < count then throw (.offsetCountOverflow count.toNat bits)
  modify (·.setCount count)

/-- What an attempt to replace the count reports, and the descriptor that it leaves. -/
def attemptCount (offset : Offset bits) (count : UInt64) : Except Error Unit × Offset bits :=
  (setCountInPlace count).run.run offset

/-- An attempt ends as the fallible replacement does, and keeps the descriptor if that fails. -/
theorem attemptCount_eq (offset : Offset bits) (count : UInt64) :
    offset.attemptCount count =
      match offset.setCount? count with
      | .ok changed => (.ok (), changed)
      | .error error => (.error error, offset) := by
  rw [attemptCount, setCountInPlace, setCount?]
  split <;> rfl

/-! ## Main result -/

/-- Packing and reading are inverse to each other between the words and the pairs of a start and a count
that fit their fields, whatever the width of the count field.  To replace one field leaves the other as it
was, a count that does not fit is refused without a trace, rows end within the words, and a row that is
packed after another starts where that one ends. -/
theorem fields_are_independent (narrow : bits < 64) :
    (∀ start ≤ maxStart bits, ∀ count ≤ maxCount bits,
      (pack start count : Offset bits).start = start ∧
        (pack start count : Offset bits).count = count) ∧
    (∀ word : UInt64, let offset : Offset bits := ⟨word⟩
      offset.start ≤ maxStart bits ∧ offset.count ≤ maxCount bits ∧
        pack offset.start offset.count = offset) ∧
    (∀ offset : Offset bits, ∀ count ≤ maxCount bits,
      (offset.setCount count).start = offset.start ∧ (offset.setCount count).count = count ∧
        offset.attemptCount count = (.ok (), offset.setCount count)) ∧
    (∀ offset : Offset bits, ∀ start ≤ maxStart bits,
      (offset.setStart start).start = start ∧ (offset.setStart start).count = offset.count) ∧
    (∀ start ≤ maxStart bits, ∀ count, count ≤ maxCount bits →
      ∃ packed : Offset bits, pack? start count = .ok packed ∧ packed.start = start ∧
        packed.count = count) ∧
    (∀ (offset : Offset bits) (start count : UInt64), maxCount bits < count →
      pack? start count = (.error (.offsetCountOverflow count.toNat bits) : Except _ (Offset bits)) ∧
        offset.attemptCount count = (.error (.offsetCountOverflow count.toNat bits), offset)) ∧
    (∀ offset : Offset bits, offset.stop.toNat = offset.start.toNat + offset.count.toNat ∧
      offset.start.toNat + offset.count.toNat ≤ maxWord ∧
        offset.interval = ⟨offset.start.toNat, offset.stop.toNat⟩) ∧
    ∀ previous : Offset bits, previous.stop ≤ maxStart bits → ∀ count ≤ maxCount bits,
      (after previous count).start = previous.stop ∧ (after previous count).count = count := by
  have packed : ∀ start ≤ maxStart bits, ∀ count ≤ maxCount bits,
      (pack start count : Offset bits).start = start ∧
        (pack start count : Offset bits).count = count := fun _ startFits _ => fields_pack narrow startFits
  refine ⟨packed, fun word => ⟨start_le_maxStart narrow _, count_le_maxCount narrow _,
    pack_fields narrow _⟩, ?_, ?_, ?_, ?_, ?_, ?_⟩
  · intro offset count fits
    have read := packed offset.start (start_le_maxStart narrow offset) count fits
    rw [setCount_eq_pack narrow, attemptCount_eq, setCount?, if_neg (UInt64.not_lt.2 fits),
      setCount_eq_pack narrow]
    exact ⟨read.1, read.2, rfl⟩
  · intro offset start fits
    rw [setStart_eq_pack]
    exact packed start fits offset.count (count_le_maxCount narrow offset)
  · intro start startFits count fits
    rw [pack?, if_neg (UInt64.not_lt.2 fits)]
    exact ⟨_, rfl, packed start startFits count fits⟩
  · intro offset start count tooLong
    rw [attemptCount_eq, pack?, setCount?, if_pos tooLong, if_pos tooLong]
    exact ⟨rfl, rfl⟩
  · intro offset
    have stop := toNat_stop narrow offset
    refine ⟨stop, ?_, ?_⟩
    · rw [← stop]
      exact Nat.le_of_lt_succ offset.stop.toNat_lt
    · rw [interval, stop]
  · intro previous startFits count fits
    exact packed previous.stop startFits count fits

/-- With one bit left for the start: the row of the word with all bits set, its count replaced and then
refused, and a row after it. -/
theorem fields_are_independent_widest :
    let full : Offset 63 := ⟨0xFFFFFFFFFFFFFFFF⟩
    full.start = 1 ∧ pack full.start full.count = full ∧ full.stop.toNat = 0x8000000000000000 ∧
      (full.setCount 5).start = 1 ∧
      full.attemptCount 0x8000000000000000 = (.error (.offsetCountOverflow 0x8000000000000000 63), full) ∧
      (after (⟨1⟩ : Offset 63) 7).start = 1 := by
  obtain ⟨-, words, counts, -, -, refused, ends, follows⟩ := @fields_are_independent 63 (by decide)
  refine ⟨by decide, (words _).2.2, ?_, ?_, (refused _ 0 _ (by decide)).2, ?_⟩
  · rw [(ends _).1]
    decide
  · rw [(counts _ 5 (by decide)).1]
    decide
  · exact (follows _ (by decide) 7 (by decide)).1

end Offset

/-- The word of an extent that fits tells where the row starts and how long it is. -/
theorem Extent.toNat_pack {extent : Extent} (startFits : extent.start < 2 ^ 48)
    (countFits : extent.count < 2 ^ 16) :
    extent.pack.start.toNat = extent.start ∧ extent.pack.count.toNat = extent.count := by
  have start : (UInt64.ofNat extent.start).toNat = extent.start :=
    UInt64.toNat_ofNat_of_lt' (Nat.lt_trans startFits (by decide))
  have count : (UInt64.ofNat extent.count).toNat = extent.count :=
    UInt64.toNat_ofNat_of_lt' (Nat.lt_trans countFits (by decide))
  have unpacked := @Offset.unpack_pack 16 (by decide) (.ofNat extent.start) (.ofNat extent.count)
    (by rwa [start]) (by rwa [count])
  rw [Extent.pack, unpacked.1, unpacked.2]
  exact ⟨start, count⟩

end Subdomain
