import Subdomain.Halo.SummaryWords
import Subdomain.Proofs.Ordered

/-!
# Summaries are read back

The words of a summary announce how many of them there are, so they can be cut where the parts meet, and
the words of one summary never begin with those of another.  Words are read exactly if they are as many
as they announce.  The summary that is read is written in the same words exactly if the members of each
rank set ascend, since sets forget order and repetition.
-/

namespace Subdomain

namespace Summary

variable {summary : Summary} {words : List UInt64} {users owners : UInt64}

theorem length_encode (summary : Summary) :
    summary.encode.length =
      headerLength + summary.sharedUsers.toList.length + summary.ghostOwners.toList.length := by
  simp only [encode, header, headerLength, List.length_append, List.length_cons, List.length_nil]

/-! ## Announced lengths -/

/-- Words with a whole header, which ends in the sizes of the two rank sets. -/
structure Announces (words : List UInt64) (users owners : UInt64) : Prop where
  users : words[3]? = some users
  owners : words[4]? = some owners

/-- How many words there are when the rank sets have the given sizes. -/
def announced (users owners : UInt64) : Nat := headerLength + users.toNat + owners.toNat

/-- Exactly as many words as the header announces. -/
def Whole (words : List UInt64) : Prop :=
  ∃ users owners, Announces words users owners ∧ words.length = announced users owners

/-- No more words are announced than a word can count. -/
def Countable (words : List UInt64) : Prop :=
  ∀ users owners, Announces words users owners → announced users owners ≤ maxWord

/-- The members of each rank set follow in ascending order. -/
def Ascends (words : List UInt64) (users : UInt64) : Prop :=
  ((words.drop headerLength).take users.toNat).Pairwise (· < ·) ∧
    ((words.drop headerLength).drop users.toNat).Pairwise (· < ·)

namespace Announces

theorem length_le (announces : Announces words users owners) : headerLength ≤ words.length :=
  (List.getElem?_eq_some_iff.1 announces.owners).1

theorem exists_of_length_le (whole : headerLength ≤ words.length) :
    ∃ users owners, Announces words users owners := by
  have inside : 4 < words.length := whole
  have earlier : 3 < words.length := Nat.lt_of_succ_lt inside
  exact ⟨words[3], words[4], List.getElem?_eq_getElem earlier, List.getElem?_eq_getElem inside⟩

theorem exists_members (announces : Announces words users owners) :
    ∃ exclusive shared ghost members,
      words = exclusive :: shared :: ghost :: users :: owners :: members := by
  match words, announces with
  | exclusive :: shared :: ghost :: _ :: _ :: members, ⟨rfl, rfl⟩ =>
      exact ⟨exclusive, shared, ghost, members, rfl⟩

theorem unique (announces : Announces words users owners) {otherUsers otherOwners : UInt64}
    (others : Announces words otherUsers otherOwners) :
    users = otherUsers ∧ owners = otherOwners :=
  ⟨Option.some.inj (announces.users.symm.trans others.users),
    Option.some.inj (announces.owners.symm.trans others.owners)⟩

/-- More words after a header change nothing in what it announces. -/
theorem append (announces : Announces words users owners) (rest : List UInt64) :
    Announces (words ++ rest) users owners := by
  have whole : headerLength ≤ words.length := announces.length_le
  constructor
  · rw [List.getElem?_append_left (Nat.lt_of_succ_lt whole)]
    exact announces.users
  · rw [List.getElem?_append_left whole]
    exact announces.owners

theorem countable_iff (announces : Announces words users owners) :
    Countable words ↔ announced users owners ≤ maxWord := by
  constructor
  · intro countable
    exact countable users owners announces
  · intro within otherUsers otherOwners others
    rcases announces.unique others with ⟨rfl, rfl⟩
    exact within

theorem whole_iff (announces : Announces words users owners) :
    Whole words ↔ words.length = announced users owners := by
  constructor
  · rintro ⟨otherUsers, otherOwners, others, whole⟩
    rcases announces.unique others with ⟨rfl, rfl⟩
    exact whole
  · intro whole
    exact ⟨users, owners, announces, whole⟩

end Announces

theorem Countable.of_isPrefix {front : List UInt64} (countable : Countable words)
    (begins : front <+: words) : Countable front := by
  rcases begins with ⟨rest, rfl⟩
  intro users owners announces
  exact countable users owners (announces.append rest)

/-- What begins with a whole list of words, and goes on, is not whole. -/
theorem Whole.eq_of_isPrefix {front : List UInt64} (shorter : Whole front) (longer : Whole words)
    (begins : front <+: words) : front = words := by
  rcases shorter with ⟨users, owners, announces, length⟩
  rcases begins with ⟨rest, rfl⟩
  have same := ((announces.append rest).whole_iff.1 longer).trans length.symm
  exact (List.prefix_append front rest).eq_of_length same.symm

/-! ## The words of a summary -/

theorem announces_encode (summary : Summary) :
    Announces summary.encode (.ofNat summary.sharedUsers.size) (.ofNat summary.ghostOwners.size) :=
  ⟨rfl, rfl⟩

/-- Unless there are more words than a word can count, the sizes in the header are right. -/
theorem toNat_sizes (short : summary.encode.length ≤ maxWord) :
    (UInt64.ofNat summary.sharedUsers.size).toNat = summary.sharedUsers.toList.length ∧
      (UInt64.ofNat summary.ghostOwners.size).toNat = summary.ghostOwners.toList.length := by
  have wide : maxWord < UInt64.size := by decide
  rw [length_encode] at short
  constructor
  · apply UInt64.toNat_ofNat_of_lt'
    rw [SortedSet.size]
    omega
  · apply UInt64.toNat_ofNat_of_lt'
    rw [SortedSet.size]
    omega

theorem length_encode_eq_announced (short : summary.encode.length ≤ maxWord) :
    summary.encode.length =
      announced (.ofNat summary.sharedUsers.size) (.ofNat summary.ghostOwners.size) := by
  rw [announced, (toNat_sizes short).1, (toNat_sizes short).2, length_encode]

theorem whole_encode (short : summary.encode.length ≤ maxWord) : Whole summary.encode :=
  ⟨_, _, announces_encode summary, length_encode_eq_announced short⟩

theorem countable_encode (short : summary.encode.length ≤ maxWord) : Countable summary.encode :=
  (announces_encode summary).countable_iff.2 (length_encode_eq_announced short ▸ short)

theorem ascends_encode (short : summary.encode.length ≤ maxWord) :
    Ascends summary.encode (.ofNat summary.sharedUsers.size) := by
  have members : summary.encode.drop headerLength =
      summary.sharedUsers.toList ++ summary.ghostOwners.toList := rfl
  rw [Ascends, members, (toNat_sizes short).1, List.take_left, List.drop_left]
  exact ⟨summary.sharedUsers.pairwise_lt, summary.ghostOwners.pairwise_lt⟩

/-- A summary is read back from its words, unless there are more of them than a word can count. -/
theorem decode?_encode {summary : Summary} (short : summary.encode.length ≤ maxWord) :
    decode? summary.encode = .ok (some summary) := by
  rcases toNat_sizes short with ⟨users, owners⟩
  rw [length_encode] at short
  have words : summary.encode = summary.exclusive :: summary.shared :: summary.ghost ::
      .ofNat summary.sharedUsers.size :: .ofNat summary.ghostOwners.size ::
        (summary.sharedUsers.toList ++ summary.ghostOwners.toList) := rfl
  rw [words, decode?, users, owners, if_neg (Nat.not_lt.2 short), if_pos List.length_append,
    List.take_left, List.drop_left, SortedSet.ofList_toList, SortedSet.ofList_toList]

/-! ## Reading -/

/-- What reading makes of some words. -/
inductive Reads (words : List UInt64) : Except Error (Option Summary) → Prop where
  /-- More words are announced than a word can count, and reading stops. -/
  | beyond (beyond : ¬ Countable words) : Reads words (.error (.defect .wordOverflow))
  /-- There is no whole header, or there are more or fewer words than it announces. -/
  | ragged (countable : Countable words) (ragged : ¬ Whole words) : Reads words (.ok none)
  /-- There are as many words as announced. -/
  | whole {users owners : UInt64} {found : Summary} (announces : Announces words users owners)
      (within : announced users owners ≤ maxWord) (length : words.length = announced users owners)
      (rewritten : found.encode = words ↔ Ascends words users) : Reads words (.ok (some found))

/-- Whatever summary some words are of, its members ascend in them. -/
theorem ascends_of_encode_eq (announces : Announces words users owners)
    (short : words.length ≤ maxWord) (same : summary.encode = words) : Ascends words users := by
  subst same
  rcases announces.unique (announces_encode summary) with ⟨rfl, _⟩
  exact ascends_encode short

/-- Members that ascend stay as they are when they are put into sets. -/
theorem encode_eq_of_ascends {exclusive shared ghost : UInt64} {members : List UInt64}
    (whole : members.length = users.toNat + owners.toNat)
    (ascends : Ascends (exclusive :: shared :: ghost :: users :: owners :: members) users) :
    encode ⟨exclusive, shared, ghost, .ofList (members.take users.toNat),
        .ofList (members.drop users.toNat)⟩ =
      exclusive :: shared :: ghost :: users :: owners :: members := by
  rcases ascends with ⟨usersAscend, ownersAscend⟩
  have first : (SortedSet.ofList (members.take users.toNat)).toList = members.take users.toNat :=
    SortedSet.toList_ofList usersAscend
  have second : (SortedSet.ofList (members.drop users.toNat)).toList = members.drop users.toNat :=
    SortedSet.toList_ofList ownersAscend
  have firstLength : (members.take users.toNat).length = users.toNat := by
    rw [List.length_take, whole, Nat.min_eq_left (Nat.le_add_right _ _)]
  have secondLength : (members.drop users.toNat).length = owners.toNat := by
    rw [List.length_drop, whole, Nat.add_sub_cancel_left]
  rw [encode, header, SortedSet.size, SortedSet.size, first, second, firstLength, secondLength,
    UInt64.ofNat_toNat, UInt64.ofNat_toNat, List.append_assoc, List.take_append_drop]
  rfl

theorem reads_decode? (words : List UInt64) : Reads words (decode? words) := by
  rcases Nat.lt_or_ge words.length headerLength with cut | complete
  · have silent : ∀ users owners, ¬ Announces words users owners := fun _ _ announces =>
      Nat.not_le_of_lt cut announces.length_le
    have nothing : decode? words = .ok none := by
      match words, cut with
      | [], _ | [_], _ | [_, _], _ | [_, _, _], _ | [_, _, _, _], _ => rfl
    rw [nothing]
    apply Reads.ragged
    · intro users owners announces
      exact absurd announces (silent users owners)
    · rintro ⟨users, owners, announces, _⟩
      exact silent users owners announces
  · rcases Announces.exists_of_length_le complete with ⟨users, owners, announces⟩
    rcases announces.exists_members with ⟨exclusive, shared, ghost, members, rfl⟩
    rw [decode?]
    split
    · next beyond =>
      apply Reads.beyond
      intro countable
      exact Nat.not_le_of_lt beyond (announces.countable_iff.1 countable)
    · next within =>
      have within : announced users owners ≤ maxWord := Nat.le_of_not_lt within
      have length : members.length = users.toNat + owners.toNat ↔
          (exclusive :: shared :: ghost :: users :: owners :: members).length =
            announced users owners := by
        simp only [List.length_cons, announced, headerLength]
        omega
      split
      · next whole =>
        refine .whole announces within (length.1 whole) ⟨?_, encode_eq_of_ascends whole⟩
        exact ascends_of_encode_eq announces (length.1 whole ▸ within)
      · next ragged =>
        exact .ragged (announces.countable_iff.2 within) (mt (length.2 ∘ announces.whole_iff.1) ragged)

theorem decode?_returns_iff : (∃ answer, decode? words = .ok answer) ↔ Countable words := by
  have reads := reads_decode? words
  generalize decode? words = outcome at reads ⊢
  cases reads with
  | beyond beyond => exact iff_of_false nofun beyond
  | ragged countable _ => exact iff_of_true ⟨none, rfl⟩ countable
  | whole announces within _ _ => exact iff_of_true ⟨_, rfl⟩ (announces.countable_iff.2 within)

theorem decode?_eq_ok_none_iff : decode? words = .ok none ↔ Countable words ∧ ¬ Whole words := by
  have reads := reads_decode? words
  generalize decode? words = outcome at reads ⊢
  cases reads with
  | beyond beyond => exact iff_of_false nofun fun both => beyond both.1
  | ragged countable ragged => exact iff_of_true rfl ⟨countable, ragged⟩
  | whole announces _ length _ =>
      exact iff_of_false nofun fun both => both.2 (announces.whole_iff.2 length)

/-- Words that are as many as they announce are read. -/
theorem decode?_of_whole (announces : Announces words users owners)
    (length : words.length = announced users owners) (short : words.length ≤ maxWord) :
    ∃ found, decode? words = .ok (some found) ∧ (found.encode = words ↔ Ascends words users) := by
  have reads := reads_decode? words
  generalize decode? words = outcome at reads ⊢
  cases reads with
  | beyond beyond => exact absurd (announces.countable_iff.2 (length ▸ short)) beyond
  | ragged _ ragged => exact absurd (announces.whole_iff.2 length) ragged
  | @whole _ _ found others _ _ rewritten =>
      rcases announces.unique others with ⟨rfl, rfl⟩
      exact ⟨found, rfl, rewritten⟩

theorem decode?_eq_ok_some_iff :
    (∃ found, decode? words = .ok (some found)) ↔ Whole words ∧ words.length ≤ maxWord := by
  constructor
  · rintro ⟨found, read⟩
    have reads := reads_decode? words
    rw [read] at reads
    cases reads with
    | whole announces within length _ => exact ⟨announces.whole_iff.2 length, length ▸ within⟩
  · rintro ⟨⟨users, owners, announces, length⟩, short⟩
    rcases decode?_of_whole announces length short with ⟨found, read, _⟩
    exact ⟨found, read⟩

theorem decode?_eq_error_iff {error : Error} :
    decode? words = .error error ↔ ¬ Countable words ∧ error = .defect .wordOverflow := by
  have reads := reads_decode? words
  generalize decode? words = outcome at reads ⊢
  cases reads with
  | beyond beyond => simp [beyond, eq_comm]
  | ragged countable _ => exact iff_of_false nofun fun both => both.1 countable
  | whole announces within _ _ =>
      exact iff_of_false nofun fun both => both.1 (announces.countable_iff.2 within)

/-! ## Main results -/

/-- Writing and reading undo each other, for as many words as memory can hold.  A summary is read back
from its words, and neither from fewer nor from more of them, so that no summary's words begin with
another's.  Words that are as many as they announce are read as a summary, whose words they are exactly
if the members of each rank set ascend. -/
theorem decode?_inverts_encode :
    (∀ summary : Summary, summary.encode.length ≤ maxWord →
      decode? summary.encode = .ok (some summary) ∧
      (∀ words, words <+: summary.encode → words ≠ summary.encode → decode? words = .ok none) ∧
      (∀ words, summary.encode <+: words → words ≠ summary.encode → decode? words = .ok none) ∧
      ∀ other : Summary, other.encode <+: summary.encode → other = summary) ∧
    ∀ words users owners, Announces words users owners →
      words.length = announced users owners → words.length ≤ maxWord →
      ∃ found, decode? words = .ok (some found) ∧ (found.encode = words ↔ Ascends words users) := by
  refine ⟨fun summary short => ⟨decode?_encode short, ?_, ?_, ?_⟩, ?_⟩
  · intro words front apart
    rw [decode?_eq_ok_none_iff]
    constructor
    · exact (countable_encode short).of_isPrefix front
    · intro whole
      exact apart (whole.eq_of_isPrefix (whole_encode short) front)
  · intro words begins apart
    rw [decode?_eq_ok_none_iff]
    constructor
    · rcases begins with ⟨rest, rfl⟩
      have announces := announces_encode summary
      exact (announces.append rest).countable_iff.2 (announces.countable_iff.1 (countable_encode short))
    · intro whole
      exact apart ((whole_encode short).eq_of_isPrefix whole begins).symm
  · intro other front
    have otherShort : other.encode.length ≤ maxWord := Nat.le_trans front.length_le short
    have same := (whole_encode otherShort).eq_of_isPrefix (whole_encode short) front
    have found := decode?_encode otherShort
    rw [same, decode?_encode short] at found
    exact (Option.some.inj (Except.ok.inj found)).symm
  · intro words users owners announces length short
    exact decode?_of_whole announces length short

/-- A summary with sharers and owners, its words less the last, and words that name a sharer twice. -/
theorem decode?_inverts_encode_repeatedSharer :
    let summary : Summary := ⟨1, 3, 5, .ofList [3, 1, 2], .singleton 2⟩
    let repeated : List UInt64 := [1, 3, 5, 2, 1, 7, 7, 2]
    decode? summary.encode = .ok (some summary) ∧
      decode? summary.encode.dropLast = .ok none ∧
      ∃ found, decode? repeated = .ok (some found) ∧ found.encode ≠ repeated := by
  intro summary repeated
  have short : summary.encode.length ≤ maxWord := by decide
  have announces : Announces repeated 2 1 := ⟨rfl, rfl⟩
  have disordered : ¬ Ascends repeated 2 := by
    rintro ⟨ascend, _⟩
    exact absurd ascend (by decide)
  obtain ⟨readBack, cut, -, -⟩ := decode?_inverts_encode.1 summary short
  obtain ⟨found, read, rewritten⟩ :=
    decode?_inverts_encode.2 repeated 2 1 announces (by decide) (by decide)
  refine ⟨readBack, cut _ (List.dropLast_prefix _) (by decide), found, read, ?_⟩
  exact mt rewritten.1 disordered

/-- How reading ends is decided by the announced length: it comes to an end exactly if a word can count
the announced words, and with a summary exactly if there are as many; else it stops where the sum of the
counts overflows, and nowhere else. -/
theorem decode?_ends_iff (words : List UInt64) :
    ((∃ answer, decode? words = .ok answer) ↔ Countable words) ∧
      ((∃ found, decode? words = .ok (some found)) ↔ Whole words ∧ words.length ≤ maxWord) ∧
      (decode? words = .ok none ↔ Countable words ∧ ¬ Whole words) ∧
      ∀ error, decode? words = .error error ↔
        ¬ Countable words ∧ error = .defect .wordOverflow :=
  ⟨decode?_returns_iff, decode?_eq_ok_some_iff, decode?_eq_ok_none_iff,
    fun _ => decode?_eq_error_iff⟩

/-- Five words that announce a huge number of sharers and one owner.  Counted in 64 bits the announced
length comes round to five, but these are not as many words as announced; and yet reading stops. -/
theorem decode?_stops_wrappingCounts :
    let words : List UInt64 := [0, 0, 0, 0xFFFFFFFFFFFFFFFF, 1]
    ¬ Whole words ∧ decode? words = .error (.defect .wordOverflow) := by
  intro words
  have announces : Announces words 0xFFFFFFFFFFFFFFFF 1 := ⟨rfl, rfl⟩
  constructor
  · rw [announces.whole_iff]
    decide
  · rfl

end Summary

end Subdomain
