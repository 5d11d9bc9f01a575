import Mathlib.Order.Monotone.Basic
import Subdomain.Memory
import Subdomain.Mesh.Blocks

/-!
# Blocks tile a range

The blocks of a range of ids follow one another without gaps: each begins where the one before it ends,
the first at 0 and the last up to the number of ids.  So every id below that number is in exactly one
block, whatever the remainder is, and also when some blocks are empty.  Where a block begins and ends is
computed without a number larger than the number of ids.
-/

namespace Subdomain

namespace Blocks

variable {blocks : Blocks} {rank number : Nat}

/-- Where the block of a rank begins, and where the block before it ends. -/
def boundary (blocks : Blocks) (rank : Nat) : Nat :=
  rank * (blocks.total / blocks.size) + min rank (blocks.total % blocks.size)

theorem boundary_zero (blocks : Blocks) : blocks.boundary 0 = 0 := by
  simp [boundary]

theorem boundary_size (blocks : Blocks) : blocks.boundary blocks.size = blocks.total := by
  have remainder : blocks.total % blocks.size < blocks.size := Nat.mod_lt _ blocks.size_pos
  rw [boundary, Nat.min_eq_right (Nat.le_of_lt remainder), Nat.div_add_mod]

theorem boundary_succ (blocks : Blocks) (rank : Nat) :
    blocks.boundary (rank + 1) = blocks.boundary rank + blocks.total / blocks.size +
      if rank < blocks.total % blocks.size then 1 else 0 := by
  simp only [boundary, Nat.succ_mul]
  split <;> omega

theorem boundary_mono (blocks : Blocks) : Monotone blocks.boundary := by
  apply monotone_nat_of_le_succ
  intro rank
  rw [boundary_succ, Nat.add_assoc]
  exact Nat.le_add_right _ _

theorem interval_eq (inside : rank < blocks.size) :
    blocks.interval rank = ⟨blocks.boundary rank, blocks.boundary (rank + 1)⟩ := by
  have within : blocks.boundary (rank + 1) ≤ blocks.total :=
    Nat.le_trans (blocks.boundary_mono inside) (Nat.le_of_eq blocks.boundary_size)
  have stop : blocks.boundary (rank + 1) = min (blocks.boundary rank + blocks.total / blocks.size +
      if rank < blocks.total % blocks.size then 1 else 0) blocks.total := by
    rw [← boundary_succ, Nat.min_eq_left within]
  rw [stop]
  rfl

theorem mem_interval_iff (inside : rank < blocks.size) :
    number ∈ blocks.interval rank ↔
      blocks.boundary rank ≤ number ∧ number < blocks.boundary (rank + 1) := by
  rw [interval_eq inside, Interval.mem_mk]

theorem lt_total_of_mem (member : number ∈ blocks.interval rank) : number < blocks.total :=
  Nat.lt_of_lt_of_le member.2 (Nat.min_le_right ..)

/-- What lies below a boundary lies between two that follow one another: by induction on the number of
the boundary. -/
theorem exists_between {boundary : Nat → Nat} (zero : boundary 0 = 0) {count number : Nat}
    (below : number < boundary count) :
    ∃ rank < count, boundary rank ≤ number ∧ number < boundary (rank + 1) := by
  induction count with
  | zero => omega
  | succ count ih =>
      by_cases earlier : number < boundary count
      · rcases ih earlier with ⟨rank, inside, between⟩
        exact ⟨rank, Nat.lt_succ_of_lt inside, between⟩
      · exact ⟨count, Nat.lt_succ_self count, Nat.le_of_not_lt earlier, below⟩

theorem exists_mem_interval (below : number < blocks.total) :
    ∃ rank < blocks.size, number ∈ blocks.interval rank := by
  rw [← boundary_size] at below
  rcases exists_between blocks.boundary_zero below with ⟨rank, inside, between⟩
  exact ⟨rank, inside, (mem_interval_iff inside).2 between⟩

/-- Blocks one after the other have all ids up to where the last of them ends: by induction on their
number. -/
theorem flatMap_toList_interval (blocks : Blocks) {count : Nat} (inside : count ≤ blocks.size) :
    (List.range count).flatMap (fun rank => (blocks.interval rank).toList) =
      List.range (blocks.boundary count) := by
  induction count with
  | zero => rw [boundary_zero, List.range_zero, List.flatMap_nil]
  | succ count ih =>
      have further : blocks.boundary count + (blocks.boundary (count + 1) - blocks.boundary count) =
          blocks.boundary (count + 1) := Nat.add_sub_cancel' (blocks.boundary_mono (Nat.le_succ count))
      have last : (blocks.interval count).toList = List.range' (0 + blocks.boundary count)
          (blocks.boundary (count + 1) - blocks.boundary count) := by
        rw [interval_eq inside, Nat.zero_add]
        rfl
      rw [List.range_succ, List.flatMap_append, ih (Nat.le_of_succ_le inside), List.flatMap_singleton,
        last, List.range_eq_range', List.range'_append_1, further, List.range_eq_range']

theorem eq_of_mem_interval {first second : Nat} (firstInside : first < blocks.size)
    (secondInside : second < blocks.size) (inFirst : number ∈ blocks.interval first)
    (inSecond : number ∈ blocks.interval second) : first = second := by
  rw [mem_interval_iff firstInside] at inFirst
  rw [mem_interval_iff secondInside] at inSecond
  -- A block that ends before the other begins cannot share a number with it.
  have inOrder : ∀ {earlier later}, earlier < later → blocks.boundary later ≤ number →
      ¬ number < blocks.boundary (earlier + 1) := fun before begun notEnded =>
    Nat.not_le_of_lt notEnded (Nat.le_trans (blocks.boundary_mono before) begun)
  rcases Nat.lt_trichotomy first second with before | same | after
  · exact absurd inFirst.2 (inOrder before inSecond.1)
  · exact same
  · exact absurd inSecond.2 (inOrder after inFirst.1)

/-- Past the last block intervals are empty: they begin at the number of ids or later. -/
theorem interval_past (outside : blocks.size ≤ rank) :
    (blocks.interval rank).stop ≤ (blocks.interval rank).start := by
  calc (blocks.interval rank).stop
    _ ≤ blocks.total := Nat.min_le_right ..
    _ = blocks.boundary blocks.size := blocks.boundary_size.symm
    _ ≤ blocks.boundary rank := blocks.boundary_mono outside

/-! ## Lengths -/

/-- How many ids there are in the block of a rank. -/
def length (blocks : Blocks) (rank : Nat) : Nat :=
  (blocks.interval rank).stop - (blocks.interval rank).start

theorem length_eq (inside : rank < blocks.size) :
    blocks.length rank =
      blocks.total / blocks.size + if rank < blocks.total % blocks.size then 1 else 0 := by
  rw [length, interval_eq inside, boundary_succ, Nat.add_assoc, Nat.add_sub_cancel_left]

/-- The blocks that take one id of the remainder come first. -/
theorem length_le_length {first second : Nat} (order : first ≤ second)
    (inside : second < blocks.size) :
    blocks.length second ≤ blocks.length first ∧ blocks.length first ≤ blocks.length second + 1 := by
  rw [length_eq inside, length_eq (Nat.lt_of_le_of_lt order inside)]
  constructor <;> split <;> split <;> omega

/-! ## Numbers on the way -/

/-- A number, unless it exceeds a limit. -/
def within? (limit number : Nat) : Option Nat := if number ≤ limit then some number else none

theorem within?_eq_some {limit number : Nat} (within : number ≤ limit) :
    within? limit number = some number := if_pos within

/-- The ids of a block, found in steps that give up at a number that exceeds a limit. -/
def intervalWithin? (blocks : Blocks) (limit rank : Nat) : Option Interval := do
  let share := blocks.total / blocks.size
  let remainder := blocks.total % blocks.size
  let product ← within? limit (rank * share)
  let start ← within? limit (product + min rank remainder)
  let length ← within? limit (share + if rank < remainder then 1 else 0)
  let stop ← within? limit (start + length)
  return ⟨start, min stop blocks.total⟩

/-- The largest number on the way is where the next block begins. -/
theorem intervalWithin?_eq {limit : Nat} (within : blocks.boundary (rank + 1) ≤ limit) :
    blocks.intervalWithin? limit rank = some (blocks.interval rank) := by
  rw [boundary_succ, Nat.add_assoc] at within
  have start : blocks.boundary rank ≤ limit := Nat.le_trans (Nat.le_add_right _ _) within
  have product : rank * (blocks.total / blocks.size) ≤ limit :=
    Nat.le_trans (Nat.le_add_right _ _) start
  have length := Nat.le_trans (Nat.le_add_left _ _) within
  rw [boundary] at start within
  simp only [intervalWithin?, within?_eq_some product, within?_eq_some start,
    within?_eq_some length, within?_eq_some within, Option.bind_eq_bind, Option.bind_some]
  simp only [interval, Nat.add_assoc]
  rfl

/-- Past the last block the remainder has been taken. -/
theorem boundary_succ_past (outside : blocks.size ≤ rank) :
    blocks.boundary (rank + 1) = rank * (blocks.total / blocks.size) +
      blocks.total % blocks.size + blocks.total / blocks.size := by
  have remainder : blocks.total % blocks.size < blocks.size := Nat.mod_lt _ blocks.size_pos
  have taken : blocks.total % blocks.size ≤ rank := Nat.le_trans (Nat.le_of_lt remainder) outside
  rw [boundary_succ, boundary, Nat.min_eq_right taken, if_neg (Nat.not_lt_of_le taken), Nat.add_zero]

/-! ## Owners and offsets -/

theorem owner?_eq_some_iff {id : Nat} :
    blocks.owner? id = some rank ↔ rank < blocks.size ∧ id ∈ blocks.interval rank := by
  rw [owner?, List.find?_range_eq_some, decide_eq_true_eq, List.mem_range]
  constructor
  · rintro ⟨member, inside, _⟩
    exact ⟨inside, member⟩
  · rintro ⟨inside, member⟩
    refine ⟨member, inside, ?_⟩
    intro earlier before
    rw [Bool.not_eq_true', decide_eq_false_iff_not]
    intro twice
    have same := eq_of_mem_interval (Nat.lt_trans before inside) inside twice member
    exact Nat.ne_of_lt before same

theorem owner?_eq_none_iff {id : Nat} : blocks.owner? id = none ↔ blocks.total ≤ id := by
  constructor
  · intro nobody
    apply Nat.le_of_not_lt
    intro below
    rcases exists_mem_interval below with ⟨rank, inside, member⟩
    rw [owner?_eq_some_iff.2 ⟨inside, member⟩] at nobody
    cases nobody
  · intro outside
    cases found : blocks.owner? id with
    | none => rfl
    | some rank =>
        have member := (owner?_eq_some_iff.1 found).2
        exact absurd (lt_total_of_mem member) (Nat.not_lt_of_le outside)

theorem offsets_eq (blocks : Blocks) :
    blocks.offsets = (List.range (blocks.size + 1)).map blocks.boundary := by
  rw [offsets, List.range_succ, List.map_append, List.map_singleton, boundary_size]
  rfl

theorem pairwise_offsets (blocks : Blocks) : blocks.offsets.Pairwise (· ≤ ·) := by
  rw [offsets_eq, List.pairwise_map]
  exact List.pairwise_lt_range.imp fun before => blocks.boundary_mono (Nat.le_of_lt before)

/-! ## Main result -/

/-- Blocks that lie end to end, in even lengths. -/
structure Tiles (blocks : Blocks) : Prop where
  /-- The first block begins at 0, -/
  start_first : (blocks.interval 0).start = 0
  /-- each further one where the one before it ends, -/
  start_next : ∀ rank, rank + 1 < blocks.size →
    (blocks.interval (rank + 1)).start = (blocks.interval rank).stop
  /-- and the last ends at the number of ids. -/
  stop_last : (blocks.interval (blocks.size - 1)).stop = blocks.total
  forward : ∀ rank < blocks.size, (blocks.interval rank).start ≤ (blocks.interval rank).stop
  disjoint : ∀ first < blocks.size, ∀ second < blocks.size, ∀ id,
    id ∈ blocks.interval first → id ∈ blocks.interval second → first = second
  covers : ∀ id, id < blocks.total ↔ ∃ rank < blocks.size, id ∈ blocks.interval rank
  /-- No block is longer than an earlier one, or shorter by more than one id. -/
  even : ∀ first second, first ≤ second → second < blocks.size →
    blocks.length second ≤ blocks.length first ∧ blocks.length first ≤ blocks.length second + 1

theorem tiles (blocks : Blocks) : blocks.Tiles where
  start_first := blocks.boundary_zero
  start_next rank inside := by
    rw [interval_eq inside, interval_eq (Nat.lt_of_succ_lt inside)]
  stop_last := by
    have last : blocks.size - 1 < blocks.size := Nat.sub_one_lt_of_lt blocks.size_pos
    have next : blocks.size - 1 + 1 = blocks.size := Nat.sub_add_cancel blocks.size_pos
    rw [interval_eq last, next, boundary_size]
  forward rank inside := by
    rw [interval_eq inside]
    exact blocks.boundary_mono (Nat.le_succ rank)
  disjoint _ firstInside _ secondInside _ := eq_of_mem_interval firstInside secondInside
  covers id := by
    constructor
    · exact exists_mem_interval
    · rintro ⟨rank, _, member⟩
      exact lt_total_of_mem member
  even _ _ := length_le_length

/-- A split of a range tiles it, whatever the numbers of ids and of blocks are; no blocks count as one.
No number on the way to a block exceeds the number of ids, intervals past the last block are empty, also
as far as they can be found in words, the owner of an id is the one rank whose block has it, and the
offsets are where the blocks begin. -/
theorem split_tiles (total count : Nat) :
    let blocks := split total count
    blocks.total = total ∧ blocks.size = max count 1 ∧ blocks.Tiles ∧
      (∀ rank < blocks.size,
        blocks.intervalWithin? total rank = some (blocks.interval rank)) ∧
      (∀ rank, blocks.size ≤ rank →
        (blocks.interval rank).stop ≤ (blocks.interval rank).start ∧
        (rank * (total / blocks.size) + total % blocks.size + total / blocks.size ≤ maxWord →
          blocks.intervalWithin? maxWord rank = some (blocks.interval rank))) ∧
      (∀ id rank, blocks.owner? id = some rank ↔
        rank < blocks.size ∧ id ∈ blocks.interval rank ∧
          ∀ other < blocks.size, id ∈ blocks.interval other → other = rank) ∧
      (∀ id, blocks.owner? id = none ↔ total ≤ id) ∧
      blocks.offsets =
        (List.range blocks.size).map (fun rank => (blocks.interval rank).start) ++ [total] ∧
      blocks.offsets.Pairwise (· ≤ ·) := by
  intro blocks
  refine ⟨rfl, rfl, blocks.tiles, ?_, fun rank outside => ⟨interval_past outside, ?_⟩, ?_,
    fun id => owner?_eq_none_iff, rfl, blocks.pairwise_offsets⟩
  · intro rank inside
    apply intervalWithin?_eq
    exact Nat.le_trans (blocks.boundary_mono inside) (Nat.le_of_eq blocks.boundary_size)
  · intro within
    apply intervalWithin?_eq
    rw [boundary_succ_past outside]
    exact within
  · intro id rank
    rw [owner?_eq_some_iff]
    constructor
    · rintro ⟨inside, member⟩
      refine ⟨inside, member, ?_⟩
      intro other otherInside otherMember
      exact eq_of_mem_interval otherInside inside otherMember member
    · rintro ⟨inside, member, _⟩
      exact ⟨inside, member⟩

/-- Three ids in five blocks, of which the last two are empty, as is the interval past them. -/
theorem split_tiles_moreBlocks :
    let blocks := split 3 5
    blocks.intervalWithin? 3 4 = some ⟨3, 3⟩ ∧ blocks.owner? 2 = some 2 ∧
      blocks.owner? 3 = none ∧ blocks.intervalWithin? maxWord 7 = some ⟨3, 3⟩ := by
  obtain ⟨-, -, -, computed, past, owners, nobody, -, -⟩ := split_tiles 3 5
  have tiles := (split 3 5).tiles
  refine ⟨computed 4 (by decide), (owners 2 2).2 ?_, (nobody 3).2 (by decide), ?_⟩
  · refine ⟨by decide, by decide, ?_⟩
    intro other inside member
    exact tiles.disjoint other inside 2 (by decide) 2 member (by decide)
  · exact (past 7 (by decide)).2 (by decide)

end Blocks

namespace GraphBlock

variable {adjacency : Adjacency} {blocks : Blocks} {rank : Rank} {thruDim : Nat}

theorem getElem?_offsets {position : Nat} (inside : position ≤ blocks.size) :
    blocks.offsets[position]? = some (blocks.boundary position) := by
  rw [Blocks.offsets_eq, List.getElem?_map, List.getElem?_range (Nat.lt_succ_of_le inside)]
  rfl

/-- The ids of a rank's block, read off the starts of the blocks. -/
theorem localIds_ofAdjacency (inside : rank.toNat < blocks.size) :
    (ofAdjacency adjacency blocks rank thruDim).localIds = .ok (blocks.interval rank.toNat) := by
  have start : (ofAdjacency adjacency blocks rank thruDim).blockStarts[rank.toNat]? =
      some (blocks.boundary rank.toNat) := getElem?_offsets (Nat.le_of_lt inside)
  have stop : (ofAdjacency adjacency blocks rank thruDim).blockStarts[rank.toNat + 1]? =
      some (blocks.boundary (rank.toNat + 1)) := getElem?_offsets inside
  have here : (ofAdjacency adjacency blocks rank thruDim).rank = rank := rfl
  rw [localIds, here, start, stop, Blocks.interval_eq inside]

end GraphBlock

end Subdomain
