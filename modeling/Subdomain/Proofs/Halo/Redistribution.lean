import Subdomain.Halo.Partition
import Subdomain.Mesh.VertexMesh
import Subdomain.Proofs.Halo.Gather
import Subdomain.Proofs.Mesh.Blocks
import Subdomain.Proofs.Message.Failure
import Subdomain.Proofs.Outcome

/-!
# Redistribution loses no cell

Every rank ships the cells that it assigns, and each arrives at its rank, also from a rank that fails
because it assigned some cell to a rank outside the group.  When the ranks assign the cells of their
blocks by a table, each ends up with exactly the cells that the table gives it.
-/

namespace Subdomain

open Exchange Subdomain.Group

namespace Assignment

variable {size : Rank} {assignment : Seat → Assignment} {seat : Seat} {cell : EntityId} {rank : Rank}

/-- Memory holds each rank's assignment, at 16 bytes for each cell. -/
def Held (size : Rank) (assignment : Seat → Assignment) : Prop :=
  ∀ seat : Seat, seat.size = size → (assignment seat).size * 16 ≤ maxAllocationBytes

/-- How a redistribution ends on a rank. -/
inductive Redistributes (size : Rank) (assignment : Seat → Assignment) (seat : Seat) :
    Except Error IdSet → Prop where
  /-- The rank has assigned its cells to ranks of the group, and gets what all ranks assign to it. -/
  | arrived {cells : IdSet}
      (placed : ∀ cell rank, (assignment seat).get? cell = some rank → rank < size)
      (arrived : ∀ cell, cell ∈ cells ↔
        ∃ sender : Seat, sender.size = size ∧ (assignment sender).get? cell = some seat.rank) :
      Redistributes size assignment seat (.ok cells)
  /-- The rank has assigned some cell to a rank outside the group, and names the smallest such cell. -/
  | misplaced {cell : EntityId} {rank : Rank}
      (assigned : (assignment seat).get? cell = some rank) (outside : size ≤ rank)
      (smallest : ∀ smaller other, smaller < cell →
        (assignment seat).get? smaller = some other → other < size) :
      Redistributes size assignment seat
        (.error (.invalidConfig s!"cell {cell} assigned to a rank outside 0..{size}"))

/-! ## What is shipped -/

theorem mem_cellsOf {assignment : Assignment} :
    cell ∈ cellsOf assignment rank ↔ assignment.get? cell = some rank := by
  rw [cellsOf, List.mem_map, SortedMap.get?_eq_some_iff]
  constructor
  · rintro ⟨⟨_, _⟩, kept, rfl⟩
    rcases List.mem_filter.1 kept with ⟨listed, same⟩
    exact eq_of_beq same ▸ listed
  · intro listed
    exact ⟨(cell, rank), List.mem_filter.2 ⟨listed, beq_self_eq_true rank⟩, rfl⟩

theorem Held.fits_cellsOf (held : Held size assignment) (inGroup : seat.size = size) (rank : Rank) :
    fits (cellsOf (assignment seat) rank) = true := by
  have shorter : (cellsOf (assignment seat) rank).length ≤ (assignment seat).size := by
    rw [cellsOf, List.length_map]
    exact List.length_filter_le _ _
  exact fits_of_length_le shorter (by decide) (held seat inGroup) (by decide)

/-- The first cell that is assigned to a rank outside a group. -/
def misplaced? (size : Rank) (assignment : Assignment) : Option EntityId :=
  (assignment.toList.find? fun entry => decide (size ≤ entry.2)).map Prod.fst

/-- What a rank makes of the cells that it gets. -/
def accept (size : Rank) (assignment : Assignment) (received : List (List EntityId)) :
    Except Error IdSet :=
  match misplaced? size assignment with
  | some cell => .error (.invalidConfig s!"cell {cell} assigned to a rank outside 0..{size}")
  | none => .ok (.ofList received.flatten)

theorem redistribute_eq (seat : Seat) (assignment : Assignment) :
    redistribute seat assignment =
      allToAll seat (seat.ranks.map (cellsOf assignment)) Tags.redistribution >>= fun received =>
        Collective.ofExcept (accept seat.size assignment received) := by
  rw [redistribute]
  apply bind_congr
  intro received
  rw [accept, misplaced?]
  cases assignment.toList.find? fun entry => decide (seat.size ≤ entry.2) <;> rfl

/-- What all ranks ship to one. -/
def shipped (size : Rank) (assignment : Seat → Assignment) (seat : Seat) : List (List EntityId) :=
  (Seat.all size).map fun sender => cellsOf (assignment sender) seat.rank

theorem settles_redistribute (held : Held size assignment) :
    Settles size (fun seat => (redistribute seat (assignment seat)).run)
      (fun seat => accept size (assignment seat) (shipped size assignment seat)) := by
  have buffers : ∀ seat : Seat, seat.size = size →
      seat.ranks.map (cellsOf (assignment seat)) =
        (Seat.all size).map fun receiver => cellsOf (assignment seat) receiver.rank :=
    fun seat inGroup => Seat.map_ranks inGroup (cellsOf (assignment seat))
  have ready : ∀ seat : Seat, seat.size = size →
      Ready size (seat.ranks.map (cellsOf (assignment seat))) := by
    intro seat inGroup
    rw [buffers seat inGroup]
    exact ready_map_all.2 fun receiver _ => held.fits_cellsOf inGroup receiver.rank
  have arrived : ∀ seat : Seat, seat.size = size →
      received size (fun sender => sender.ranks.map (cellsOf (assignment sender))) seat =
        shipped size assignment seat := by
    intro seat inGroup
    rw [shipped, ← received_map_all inGroup fun sender receiver =>
      cellsOf (assignment sender) receiver.rank]
    apply List.map_congr_left
    intro sender member
    dsimp only
    rw [buffers sender (Seat.mem_all.1 member)]
  simp only [redistribute_eq]
  apply (settles_allToAll ready).andThen
  apply (settles_done _).congr fun _ _ => rfl
  intro seat inGroup
  rw [arrived seat inGroup, inGroup]

/-- The entries before the first with a misplaced cell have smaller cells, and all smaller cells are
among them. -/
theorem placed_below {assignment : Assignment} (found : misplaced? size assignment = some cell) :
    (∃ rank, assignment.get? cell = some rank ∧ size ≤ rank) ∧
      ∀ smaller other, smaller < cell → assignment.get? smaller = some other → other < size := by
  rcases Option.map_eq_some_iff.1 found with ⟨⟨_, rank⟩, located, rfl⟩
  rcases List.find?_eq_some_iff_append.1 located with ⟨outside, front, back, split, before⟩
  constructor
  · exact ⟨rank, SortedMap.get?_eq_some_iff.2 (List.mem_of_find?_eq_some located),
      of_decide_eq_true outside⟩
  · intro smaller other less assigned
    have ascending := assignment.ascending
    rw [split, List.pairwise_append] at ascending
    have listed := SortedMap.get?_eq_some_iff.1 assigned
    rw [split] at listed
    rcases List.mem_append.1 listed with inFront | inBack
    · simpa [UInt64.not_le] using before _ inFront
    · cases List.mem_cons.1 inBack with
      | inl same =>
          cases same
          exact absurd less (UInt64.lt_irrefl _)
      | inr later =>
          have greater := (List.pairwise_cons.1 ascending.2.1).1 _ later
          exact absurd less (UInt64.lt_asymm (Std.compare_eq_lt.1 greater))

theorem redistributes_accept (size : Rank) (assignment : Seat → Assignment) (seat : Seat) :
    Redistributes size assignment seat
      (accept size (assignment seat) (shipped size assignment seat)) := by
  rw [accept]
  cases found : misplaced? size (assignment seat) with
  | some cell =>
      rcases placed_below found with ⟨⟨rank, assigned, outside⟩, smallest⟩
      exact .misplaced assigned outside smallest
  | none =>
      apply Redistributes.arrived
      · intro cell rank assigned
        have nowhere := List.find?_eq_none.1 (Option.map_eq_none_iff.1 found) (cell, rank)
          (SortedMap.get?_eq_some_iff.1 assigned)
        simpa [UInt64.not_le] using nowhere
      · intro cell
        simp only [SortedSet.mem_ofList, shipped, List.mem_flatten, List.mem_map, Seat.mem_all]
        constructor
        · rintro ⟨_, ⟨sender, senderInGroup, rfl⟩, listed⟩
          exact ⟨sender, senderInGroup, mem_cellsOf.1 listed⟩
        · rintro ⟨sender, senderInGroup, assigned⟩
          exact ⟨_, ⟨sender, senderInGroup, rfl⟩, mem_cellsOf.2 assigned⟩

/-! ## Tables -/

/-- A table gives every cell below a number a rank of the group. -/
def Covers (size : Rank) (total : UInt64) (table : Assignment) : Prop :=
  ∀ cell < total, ∃ rank < size, table.get? cell = some rank

/-- Assign the cells of this rank's block by a table, and ship them to their ranks. -/
def distribute (seat : Seat) (adjacency : Adjacency) (total : UInt64) (thruDim : Nat)
    (table : Assignment) : Collective IdSet := do
  let blocks : Blocks := .split total.toNat seat.size.toNat
  let block : GraphBlock := .ofAdjacency adjacency blocks seat.rank thruDim
  let assignment ← Collective.ofExcept (ofTable seat block table)
  redistribute seat assignment

/-- The entries of a table at the numbers of an interval. -/
def part (table : Assignment) (numbers : Interval) : Assignment :=
  .ofList (numbers.toList.map fun number =>
    (.ofNat number, (table.get? (.ofNat number)).getD 0))

variable {total : UInt64} {table : Assignment} {numbers : Interval}

theorem toNat_ofNat_of_lt {number : Nat} (below : number < total.toNat) :
    (UInt64.ofNat number).toNat = number :=
  UInt64.toNat_ofNat_of_lt' (Nat.lt_trans below total.toNat_lt)

theorem Covers.get?_ofNat (covers : Covers size total table) {number : Nat}
    (below : number < total.toNat) : ∃ rank < size, table.get? (.ofNat number) = some rank := by
  apply covers
  rw [UInt64.lt_iff_toNat_lt, toNat_ofNat_of_lt below]
  exact below

theorem Covers.get?_part (covers : Covers size total table)
    (within : ∀ number ∈ numbers, number < total.toNat) :
    (part table numbers).get? cell = some rank ↔
      cell.toNat ∈ numbers ∧ table.get? cell = some rank := by
  have distinct : ((numbers.toList.map fun number =>
      (UInt64.ofNat number, (table.get? (.ofNat number)).getD 0)).map Prod.fst).Nodup := by
    rw [List.map_map]
    apply List.Nodup.map_on _ List.nodup_range'
    intro first firstInside second secondInside same
    have firstBelow := within first (Interval.mem_toList.1 firstInside)
    have secondBelow := within second (Interval.mem_toList.1 secondInside)
    rw [← toNat_ofNat_of_lt firstBelow, ← toNat_ofNat_of_lt secondBelow]
    exact congrArg UInt64.toNat same
  rw [part, SortedMap.get?_ofList_eq_some_iff distinct, List.mem_map]
  constructor
  · rintro ⟨number, member, same⟩
    cases same
    have inside := Interval.mem_toList.1 member
    rcases covers.get?_ofNat (within number inside) with ⟨rank, _, found⟩
    rw [toNat_ofNat_of_lt (within number inside), found]
    exact ⟨inside, rfl⟩
  · rintro ⟨inside, found⟩
    refine ⟨cell.toNat, Interval.mem_toList.2 inside, ?_⟩
    rw [UInt64.ofNat_toNat, found]
    rfl

theorem Covers.size_part_le (covers : Covers size total table)
    (within : ∀ number ∈ numbers, number < total.toNat) : (part table numbers).size ≤ table.size := by
  rw [← SortedMap.size_keys, ← SortedMap.size_keys]
  apply SortedSet.size_le_size
  intro cell member
  rcases Option.ne_none_iff_exists'.1 (SortedMap.mem_keys_iff.1 member) with ⟨rank, found⟩
  apply SortedMap.mem_keys_iff.2
  rw [((covers.get?_part within).1 found).2]
  exact Option.some_ne_none rank

/-- A table that gives every cell of a block a rank of the group assigns the block. -/
theorem Covers.ofTable_eq (covers : Covers size total table) (inGroup : seat.size = size)
    {block : GraphBlock} (cells : block.localIds = .ok numbers)
    (within : ∀ number ∈ numbers, number < total.toNat) :
    ofTable seat block table = .ok (part table numbers) := by
  apply bind_eq_ok.2
  refine ⟨numbers, cells, bind_eq_ok.2 ⟨_, mapM_eq_ok_map ?_, rfl⟩⟩
  intro number member
  rcases covers.get?_ofNat (within number (Interval.mem_toList.1 member)) with ⟨rank, inside, found⟩
  simp only [found, inGroup, if_pos inside]
  rfl

/-- The part of a table that a rank's block covers. -/
def blockOf (size : Rank) (total : UInt64) (table : Assignment) (seat : Seat) : Assignment :=
  part table ((Blocks.split total.toNat size.toNat).interval seat.rank.toNat)

theorem size_split (seat : Seat) (total : Nat) :
    (Blocks.split total seat.size.toNat).size = seat.size.toNat := by
  have occupied : 0 < seat.size.toNat := Nat.zero_lt_of_lt seat.toNat_lt
  exact Nat.max_eq_left occupied

theorem Covers.distribute_eq (covers : Covers size total table) (adjacency : Adjacency)
    (thruDim : Nat) (inGroup : seat.size = size) :
    distribute seat adjacency total thruDim table =
      redistribute seat (blockOf size total table seat) := by
  subst inGroup
  have cells := @GraphBlock.localIds_ofAdjacency adjacency (.split total.toNat seat.size.toNat)
    seat.rank thruDim ((size_split seat total.toNat).symm ▸ seat.toNat_lt)
  rw [distribute, covers.ofTable_eq rfl cells fun _ member => Blocks.lt_total_of_mem member]
  rfl

/-- Every cell below the number is in the block of some rank. -/
theorem Covers.exists_blockOf (covers : Covers size total table) (seat : Seat)
    (inGroup : seat.size = size) :
    (∃ holder : Seat, holder.size = size ∧ (blockOf size total table holder).get? cell = some rank) ↔
      cell < total ∧ table.get? cell = some rank := by
  subst inGroup
  have entries : ∀ holder : Seat, (blockOf seat.size total table holder).get? cell = some rank ↔
      cell.toNat ∈ (Blocks.split total.toNat seat.size.toNat).interval holder.rank.toNat ∧
        table.get? cell = some rank :=
    fun holder => covers.get?_part fun _ member => Blocks.lt_total_of_mem member
  simp only [entries]
  constructor
  · rintro ⟨holder, holderInGroup, inside, found⟩
    exact ⟨UInt64.lt_iff_toNat_lt.2 (Blocks.lt_total_of_mem inside), found⟩
  · rintro ⟨below, found⟩
    have bound : cell.toNat < (Blocks.split total.toNat seat.size.toNat).total :=
      UInt64.lt_iff_toNat_lt.1 below
    rcases Blocks.exists_mem_interval bound with ⟨number, inside, member⟩
    rw [size_split] at inside
    rcases Seat.exists_getElem?_all inside with ⟨holder, _, same, holderInGroup⟩
    exact ⟨holder, holderInGroup, same ▸ member, found⟩

/-- The cells that a rank gets if all assign their blocks by a table. -/
def cellsFor (size : Rank) (total : UInt64) (table : Assignment) (seat : Seat) : IdSet :=
  .ofList (shipped size (blockOf size total table) seat).flatten

theorem Covers.redistributes_blockOf (covers : Covers size total table) (inGroup : seat.size = size) :
    accept size (blockOf size total table seat) (shipped size (blockOf size total table) seat) =
        .ok (cellsFor size total table seat) ∧
      ∀ cell, cell ∈ cellsFor size total table seat ↔
        cell < total ∧ table.get? cell = some seat.rank := by
  have placed : ∀ cell rank, (blockOf size total table seat).get? cell = some rank → rank < size := by
    intro cell rank assigned
    rcases (covers.exists_blockOf seat inGroup).1 ⟨seat, inGroup, assigned⟩ with ⟨below, found⟩
    rcases covers cell below with ⟨_, inside, same⟩
    cases found.symm.trans same
    exact inside
  have accepted : accept size (blockOf size total table seat)
      (shipped size (blockOf size total table) seat) = .ok (cellsFor size total table seat) := by
    rw [accept]
    cases found : misplaced? size (blockOf size total table seat) with
    | none => rfl
    | some cell =>
        rcases (placed_below found).1 with ⟨rank, assigned, outside⟩
        exact absurd (placed cell rank assigned) (UInt64.not_lt.2 outside)
  have ends := redistributes_accept size (blockOf size total table) seat
  rw [accepted] at ends
  cases ends with
  | arrived _ arrived =>
      refine ⟨accepted, fun cell => ?_⟩
      rw [arrived, covers.exists_blockOf seat inGroup]

theorem Covers.settles_distribute (covers : Covers size total table)
    (held : table.size * 16 ≤ maxAllocationBytes) (adjacency : Seat → Adjacency) (thruDim : Nat) :
    Settles size (fun seat => (distribute seat (adjacency seat) total thruDim table).run)
      (fun seat => .ok (cellsFor size total table seat)) := by
  have blocksHeld : Held size (blockOf size total table) := by
    intro seat inGroup
    have shorter : (blockOf size total table seat).size ≤ table.size :=
      covers.size_part_le fun _ member => Blocks.lt_total_of_mem member
    exact Nat.le_trans (Nat.mul_le_mul_right 16 shorter) held
  apply (settles_redistribute blocksHeld).congr
  · intro seat inGroup
    rw [covers.distribute_eq (adjacency seat) thruDim inGroup]
  · intro seat inGroup
    exact (covers.redistributes_blockOf inGroup).1.symm

/-- Under every schedule, every rank's part in a redistribution comes to an end: with the cells that any
ranks assign to it, or with the smallest of its own cells that it assigned to no rank of the group.  In
particular, ranks that assign the blocks of a range by a table end up with the cells that the table
gives each, which are all cells of the range, each on one rank. -/
theorem redistribute_exact (size : Rank) :
    (∀ assignment : Seat → Assignment, Held size assignment →
      Ensures size (fun seat => redistribute seat (assignment seat)) (Redistributes size assignment)) ∧
    ∀ (total : UInt64) (table : Assignment) (adjacency : Seat → Adjacency) (thruDim : Nat),
      Covers size total table → table.size * 16 ≤ maxAllocationBytes →
      ∃ cells : Seat → IdSet,
        Ensures size (fun seat => distribute seat (adjacency seat) total thruDim table)
          (fun seat outcome => outcome = .ok (cells seat)) ∧
        (∀ seat : Seat, seat.size = size → ∀ cell,
          cell ∈ cells seat ↔ cell < total ∧ table.get? cell = some seat.rank) ∧
        ∀ cell < total, ∃! seat : Seat, seat.size = size ∧ cell ∈ cells seat := by
  constructor
  · intro assignment held
    exact (settles_redistribute held).ensures fun seat _ => redistributes_accept size assignment seat
  · intro total table adjacency thruDim covers held
    have given : ∀ seat : Seat, seat.size = size → ∀ cell, cell ∈ cellsFor size total table seat ↔
        cell < total ∧ table.get? cell = some seat.rank :=
      fun seat inGroup => (covers.redistributes_blockOf inGroup).2
    refine ⟨cellsFor size total table, ?_, given, ?_⟩
    · exact (covers.settles_distribute held adjacency thruDim).ensures fun _ _ => rfl
    · intro cell below
      rcases covers cell below with ⟨rank, inside, found⟩
      refine ⟨⟨rank, size, inside⟩, ⟨rfl, (given _ rfl cell).2 ⟨below, found⟩⟩, ?_⟩
      rintro other ⟨inGroup, member⟩
      have same := ((given other inGroup cell).1 member).2
      rw [found] at same
      exact Seat.eq_of_rank inGroup (Option.some.inj same).symm

/-- The first of three ranks assigns one cell to the third and two to ranks that do not exist, the
second one cell to each of the others, the third none. -/
def strayAssignment (seat : Seat) : Assignment :=
  if seat.rank = 0 then .ofList [(1, 2), (4, 9), (7, 3)]
  else if seat.rank = 1 then .ofList [(2, 0), (3, 2)] else ∅

/-- Five cells for the first and the third of three ranks. -/
def fiveCells : Assignment := .ofList [(0, 2), (1, 2), (2, 0), (3, 2), (4, 0)]

/-- The first rank names the smaller of its stray cells, and the third gets its other cell all the same.
A table for five cells is split in blocks of two, two and one, and leaves the second rank without. -/
theorem redistribute_exact_strayAssignment :
    let first : Seat := ⟨0, 3, by decide⟩
    let second : Seat := ⟨1, 3, by decide⟩
    let third : Seat := ⟨2, 3, by decide⟩
    Redistributes 3 strayAssignment first
        (.error (.invalidConfig "cell 4 assigned to a rank outside 0..3")) ∧
      Redistributes 3 strayAssignment second (.ok ∅) ∧
      Redistributes 3 strayAssignment third (.ok (.ofList [1, 3])) ∧
      Covers 3 5 fiveCells ∧
      ∃ cells : Seat → IdSet,
        Ensures 3 (fun seat => distribute seat (VertexMesh.grid 5 1).adjacency 5 0 fiveCells)
          (fun seat outcome => outcome = .ok (cells seat)) ∧
        cells first = .ofList [2, 4] ∧ cells second = ∅ ∧ cells third = .ofList [0, 1, 3] := by
  intro first second third
  have held : Held 3 strayAssignment := by
    have listed : ∀ seat ∈ Seat.all 3, (strayAssignment seat).size * 16 ≤ maxAllocationBytes := by
      decide +kernel
    intro seat inGroup
    exact listed seat (Seat.mem_all.2 inGroup)
  have covers : Covers 3 5 fiveCells := by
    have listed : ∀ number < 5, (fiveCells.get? (.ofNat number)).any (· < 3) = true := by
      decide +kernel
    intro cell below
    have found := listed cell.toNat (UInt64.lt_iff_toNat_lt.1 below)
    rw [UInt64.ofNat_toNat, Option.any_eq_true] at found
    rcases found with ⟨rank, found, inside⟩
    exact ⟨rank, of_decide_eq_true inside, found⟩
  rcases redistribute_exact 3 with ⟨delivers, distributes⟩
  let call (seat : Seat) := (redistribute seat (strayAssignment seat)).run
  have ends := (delivers strayAssignment held (runFor 60 (ofCall 3 call)) (reaches_runFor 60 _)).2.2
  rcases distributes 5 fiveCells (fun _ => (VertexMesh.grid 5 1).adjacency) 0 covers (by decide) with
    ⟨cells, ensures, _⟩
  let run (seat : Seat) := (distribute seat (VertexMesh.grid 5 1).adjacency 5 0 fiveCells).run
  have given := (ensures (runFor 60 (ofCall 3 run)) (reaches_runFor 60 _)).2.2
  refine ⟨ends first rfl _ ?_, ends second rfl _ ?_, ends third rfl _ ?_, covers, cells, ensures, ?_⟩
  · apply getElem?_values_eq_some_iff.1
    decide +kernel
  · apply getElem?_values_eq_some_iff.1
    decide +kernel
  · apply getElem?_values_eq_some_iff.1
    decide +kernel
  · refine ⟨Except.ok.inj (given first rfl _ ?_).symm, Except.ok.inj (given second rfl _ ?_).symm,
      Except.ok.inj (given third rfl _ ?_).symm⟩
    all_goals
      apply getElem?_values_eq_some_iff.1
      decide +kernel

end Assignment

end Subdomain
