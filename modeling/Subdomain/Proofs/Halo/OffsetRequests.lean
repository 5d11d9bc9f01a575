import Subdomain.Proofs.Halo.Refusal
import Subdomain.Proofs.Message.Failure

/-!
# Requests for offsets come to an end everywhere

A rank may request ids from a rank that does not own them.  The ranks exchange requests and answers all
the same, and only then does the owner refuse the first request that it could not answer, and the
requesting rank the first id that it got no answer for.  Nobody else notices.
-/

namespace Subdomain

namespace Seat

/-- The places of a group stand in the order of their ranks. -/
theorem pairwise_all (size : Rank) : (all size).Pairwise fun first second => first.rank < second.rank := by
  apply List.pairwise_map.1
  rw [map_rank_all, ranksBelow, List.pairwise_map]
  apply List.pairwise_lt_range.imp_of_mem
  intro first second _ inside less
  have small : second < UInt64.size := Nat.lt_trans (List.mem_range.1 inside) size.toNat_lt
  rw [UInt64.lt_iff_toNat_lt, UInt64.toNat_ofNat_of_lt' (Nat.lt_trans less small),
    UInt64.toNat_ofNat_of_lt' small]
  exact less

end Seat

/-- A computation on each of some values fails with the error of the first value that has one. -/
theorem mapM_firstError {ε α β : Type} {step : α → Except ε β} {image : α → β} (error? : α → Option ε)
    (fails : ∀ value error, error? value = some error → step value = .error error)
    (succeeds : ∀ value, error? value = none → step value = .ok (image value)) (values : List α) :
    values.mapM step =
      match values.findSome? error? with
      | some error => .error error
      | none => .ok (values.map image) := by
  induction values with
  | nil => rfl
  | cons value values ih =>
      rw [List.mapM_cons, List.findSome?_cons, ih]
      cases first : error? value with
      | some error =>
          rw [fails value error first]
          rfl
      | none =>
          rw [succeeds value first]
          cases values.findSome? error? <;> rfl

open Exchange Subdomain.Group

namespace Ownership

variable {size : Rank} {tag : Tag} {known : Seat → SortedMap EntityId UInt64} {asks : Seat → IdSet}
  {peer seat : Seat} {id : EntityId}

/-! ## The first missing id -/

/-- Of the ids that are asked for and not known, the first in the order of the ranks and, for one rank,
of the ids. -/
structure FirstMissing (size : Rank) (known : Seat → SortedMap EntityId UInt64) (asks : Seat → IdSet)
    (peer : Seat) (id : EntityId) : Prop where
  inGroup : peer.size = size
  asked : id ∈ asks peer
  missing : (known peer).get? id = none
  first : ∀ other : Seat, other.size = size → ∀ otherId ∈ asks other,
    (known other).get? otherId = none → peer.rank < other.rank ∨ peer = other ∧ id ≤ otherId

/-- All ids that are asked for are known. -/
def AllKnown (size : Rank) (known : Seat → SortedMap EntityId UInt64) (asks : Seat → IdSet) : Prop :=
  ∀ peer : Seat, peer.size = size → ∀ id ∈ asks peer, (known peer).get? id ≠ none

/-- The search for the first missing id among those of a rank. -/
def missingFrom? (known : SortedMap EntityId UInt64) (ids : List EntityId) : Option EntityId :=
  ids.find? fun id => (known.get? id).isNone

/-- The search for the first missing id. -/
def firstMissing? (size : Rank) (known : Seat → SortedMap EntityId UInt64) (asks : Seat → IdSet) :
    Option (Seat × EntityId) :=
  (Seat.all size).findSome? fun peer =>
    (missingFrom? (known peer) (asks peer).toList).map (peer, ·)

theorem missingFrom?_eq_none_iff {known : SortedMap EntityId UInt64} {ids : List EntityId} :
    missingFrom? known ids = none ↔ ∀ id ∈ ids, known.get? id ≠ none := by
  simp [missingFrom?, Option.ne_none_iff_isSome]

theorem firstMissing?_eq_none_iff :
    firstMissing? size known asks = none ↔ AllKnown size known asks := by
  simp only [firstMissing?, List.findSome?_eq_none_iff, Option.map_eq_none_iff,
    missingFrom?_eq_none_iff, Seat.mem_all, SortedSet.mem_toList]
  rfl

/-- What the search finds in an ascending set is no later than anything else that is missing. -/
theorem missingFrom?_le {known : SortedMap EntityId UInt64} {ids : IdSet}
    (found : missingFrom? known ids.toList = some id) {other : EntityId} (inside : other ∈ ids)
    (missing : known.get? other = none) : id ≤ other := by
  rcases List.find?_eq_some_iff_append.1 found with ⟨_, front, back, split, before⟩
  have ascending := ids.pairwise_lt
  rw [split, List.pairwise_append] at ascending
  have listed : other ∈ front ++ id :: back := split ▸ SortedSet.mem_toList.2 inside
  rcases List.mem_append.1 listed with inFront | inBack
  · have present := before other inFront
    rw [missing] at present
    cases present
  · cases List.mem_cons.1 inBack with
    | inl same => exact UInt64.le_of_eq same.symm
    | inr later => exact UInt64.le_of_lt ((List.pairwise_cons.1 ascending.2.1).1 other later)

theorem firstMissing_of_search (found : firstMissing? size known asks = some (peer, id)) :
    FirstMissing size known asks peer id := by
  rcases List.findSome?_eq_some_iff.1 found with ⟨front, place, back, split, here, before⟩
  rcases Option.map_eq_some_iff.1 here with ⟨_, searched, same⟩
  cases same
  have ascending := Seat.pairwise_all size
  rw [split, List.pairwise_append] at ascending
  have located := List.find?_eq_some_iff_append.1 searched
  constructor
  · exact Seat.mem_all.1 (split ▸ List.mem_append_right _ List.mem_cons_self)
  · exact SortedSet.mem_toList.1 (List.mem_of_find?_eq_some searched)
  · exact Option.isNone_iff_eq_none.1 located.1
  · intro other otherInGroup otherId asked missing
    have listed : other ∈ front ++ peer :: back := split ▸ Seat.mem_all.2 otherInGroup
    rcases List.mem_append.1 listed with inFront | inBack
    · have nothing := Option.map_eq_none_iff.1 (before other inFront)
      exact absurd missing (missingFrom?_eq_none_iff.1 nothing otherId asked)
    · cases List.mem_cons.1 inBack with
      | inl same =>
          subst same
          exact .inr ⟨rfl, missingFrom?_le searched asked missing⟩
      | inr later => exact .inl ((List.pairwise_cons.1 ascending.2.1).1 other later)

/-! ## Reading the answers -/

/-- The locations that an owner gives for the requested ids that it has. -/
def locationsOf (rank : Rank) (known : SortedMap EntityId UInt64) (ids : List EntityId) :
    List Location :=
  ids.filterMap fun id => (known.get? id).map fun offset => ⟨id, rank, offset⟩

/-- The answer to a missing id is left out, so what stands in its place is for a later id, or nothing
does. -/
theorem readOffsets_locationsOf (rank : Rank) (known : SortedMap EntityId UInt64)
    {ids : List EntityId} (distinct : ids.Nodup) :
    readOffsets ids (locationsOf rank known ids) =
      match missingFrom? known ids with
      | some id => .error (.unownedEntity id)
      | none => .ok (ids.filterMap known.get?) := by
  induction ids with
  | nil => rfl
  | cons id ids ih =>
      rcases List.nodup_cons.1 distinct with ⟨apart, distinct⟩
      cases found : known.get? id with
      | some offset =>
          have skipped : missingFrom? known (id :: ids) = missingFrom? known ids := by
            simp [missingFrom?, found]
          have located : locationsOf rank known (id :: ids) =
              ⟨id, rank, offset⟩ :: locationsOf rank known ids := by
            simp [locationsOf, found]
          rw [skipped, located, readOffsets, if_pos rfl, ih distinct]
          cases missingFrom? known ids with
          | some missing => rfl
          | none => simp [Except.map, found]
      | none =>
          have missing : missingFrom? known (id :: ids) = some id := by
            simp [missingFrom?, found]
          have skipped : locationsOf rank known (id :: ids) = locationsOf rank known ids := by
            simp [locationsOf, found]
          rw [missing, skipped]
          cases answers : locationsOf rank known ids with
          | nil => rfl
          | cons location rest =>
              have listed : location ∈ locationsOf rank known ids :=
                answers ▸ List.mem_cons_self
              rcases List.mem_filterMap.1 listed with ⟨other, inside, answer⟩
              rcases Option.map_eq_some_iff.1 answer with ⟨_, _, rfl⟩
              have later : other ≠ id := fun same => apart (same ▸ inside)
              rw [readOffsets, if_neg later]

/-! ## What a rank ends with -/

variable {owned : Seat → SortedMap EntityId UInt64} {requests : Seat → List IdSet}

/-- What a rank requests from another; its list of requests has a set for each rank. -/
def asked (requests : Seat → List IdSet) (user owner : Seat) : IdSet :=
  ((requests user)[owner.rank.toNat]?).getD ∅

theorem asked_map {copies : Seat → Seat → IdSet} {owner : Seat} (user : Seat)
    (inGroup : owner.size = size) :
    asked (fun user => (Seat.all size).map (copies user)) user owner = copies user owner := by
  rw [asked, List.getElem?_map, Seat.getElem?_all inGroup]
  rfl

/-- Memory holds the location of every id that a rank requests from another, at 24 bytes each. -/
def HeldFrom (size : Rank) (requests : Seat → List IdSet) : Prop :=
  ∀ user owner : Seat, user.size = size → owner.size = size →
    (asked requests user owner).size * 24 ≤ maxAllocationBytes

/-- Every request to a rank is for ids that it owns. -/
def AllOwned (size : Rank) (owned : Seat → SortedMap EntityId UInt64) (requests : Seat → List IdSet)
    (owner : Seat) : Prop :=
  AllKnown size (fun _ => owned owner) fun user => asked requests user owner

/-- What a rank learns if all requests that concern it are in order: for each owner the offsets that
the owner's map gives the requested ids, and for each id that was requested from it the requesters. -/
structure Answers (size : Rank) (owned : Seat → SortedMap EntityId UInt64)
    (requests : Seat → List IdSet) (seat : Seat) (answer : OffsetAnswer) : Prop where
  length : answer.offsets.length = size.toNat
  offsets : ∀ owner : Seat, owner.size = size →
    ∃ offsets, answer.offsets[owner.rank.toNat]? = some offsets ∧
      offsets.map some = (asked requests seat owner).toList.map (owned owner).get?
  requesters : ∀ id ranks, answer.requesters.get? id = some ranks ↔
    (∃ user : Seat, user.size = size ∧ id ∈ asked requests user seat) ∧
      ∀ rank, rank ∈ ranks ↔
        ∃ user : Seat, user.size = size ∧ user.rank = rank ∧ id ∈ asked requests user seat

/-- How a request for offsets ends on a rank. -/
inductive Concludes (size : Rank) (owned : Seat → SortedMap EntityId UInt64)
    (requests : Seat → List IdSet) (seat : Seat) : Except Error OffsetAnswer → Prop where
  /-- The rank got a request for an id that it does not own. -/
  | stray {user : Seat} {id : EntityId}
      (first : FirstMissing size (fun _ => owned seat) (fun user => asked requests user seat) user id) :
      Concludes size owned requests seat (.error (.unexpectedRequest id user.rank))
  /-- The rank got no such request, but made one. -/
  | unowned {owner : Seat} {id : EntityId} (clean : AllOwned size owned requests seat)
      (first : FirstMissing size owned (asked requests seat) owner id) :
      Concludes size owned requests seat (.error (.unownedEntity id))
  | answered {answer : OffsetAnswer} (clean : AllOwned size owned requests seat)
      (known : AllKnown size owned (asked requests seat))
      (answers : Answers size owned requests seat answer) :
      Concludes size owned requests seat (.ok answer)

/-- The offsets and the requesters that a rank learns. -/
def answerOf (size : Rank) (owned : Seat → SortedMap EntityId UInt64) (requests : Seat → List IdSet)
    (seat : Seat) : OffsetAnswer where
  offsets := (Seat.all size).map fun owner =>
    (asked requests seat owner).toList.filterMap (owned owner).get?
  requesters := .ofKeys (owned seat).keys fun id =>
    let ranks := sharersOf size (asked requests) seat id
    if ranks.isEmpty then none else some ranks

/-- What a rank ends with, by the two searches that it makes. -/
def outcomeFor (size : Rank) (owned : Seat → SortedMap EntityId UInt64) (requests : Seat → List IdSet)
    (seat : Seat) : Except Error OffsetAnswer :=
  match firstMissing? size (fun _ => owned seat) fun user => asked requests user seat with
  | some (user, id) => .error (.unexpectedRequest id user.rank)
  | none =>
    match firstMissing? size owned (asked requests seat) with
    | some (_, id) => .error (.unownedEntity id)
    | none => .ok (answerOf size owned requests seat)

theorem answers_answerOf (clean : AllOwned size owned requests seat)
    (known : AllKnown size owned (asked requests seat)) :
    Answers size owned requests seat (answerOf size owned requests seat) := by
  constructor
  · rw [answerOf, List.length_map, Seat.length_all]
  · intro owner inGroup
    refine ⟨(asked requests seat owner).toList.filterMap (owned owner).get?, ?_, ?_⟩
    · rw [answerOf, List.getElem?_map, Seat.getElem?_all inGroup]
      rfl
    · rw [List.map_filterMap, ← List.filterMap_eq_map]
      apply List.filterMap_congr
      intro id requested
      rcases Option.ne_none_iff_exists'.1 (known owner inGroup id requested) with ⟨offset, found⟩
      simp [found]
  · intro id ranks
    have looked : (answerOf size owned requests seat).requesters.get? id =
        if id ∈ (owned seat).keys then
          if (sharersOf size (asked requests) seat id).isEmpty then none
          else some (sharersOf size (asked requests) seat id)
        else none := SortedMap.get?_ofKeys ..
    rw [looked]
    constructor
    · intro found
      split at found
      · split at found
        · cases found
        · next requested =>
          cases found
          rw [SortedSet.isEmpty_iff, not_forall] at requested
          rcases requested with ⟨rank, member⟩
          rcases mem_sharersOf.1 (not_not.1 member) with ⟨user, inGroup, _, request⟩
          exact ⟨⟨user, inGroup, request⟩, fun _ => mem_sharersOf⟩
      · cases found
    · rintro ⟨⟨user, inGroup, request⟩, listed⟩
      have same : sharersOf size (asked requests) seat id = ranks := by
        ext rank
        rw [mem_sharersOf, listed]
      have inside : id ∈ (owned seat).keys := SortedMap.mem_keys_iff.2 (clean user inGroup id request)
      have someone : ¬ (sharersOf size (asked requests) seat id).isEmpty = true := by
        rw [SortedSet.isEmpty_iff, not_forall]
        exact ⟨user.rank, not_not.2 (mem_sharersOf.2 ⟨user, inGroup, rfl, request⟩)⟩
      rw [if_pos inside, if_neg someone, same]

theorem concludes_outcomeFor (size : Rank) (owned : Seat → SortedMap EntityId UInt64)
    (requests : Seat → List IdSet) (seat : Seat) :
    Concludes size owned requests seat (outcomeFor size owned requests seat) := by
  rw [outcomeFor]
  cases strays : firstMissing? size (fun _ => owned seat) fun user => asked requests user seat with
  | some found => exact .stray (firstMissing_of_search strays)
  | none =>
      have clean := firstMissing?_eq_none_iff.1 strays
      cases gaps : firstMissing? size owned (asked requests seat) with
      | some found => exact .unowned clean (firstMissing_of_search gaps)
      | none =>
          have known := firstMissing?_eq_none_iff.1 gaps
          exact .answered clean known (answers_answerOf clean known)

/-- What a rank learns when the owners have what it requests. -/
theorem answerOf_numbering {primary : Seat → IdSet} {copies : Seat → Seat → IdSet} (inGroup : seat.size = size)
    (known : AllKnown size (fun owner => (primary owner).numbering)
      (asked (fun user => (Seat.all size).map (copies user)) seat)) :
    answerOf size (fun owner => (primary owner).numbering)
      (fun user => (Seat.all size).map (copies user)) seat = offsetAnswerOf size primary copies seat := by
  rw [answerOf, offsetAnswerOf]
  congr 1
  · apply List.map_congr_left
    intro owner member
    have ownerInGroup := Seat.mem_all.1 member
    rw [asked_map seat ownerInGroup, ← List.filterMap_eq_map]
    apply List.filterMap_congr
    intro id requested
    have found := known owner ownerInGroup id
    rw [asked_map seat ownerInGroup, SortedSet.get?_numbering] at found
    rw [SortedSet.get?_numbering]
    split at found
    · next owned => rw [if_pos owned]; rfl
    · exact absurd rfl (found (SortedSet.mem_toList.1 requested))
  · rw [SortedSet.keys_numbering]
    congr 1
    funext id
    rw [sharersOf_congr (fun user owner _ ownerInGroup => asked_map user ownerInGroup) inGroup id]

/-- A rank that gets its offsets from owners that number what they own, learns all there is to know. -/
theorem outcomeFor_numbering {primary : Seat → IdSet} {copies : Seat → Seat → IdSet}
    {answer : OffsetAnswer} (inGroup : seat.size = size)
    (done : outcomeFor size (fun owner => (primary owner).numbering)
      (fun user => (Seat.all size).map (copies user)) seat = .ok answer) :
    answer = offsetAnswerOf size primary copies seat := by
  rw [outcomeFor] at done
  split at done
  · cases done
  · split at done
    · cases done
    · next missing =>
      rw [answerOf_numbering inGroup (firstMissing?_eq_none_iff.1 missing)] at done
      exact (Except.ok.inj done).symm

/-! ## The two exchanges -/

/-- What a rank makes of the requests and the answers that it got. -/
def concludeFrom (seat : Seat) (owned : SortedMap EntityId UInt64) (requests : List IdSet)
    (incoming : List (List EntityId)) (answers : List (List Location)) :
    Except Error OffsetAnswer := do
  refuseStray owned (seat.ranks.zip incoming)
  let offsets ← (requests.zip answers).mapM fun asked => readOffsets asked.1.toList asked.2
  return ⟨offsets, .ofKeys owned.keys fun id =>
    let ranks := requestersOf (seat.ranks.zip incoming) id
    if ranks.isEmpty then none else some ranks⟩

theorem partitionFault_of_readOffsets {ids : List EntityId} {locations : List Location} {error : Error}
    (failed : readOffsets ids locations = .error error) : error.isPartitionFault = true := by
  induction ids generalizing locations with
  | nil => cases failed
  | cons id ids ih =>
      cases locations with
      | nil =>
          cases failed
          rfl
      | cons location locations =>
          rw [readOffsets] at failed
          split at failed
          · cases rest : readOffsets ids locations with
            | ok offsets =>
                rw [rest] at failed
                cases failed
            | error other =>
                rw [rest] at failed
                cases failed
                exact ih rest
          · cases failed
            rfl

theorem partitionFault_of_concludeFrom {owned : SortedMap EntityId UInt64} {requests : List IdSet}
    {incoming : List (List EntityId)} {answers : List (List Location)} {error : Error}
    (failed : concludeFrom seat owned requests incoming answers = .error error) :
    error.isPartitionFault = true := by
  rcases bind_eq_error.1 failed with stray | ⟨_, _, failed⟩
  · rw [refuseStray] at stray
    split at stray <;> cases stray
    rfl
  · rcases bind_eq_error.1 failed with unread | ⟨_, _, failed⟩
    · rcases exists_of_mapM_eq_error unread with ⟨_, _, failed⟩
      exact partitionFault_of_readOffsets failed
    · cases failed

theorem offsets_eq_exchanges (seat : Seat) (owned : SortedMap EntityId UInt64) {requests : List IdSet}
    (count : requests.length = seat.size.toNat) (tag : Tag) :
    offsets seat owned requests tag =
      allToAll seat (requests.map SortedSet.toList) tag >>= fun incoming =>
      allToAll seat (incoming.map (locationsOf seat.rank owned)) (tag + 2) >>= fun answers =>
      Collective.ofExcept (concludeFrom seat owned requests incoming answers) := by
  rw [offsets_eq seat owned count]
  apply bind_congr
  intro incoming
  apply bind_congr
  intro answers
  rw [concludeFrom]
  cases refuseStray owned (seat.ranks.zip incoming) with
  | error error => rfl
  | ok =>
      cases (requests.zip answers).mapM fun asked => readOffsets asked.1.toList asked.2 with
      | error error => rfl
      | ok offsets => rfl

/-- A list with a set for each rank is what is requested from each rank. -/
theorem requests_eq_map (counted : (requests seat).length = size.toNat) :
    requests seat = (Seat.all size).map (asked requests seat) := by
  apply List.ext_getElem?
  intro position
  rw [List.getElem?_map]
  by_cases inside : position < size.toNat
  · rcases Seat.exists_getElem?_all inside with ⟨owner, found, number, _⟩
    rw [found, Option.map_some, asked, number, List.getElem?_eq_getElem (counted ▸ inside)]
    rfl
  · rw [List.getElem?_eq_none (by omega), List.getElem?_eq_none (by simpa using inside)]
    rfl

/-- The requests that a rank gets, next to the ranks that made them. -/
theorem refuseStray_incoming (inGroup : seat.size = size) :
    refuseStray (owned seat) (seat.ranks.zip ((Seat.all size).map fun user =>
        (asked requests user seat).toList)) =
      match firstMissing? size (fun _ => owned seat) fun user => asked requests user seat with
      | some (user, id) => .error (.unexpectedRequest id user.rank)
      | none => .ok () := by
  have searched : stray? (owned seat) (seat.ranks.zip ((Seat.all size).map fun user =>
      (asked requests user seat).toList)) =
      (firstMissing? size (fun _ => owned seat) fun user => asked requests user seat).map
        fun found => (found.1.rank, found.2) := by
    rw [Seat.zip_ranks inGroup fun user => (asked requests user seat).toList, stray?,
      List.findSome?_map, firstMissing?, List.map_findSome?]
    congr 1
    funext user
    simp only [Function.comp, Option.map_map]
    rfl
  rw [refuseStray, searched]
  cases firstMissing? size (fun _ => owned seat) fun user => asked requests user seat <;> rfl

theorem mapM_readOffsets (seat : Seat) :
    ((Seat.all size).map fun owner => (asked requests seat owner,
      locationsOf owner.rank (owned owner) (asked requests seat owner).toList)).mapM (fun asked =>
        readOffsets asked.1.toList asked.2) =
      match firstMissing? size owned (asked requests seat) with
      | some (_, id) => .error (.unownedEntity id)
      | none => .ok (answerOf size owned requests seat).offsets := by
  let error? (owner : Seat) : Option Error :=
    (missingFrom? (owned owner) (asked requests seat owner).toList).map .unownedEntity
  have searched : (Seat.all size).findSome? error? =
      (firstMissing? size owned (asked requests seat)).map fun found => .unownedEntity found.2 := by
    rw [firstMissing?, List.map_findSome?]
    congr 1
    funext owner
    simp only [Function.comp, Option.map_map]
    rfl
  rw [List.mapM_map, mapM_firstError error?, searched]
  · cases firstMissing? size owned (asked requests seat) <;> rfl
  · intro owner error found
    rcases Option.map_eq_some_iff.1 found with ⟨id, missing, rfl⟩
    rw [Function.comp, readOffsets_locationsOf _ _ (asked requests seat owner).nodup_toList, missing]
  · intro owner found
    have present := Option.map_eq_none_iff.1 found
    rw [Function.comp, readOffsets_locationsOf _ _ (asked requests seat owner).nodup_toList, present]

theorem concludeFrom_exchanged (inGroup : seat.size = size)
    (counted : (requests seat).length = size.toNat) :
    concludeFrom seat (owned seat) (requests seat)
      ((Seat.all size).map fun user => (asked requests user seat).toList)
      ((Seat.all size).map fun owner =>
        locationsOf owner.rank (owned owner) (asked requests seat owner).toList) =
      outcomeFor size owned requests seat := by
  rw [concludeFrom, outcomeFor, refuseStray_incoming inGroup]
  cases firstMissing? size (fun _ => owned seat) fun user => asked requests user seat with
  | some found => rfl
  | none =>
      have paired := @mapM_readOffsets size owned requests seat
      rw [requests_eq_map counted, List.zip_map', paired]
      cases firstMissing? size owned (asked requests seat) with
      | some found => rfl
      | none =>
          simp only [requestersOf_received inGroup]
          rfl

/-- What is requested from a rank arrives there. -/
theorem received_requests (counted : ∀ seat : Seat, seat.size = size →
      (requests seat).length = size.toNat) (inGroup : seat.size = size) :
    received size (fun user => (requests user).map SortedSet.toList) seat =
      (Seat.all size).map fun user => (asked requests user seat).toList := by
  rw [← received_map_all inGroup fun user owner => (asked requests user owner).toList]
  apply List.map_congr_left
  intro user member
  dsimp only
  rw [requests_eq_map (counted user (Seat.mem_all.1 member)), List.map_map]
  rfl

theorem HeldFrom.fits {user owner : Seat} (held : HeldFrom size requests)
    (owned : Seat → SortedMap EntityId UInt64)
    (userInGroup : user.size = size) (ownerInGroup : owner.size = size) :
    fits (asked requests user owner).toList = true ∧
      fits (locationsOf owner.rank (owned owner) (asked requests user owner).toList) = true := by
  have room := held user owner userInGroup ownerInGroup
  constructor
  · exact fits_of_length_le (Nat.le_refl _) (by decide) room (by decide)
  · exact fits_of_length_le (List.length_filterMap_le ..) (by decide) room (by decide)

/-- Every rank comes to an end of its own with its requests for offsets. -/
theorem settles_offsets (counted : ∀ seat : Seat, seat.size = size →
      (requests seat).length = size.toNat) (held : HeldFrom size requests) :
    Settles size (fun seat => (offsets seat (owned seat) (requests seat) tag).run)
      (outcomeFor size owned requests) := by
  have requested : ∀ seat : Seat, seat.size = size →
      Ready size ((requests seat).map SortedSet.toList) := by
    intro user userInGroup
    rw [requests_eq_map (counted user userInGroup), List.map_map]
    apply ready_map_all.2
    intro owner ownerInGroup
    exact (held.fits owned userInGroup ownerInGroup).1
  have answered : ∀ seat : Seat, seat.size = size →
      Ready size ((Seat.all size).map fun user =>
        locationsOf seat.rank (owned seat) (asked requests user seat).toList) := by
    intro owner ownerInGroup
    apply ready_map_all.2
    intro user userInGroup
    exact (held.fits owned userInGroup ownerInGroup).2
  have stages : Settles size (fun seat => (allToAll seat ((requests seat).map SortedSet.toList) tag >>=
      fun incoming => allToAll seat (incoming.map (locationsOf seat.rank (owned seat))) (tag + 2) >>=
        fun answers => Collective.ofExcept
          (concludeFrom seat (owned seat) (requests seat) incoming answers)).run)
      (outcomeFor size owned requests) := by
    apply (settles_allToAll requested).andThen
    apply Settles.andThen
    · apply (settles_allToAll answered).congr
      · intro seat inGroup
        rw [received_requests counted inGroup, List.map_map]
        rfl
      · intro seat inGroup
        rfl
    · apply (settles_done _).congr fun _ _ => rfl
      intro seat inGroup
      rw [received_requests counted inGroup, received_map_all inGroup fun owner user =>
        locationsOf owner.rank (owned owner) (asked requests user owner).toList,
        concludeFrom_exchanged inGroup (counted seat inGroup)]
  apply stages.congr
  · intro seat inGroup
    rw [offsets_eq_exchanges seat _ ((counted seat inGroup).trans (congrArg UInt64.toNat inGroup.symm))]
  · intro seat _
    rfl

/-- However far the ranks have got with their requests for offsets, those that have not ended can go on
by sends and receives until all have, and no message is left.  Every rank ends as the requests that
concern it say: with the first that it could not answer, else with the first id that it got no answer
for, else with the offsets. -/
theorem offsets_confine_errors (counted : ∀ seat : Seat, seat.size = size →
      (requests seat).length = size.toNat) (held : HeldFrom size requests)
    {group : Group (Except Error OffsetAnswer)}
    (reached : Reaches Move
      (ofCall size fun seat => (offsets seat (owned seat) (requests seat) tag).run) group) :
    (Ended group ∨ ∃ next, Step group next) ∧
      (∃ outcomes : Seat → Except Error OffsetAnswer,
        Reaches Step group (ofCall size fun seat => .done (outcomes seat)) ∧
          ∀ seat : Seat, seat.size = size → Concludes size owned requests seat (outcomes seat)) ∧
      ∀ seat : Seat, seat.size = size → ∀ outcome,
        group.programs[seat.rank.toNat]? = some (.done outcome) →
          Concludes size owned requests seat outcome := by
  have settles : Settles size (fun seat => (offsets seat (owned seat) (requests seat) tag).run)
      (outcomeFor size owned requests) := settles_offsets counted held
  have ended : Ended (ofCall size fun seat => .done (outcomeFor size owned requests seat)) :=
    ended_ofValues _ ∅
  have onward := steps_outcome (numbered_ofCall _) settles.reaches ended reached
  refine ⟨?_, ⟨outcomeFor size owned requests, onward, ?_⟩, ?_⟩
  · cases Reaches.eq_or_step onward with
    | inl same => exact .inl (same ▸ ended)
    | inr some => exact .inr some
  · intro seat _
    exact concludes_outcomeFor size owned requests seat
  · intro seat inGroup outcome found
    rcases settles.outcome reached found with ⟨other, located, same⟩
    rw [Seat.getElem?_all inGroup] at located
    cases located
    rw [← same]
    exact concludes_outcomeFor size owned requests seat

/-- The first of three ranks owns one id. -/
def oneOwned (seat : Seat) : SortedMap EntityId UInt64 :=
  if seat.rank = 0 then .ofList [(1, 7)] else ∅

/-- The second requests the id and another one from it, the third only the id. -/
def strayRequests (seat : Seat) : List IdSet :=
  [if seat.rank = 1 then .ofList [1, 5] else if seat.rank = 2 then .ofList [1] else ∅, ∅, ∅]

/-- The owner refuses the other id, the rank that requested it misses it, and the third rank gets its
offset. -/
theorem offsets_confine_errors_strayRequests :
    let owner : Seat := ⟨0, 3, by decide⟩
    let strayed : Seat := ⟨1, 3, by decide⟩
    let answered : Seat := ⟨2, 3, by decide⟩
    Concludes 3 oneOwned strayRequests owner (.error (.unexpectedRequest 5 1)) ∧
      Concludes 3 oneOwned strayRequests strayed (.error (.unownedEntity 5)) ∧
      Concludes 3 oneOwned strayRequests answered (.ok ⟨[[7], [], []], ∅⟩) := by
  intro owner strayed answered
  have counted : ∀ seat : Seat, seat.size = 3 → (strayRequests seat).length = (3 : Rank).toNat :=
    fun _ _ => rfl
  have held : HeldFrom 3 strayRequests := by
    have listed : ∀ user ∈ Seat.all 3, ∀ other ∈ Seat.all 3,
        (asked strayRequests user other).size * 24 ≤ maxAllocationBytes := by decide +kernel
    intro user other userInGroup otherInGroup
    exact listed user (Seat.mem_all.2 userInGroup) other (Seat.mem_all.2 otherInGroup)
  let call (seat : Seat) := (offsets seat (oneOwned seat) (strayRequests seat) 7).run
  have reached : Reaches Move (ofCall 3 call) (runFor 60 (ofCall 3 call)) := reaches_runFor 60 _
  have ends := (offsets_confine_errors counted held reached).2.2
  refine ⟨ends owner rfl _ ?_, ends strayed rfl _ ?_, ends answered rfl _ ?_⟩
  all_goals
    apply getElem?_values_eq_some_iff.1
    decide +kernel

end Ownership

end Subdomain
