import Subdomain.Proofs.Message.Confluence

/-!
# Lockstep

Since the order of steps does not matter, one schedule may be chosen to follow a collective: the ranks
take turns, and no rank goes on to the next phase before all have finished the last.  A call settles if
this schedule takes every rank through it and leaves no mail.  What a rank goes on with is left open,
so that calls can be followed one after the other.
-/

namespace Subdomain

namespace Seat

variable {size : Rank}

theorem toNat_lt (seat : Seat) : seat.rank.toNat < seat.size.toNat :=
  UInt64.lt_iff_toNat_lt.1 seat.rank_lt

theorem rankAt_toNat (rank : Rank) : Group.rankAt rank.toNat = rank := UInt64.ofNat_toNat

theorem eq_of_rank {first second : Seat} (size : first.size = second.size)
    (rank : first.rank = second.rank) : first = second := by
  cases first
  cases second
  cases size
  cases rank
  rfl

/-- The place at each position of a group. -/
theorem exists_getElem?_all {position : Nat} (inside : position < size.toNat) :
    ∃ seat : Seat, (all size)[position]? = some seat ∧ seat.rank.toNat = position ∧
      seat.size = size := by
  have small : position < UInt64.size := Nat.lt_trans inside size.toNat_lt
  have number : (UInt64.ofNat position).toNat = position := UInt64.toNat_ofNat_of_lt' small
  have below : UInt64.ofNat position < size := by
    rw [UInt64.lt_iff_toNat_lt, number]
    exact inside
  exists ⟨UInt64.ofNat position, size, below⟩
  constructor
  · simp [all, ranksBelow, inside]
  · exact ⟨number, rfl⟩

theorem getElem?_all {seat : Seat} (inGroup : seat.size = size) :
    (all size)[seat.rank.toNat]? = some seat := by
  rcases exists_getElem?_all (inGroup ▸ seat.toNat_lt) with ⟨other, found, rank, otherInGroup⟩
  rw [found, eq_of_rank (inGroup.trans otherInGroup.symm) (UInt64.toNat_inj.1 rank.symm)]

theorem of_getElem?_all {position : Nat} {seat : Seat} (found : (all size)[position]? = some seat) :
    seat.size = size ∧ seat.rank.toNat = position := by
  have inside : position < size.toNat := by
    have bound := (List.getElem?_eq_some_iff.1 found).1
    rwa [length_all] at bound
  rcases exists_getElem?_all inside with ⟨other, foundOther, rank, inGroup⟩
  rw [found] at foundOther
  cases foundOther
  exact ⟨inGroup, rank⟩

theorem mem_all {seat : Seat} : seat ∈ all size ↔ seat.size = size := by
  constructor
  · intro member
    rcases List.mem_iff_getElem?.1 member with ⟨position, found⟩
    exact (of_getElem?_all found).1
  · intro inGroup
    exact List.mem_of_getElem? (getElem?_all inGroup)

end Seat

/-- A sequence of results that a rank already has may be taken step by step. -/
theorem Collective.ofExcept_bind {α β : Type} (first : Except Error α) (next : α → Except Error β) :
    ofExcept (first >>= next) = ofExcept first >>= fun value => ofExcept (next value) := by
  cases first <;> rfl

/-! ## Turns -/

/-- Any number of steps of one rank while the others stay. -/
inductive Program.Runs {α : Type} (rank : Rank) :
    Program α → Mail → Program α → Mail → Prop where
  | refl {program : Program α} {mail : Mail} : Runs rank program mail program mail
  | step {first second last : Program α} {firstMail secondMail lastMail : Mail} :
      Acts rank first firstMail second secondMail → Runs rank second secondMail last lastMail →
      Runs rank first firstMail last lastMail

namespace Group

variable {α β : Type} {size : Rank}

theorem set_of_getElem? {programs : List (Program α)} {position : Nat} {program : Program α}
    (found : programs[position]? = some program) : programs.set position program = programs := by
  rcases List.getElem?_eq_some_iff.1 found with ⟨inside, rfl⟩
  exact List.set_getElem_self inside

theorem reaches_runs {position : Nat} {programs : List (Program α)} {before after : Program α}
    {mail rest : Mail} (runs : before.Runs (rankAt position) mail after rest)
    (found : programs[position]? = some before) :
    Reaches Step ⟨programs, mail⟩ ⟨programs.set position after, rest⟩ := by
  induction runs generalizing programs with
  | refl =>
      rw [set_of_getElem? found]
      exact .refl _
  | step acts _ ih =>
      rename_i first second last firstMail secondMail lastMail _
      have inside := (List.getElem?_eq_some_iff.1 found).1
      have placed : (programs.set position second)[position]? = some second := by
        simp [inside]
      have later := ih placed
      rw [List.set_set] at later
      exact .head (step_iff.2 ⟨position, _, _, _, found, acts, rfl⟩) later

theorem reaches_runs_between {front : List (Program α)} {before after : Program α}
    {mail rest : Mail} (runs : before.Runs (rankAt front.length) mail after rest)
    (back : List (Program α)) :
    Reaches Step ⟨front ++ before :: back, mail⟩ ⟨front ++ after :: back, rest⟩ := by
  have found : (front ++ before :: back)[front.length]? = some before := by simp
  have reaches := reaches_runs runs found
  rwa [List.set_append_right _ _ (Nat.le_refl _), Nat.sub_self, List.set_cons_zero] at reaches

/-- All ranks take their turn, in rank order.  What holds of the mail may depend on how many turns
have been taken. -/
theorem reaches_turns {before after : Seat → Program α} {holds : Nat → Mail → Prop} {mail : Mail}
    (turn : ∀ seat : Seat, seat.size = size → ∀ mail, holds seat.rank.toNat mail →
      ∃ rest, (before seat).Runs seat.rank mail (after seat) rest ∧
        holds (seat.rank.toNat + 1) rest)
    (begun : holds 0 mail) :
    ∃ rest, Reaches Step ⟨(Seat.all size).map before, mail⟩ ⟨(Seat.all size).map after, rest⟩ ∧
      holds size.toNat rest := by
  have onward : ∀ waiting visited mail, Seat.all size = visited ++ waiting →
      holds visited.length mail → ∃ rest,
        Reaches Step ⟨visited.map after ++ waiting.map before, mail⟩
          ⟨(Seat.all size).map after, rest⟩ ∧ holds size.toNat rest := by
    intro waiting
    induction waiting with
    | nil =>
        intro visited mail split held
        rw [List.append_nil] at split
        rw [split, List.map_nil, List.append_nil, ← Seat.length_all, split]
        exact ⟨mail, .refl _, held⟩
    | cons seat waiting ih =>
        intro visited mail split held
        have found : (Seat.all size)[visited.length]? = some seat := by simp [split]
        rcases Seat.of_getElem?_all found with ⟨inGroup, number⟩
        rcases turn seat inGroup mail (number ▸ held) with ⟨middle, runs, kept⟩
        have turned : Reaches Step ⟨visited.map after ++ before seat :: waiting.map before, mail⟩
            ⟨(visited ++ [seat]).map after ++ waiting.map before, middle⟩ := by
          have rank : rankAt (visited.map after).length = seat.rank := by
            rw [List.length_map, ← number, Seat.rankAt_toNat]
          have reaches := reaches_runs_between (rank ▸ runs) (waiting.map before)
          simpa using reaches
        rcases ih (visited ++ [seat]) middle (by simp [split]) (by simpa [number] using kept) with
          ⟨rest, later, finished⟩
        exact ⟨rest, turned.trans later, finished⟩
  exact onward (Seat.all size) [] mail rfl begun

/-! ## Calls that settle -/

theorem ofCall_congr {call other : Seat → Program α}
    (same : ∀ seat : Seat, seat.size = size → call seat = other seat) :
    ofCall size call = ofCall size other := by
  unfold ofCall
  congr 1
  apply List.map_congr_left
  intro seat member
  exact same seat (Seat.mem_all.1 member)

theorem numbered_ofCall (call : Seat → Program α) : Numbered (ofCall size call) := by
  rw [Numbered, ofCall, List.length_map, Seat.length_all]
  exact Nat.le_of_lt size.toNat_lt

/-- The call of a rank of the group. -/
theorem getElem?_ofCall {seat : Seat} (inGroup : seat.size = size) (call : Seat → Program α) :
    (ofCall size call).programs[seat.rank.toNat]? = some (call seat) := by
  rw [ofCall, List.getElem?_map, Seat.getElem?_all inGroup, Option.map_some]

/-- Sends and receives take every rank through a call, with these values and no mail left. -/
def Settles (size : Rank) (call : Seat → Program α) (values : Seat → α) : Prop :=
  ∀ ⦃β : Type⦄ (next : Seat → α → Program β),
    Reaches Step (ofCall size fun seat => (call seat).bind (next seat))
      (ofCall size fun seat => next seat (values seat))

theorem settles_done (values : Seat → α) : Settles size (fun seat => .done (values seat)) values :=
  fun _ _ => .refl _

theorem Settles.bind {call : Seat → Program α} {values : Seat → α}
    {next : Seat → α → Program β} {results : Seat → β} (first : Settles size call values)
    (second : Settles size (fun seat => next seat (values seat)) results) :
    Settles size (fun seat => (call seat).bind (next seat)) results := by
  intro γ last
  have front := first fun seat value => (next seat value).bind (last seat)
  simp only [Program.bind_bind]
  exact front.trans (second last)

/-- A call that settles without an error, and then one that settles. -/
theorem Settles.andThen {call : Seat → Collective α} {values : Seat → α}
    {next : Seat → α → Collective β} {results : Seat → Except Error β}
    (first : Settles size (fun seat => (call seat).run) fun seat => .ok (values seat))
    (second : Settles size (fun seat => (next seat (values seat)).run) results) :
    Settles size (fun seat => (call seat >>= next seat).run) results := by
  change Settles size (fun seat => (call seat).run.bind (ExceptT.bindCont (next seat))) results
  exact first.bind second

/-- A call that settles, seen from what the ranks go on with. -/
theorem Settles.reaches_next {call : Seat → Collective α} {results : Seat → Except Error α}
    {next : Seat → α → Collective β}
    (settles : Settles size (fun seat => (call seat).run) results) :
    Reaches Step (ofCall size fun seat => (call seat >>= next seat).run)
      (ofCall size fun seat => ExceptT.bindCont (next seat) (results seat)) :=
  settles fun seat => ExceptT.bindCont (next seat)

theorem Settles.congr {call other : Seat → Program α} {values results : Seat → α}
    (settles : Settles size call values)
    (sameCall : ∀ seat : Seat, seat.size = size → other seat = call seat)
    (sameValue : ∀ seat : Seat, seat.size = size → results seat = values seat) :
    Settles size other results := by
  intro β next
  have before : ofCall size (fun seat => (other seat).bind (next seat)) =
      ofCall size fun seat => (call seat).bind (next seat) :=
    ofCall_congr fun seat inGroup => by rw [sameCall seat inGroup]
  have after : ofCall size (fun seat => next seat (results seat)) =
      ofCall size fun seat => next seat (values seat) :=
    ofCall_congr fun seat inGroup => by rw [sameValue seat inGroup]
  rw [before, after]
  exact settles next

theorem Settles.reaches {call : Seat → Program α} {values : Seat → α}
    (settles : Settles size call values) :
    Reaches Step (ofCall size call) (ofCall size fun seat => .done (values seat)) := by
  have reaches := settles fun _ => Program.done
  simpa only [Program.bind_done] using reaches

/-! ## Calls that complete -/

/-- Whether ranks wait for ever or may give up on a message that never comes. -/
inductive Patience where
  | unlimited
  | limited

/-- What a group of such ranks does. -/
def Patience.relation : Patience → Group α → Group α → Prop
  | .unlimited => Step
  | .limited => Move

/-- Some schedule ends with a value on every rank. -/
def Completes (patience : Patience) (size : Rank) (call : Seat → Collective α)
    (values : Seat → α) : Prop :=
  ∃ mail, Reaches patience.relation (ofCall size fun seat => (call seat).run)
    ⟨(Seat.all size).map fun seat => .done (.ok (values seat)), mail⟩

/-- However far the ranks have got, the ranks that have not ended can go on by sends and receives until
each has ended with its value. -/
def Succeeds (size : Rank) (call : Seat → Collective α) (values : Seat → α) : Prop :=
  ∀ group, Reaches Move (ofCall size fun seat => (call seat).run) group →
    ∃ mail, Reaches Step group ⟨(Seat.all size).map fun seat => .done (.ok (values seat)), mail⟩

variable {patience : Patience}

theorem Reaches.patient {first last : Group α} (steps : Reaches Step first last) :
    Reaches patience.relation first last := by
  cases patience with
  | unlimited => exact steps
  | limited => exact steps.moves

theorem Reaches.impatient {first last : Group α} (reaches : Reaches patience.relation first last) :
    Reaches Move first last := by
  cases patience with
  | unlimited => exact reaches.moves
  | limited => exact reaches

theorem reaches_runFor (limit : Nat) (group : Group α) :
    Reaches Patience.limited.relation group (runFor limit group) := by
  induction limit generalizing group with
  | zero => exact .refl group
  | succ limit ih =>
      rw [runFor]
      split
      · next moved => exact .head (move_of_move? moved) (ih _)
      · exact .refl group

theorem Settles.completes {call : Seat → Collective α} {values : Seat → α}
    (settles : Settles size (fun seat => (call seat).run) fun seat => .ok (values seat)) :
    Completes patience size call values :=
  ⟨∅, settles.reaches.patient⟩

/-- Sends and receives lose no outcome. -/
theorem Reaches.outcome {group middle final : Group α} (numbered : Numbered group)
    (steps : Reaches Step group middle) (reaches : Reaches patience.relation group final)
    (ended : Ended final) : Reaches patience.relation middle final := by
  cases patience with
  | unlimited => exact steps_outcome numbered reaches ended steps.moves
  | limited => exact reaches_outcome numbered steps reaches ended

theorem ended_ofValues (values : Seat → α) (mail : Mail) :
    Ended ⟨(Seat.all size).map fun seat => .done (values seat), mail⟩ := by
  intro program member
  rcases List.mem_map.1 member with ⟨_, _, rfl⟩
  rfl

/-- A call that can come to an end by sends and receives always does. -/
theorem Completes.succeeds {call : Seat → Collective α} {values : Seat → α}
    (completes : Completes .unlimited size call values) : Succeeds size call values := by
  rcases completes with ⟨mail, reaches⟩
  intro group reached
  exact ⟨mail, steps_outcome (numbered_ofCall _) reaches (ended_ofValues _ _) reached⟩

theorem Succeeds.completes {call : Seat → Collective α} {values : Seat → α}
    (succeeds : Succeeds size call values) : Completes patience size call values := by
  rcases succeeds _ (.refl _) with ⟨mail, steps⟩
  exact ⟨mail, steps.patient⟩

theorem completes_congr {call other : Seat → Collective α} {values : Seat → α}
    (same : ∀ seat : Seat, seat.size = size → call seat = other seat) :
    Completes patience size call values ↔ Completes patience size other values := by
  unfold Completes
  rw [ofCall_congr fun seat inGroup => congrArg ExceptT.run (same seat inGroup)]

/-- The values of results of which none is an error. -/
theorem exists_values [Inhabited α] {results : Seat → Except Error α}
    (succeeded : ∀ seat : Seat, seat.size = size → ∃ value, results seat = .ok value) :
    ∃ values : Seat → α, ∀ seat : Seat, seat.size = size → results seat = .ok (values seat) := by
  refine ⟨fun seat => (results seat).toOption.getD default, ?_⟩
  intro seat inGroup
  rcases succeeded seat inGroup with ⟨value, result⟩
  simp only [result, Except.toOption, Option.getD_some]

/-- A call that settles comes to an end on every rank exactly when it succeeds on every rank and the
rest comes to an end from there. -/
theorem completes_bind_iff [Inhabited α] {call : Seat → Collective α}
    {results : Seat → Except Error α} {next : Seat → α → Collective β} {values : Seat → β}
    (settles : Settles size (fun seat => (call seat).run) results) :
    Completes patience size (fun seat => call seat >>= next seat) values ↔
      ∃ middle : Seat → α, (∀ seat : Seat, seat.size = size → results seat = .ok (middle seat)) ∧
        Completes patience size (fun seat => next seat (middle seat)) values := by
  have front := @Settles.reaches_next _ _ _ _ _ next settles
  have rest : ∀ middle : Seat → α,
      (∀ seat : Seat, seat.size = size → results seat = .ok (middle seat)) →
      ofCall size (fun seat => ExceptT.bindCont (next seat) (results seat)) =
        ofCall size fun seat => (next seat (middle seat)).run := by
    intro middle succeeded
    apply ofCall_congr
    intro seat inGroup
    rw [succeeded seat inGroup]
    rfl
  constructor
  · rintro ⟨mail, reaches⟩
    have onward := front.outcome (numbered_ofCall _) reaches (ended_ofValues _ _)
    have succeeded : ∀ seat : Seat, seat.size = size → ∃ value, results seat = .ok value := by
      intro seat inGroup
      cases result : results seat with
      | ok value => exact ⟨value, rfl⟩
      | error error =>
          have failed : (ofCall size fun seat =>
              ExceptT.bindCont (next seat) (results seat)).programs[seat.rank.toNat]? =
                some (.done (.error error)) := by
            rw [getElem?_ofCall inGroup, result]
            rfl
          have kept := onward.impatient.done failed
          rw [List.getElem?_map, Seat.getElem?_all inGroup] at kept
          cases kept
    rcases exists_values succeeded with ⟨middle, chosen⟩
    refine ⟨middle, chosen, mail, ?_⟩
    rwa [rest _ chosen] at onward
  · rintro ⟨middle, succeeded, mail, reaches⟩
    rw [rest middle succeeded] at front
    exact ⟨mail, front.patient.trans reaches⟩

/-- A call that settles without an error makes no difference to whether the rest comes to an end. -/
theorem completes_settled_iff [Inhabited α] {call : Seat → Collective α} {middle : Seat → α}
    {next : Seat → α → Collective β} {values : Seat → β}
    (settles : Settles size (fun seat => (call seat).run) fun seat => .ok (middle seat)) :
    Completes patience size (fun seat => call seat >>= next seat) values ↔
      Completes patience size (fun seat => next seat (middle seat)) values := by
  rw [completes_bind_iff settles]
  constructor
  · rintro ⟨other, same, completes⟩
    apply (completes_congr _).1 completes
    intro seat inGroup
    rw [Except.ok.inj (same seat inGroup)]
  · intro completes
    exact ⟨middle, fun _ _ => rfl, completes⟩

/-- A result that every rank already has is awaited from nobody. -/
theorem completes_ofExcept_iff [Inhabited α] {results : Seat → Except Error α}
    {next : Seat → α → Collective β} {values : Seat → β} :
    Completes patience size (fun seat => Collective.ofExcept (results seat) >>= next seat) values ↔
      ∃ middle : Seat → α, (∀ seat : Seat, seat.size = size → results seat = .ok (middle seat)) ∧
        Completes patience size (fun seat => next seat (middle seat)) values :=
  completes_bind_iff (settles_done results)

/-- A result makes a difference only by whether there is one, if the rest is the same for each that
there can be. -/
theorem completes_checked_iff [Inhabited α] {results : Seat → Except Error α}
    {next : Seat → α → Collective β} {rest : Seat → Collective β} {values : Seat → β}
    (same : ∀ seat : Seat, seat.size = size → ∀ value, results seat = .ok value →
      next seat value = rest seat) :
    Completes patience size (fun seat => Collective.ofExcept (results seat) >>= next seat) values ↔
      (∀ seat : Seat, seat.size = size → ∃ value, results seat = .ok value) ∧
        Completes patience size rest values := by
  rw [completes_ofExcept_iff]
  constructor
  · rintro ⟨middle, succeeded, completes⟩
    constructor
    · intro seat inGroup
      exact ⟨middle seat, succeeded seat inGroup⟩
    · apply (completes_congr _).1 completes
      intro seat inGroup
      exact same seat inGroup _ (succeeded seat inGroup)
  · rintro ⟨succeeded, completes⟩
    rcases exists_values succeeded with ⟨middle, chosen⟩
    refine ⟨middle, chosen, ?_⟩
    apply (completes_congr _).2 completes
    intro seat inGroup
    exact same seat inGroup _ (chosen seat inGroup)

/-- A check that yields nothing only has to be passed. -/
theorem completes_required_iff {results : Seat → Except Error Unit} {next : Seat → Collective β}
    {values : Seat → β} :
    Completes patience size (fun seat => Collective.ofExcept (results seat) >>= fun _ => next seat)
        values ↔
      (∀ seat : Seat, seat.size = size → ∃ value, results seat = .ok value) ∧
        Completes patience size next values :=
  completes_checked_iff fun _ _ _ _ => rfl

theorem completes_pure_iff {results values : Seat → α} :
    Completes patience size (fun seat => pure (results seat)) values ↔
      ∀ seat : Seat, seat.size = size → results seat = values seat := by
  constructor
  · rintro ⟨mail, reaches⟩
    have ended : Ended (ofCall size fun seat => (pure (results seat) : Collective α).run) :=
      ended_ofValues _ ∅
    have same := ended.eq_of_reaches reaches.impatient
    intro seat inGroup
    have programs := congrArg (fun group => group.programs[seat.rank.toNat]?) same
    rw [ofCall] at programs
    simp only [List.getElem?_map, Seat.getElem?_all inGroup, Option.map_some] at programs
    exact Except.ok.inj (Program.done.inj (Option.some.inj programs))
  · intro same
    have begun : ofCall size (fun seat => (pure (results seat) : Collective α).run) =
        ofCall size fun seat => (pure (values seat) : Collective α).run :=
      ofCall_congr fun seat inGroup => by rw [same seat inGroup]
    exact ⟨∅, begun ▸ .refl _⟩

end Group

end Subdomain
