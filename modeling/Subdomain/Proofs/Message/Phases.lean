import Subdomain.Proofs.Message.Failure

/-!
# Calls in two phases

A call may go on after a phase that is decided for the group.  Then either all ranks get through the
phase, with values of which something is known, and end as they would if they had started from there;
or none of them ever does, and what they would have gone on with makes no difference.  So something holds
of every outcome of the call if it holds of the errors of the phase and of what comes after.
-/

namespace Subdomain

namespace Program

variable {α β : Type}

/-- Whatever a program receives, something holds of the value that it ends with. -/
inductive Yields (holds : α → Prop) : Program α → Prop where
  | done {value : α} (here : holds value) : Yields holds (.done value)
  | send {dst : Rank} {tag : Tag} {body : Bytes} {next : Program α} (rest : Yields holds next) :
      Yields holds (.send dst tag body next)
  | receive {src : Rank} {tag : Tag} {next : Option Bytes → Program α}
      (rest : ∀ body, Yields holds (next body)) : Yields holds (.receive src tag next)

variable {holds : α → Prop} {program after : Program α}

theorem Yields.bind {ends : β → Prop} {next : α → Program β} (yields : program.Yields holds)
    (rest : ∀ value, holds value → (next value).Yields ends) : (program.bind next).Yields ends := by
  induction yields with
  | done here => exact rest _ here
  | send _ ih => exact .send ih
  | receive _ ih => exact .receive ih

theorem Yields.mono {weaker : α → Prop} (yields : program.Yields holds)
    (weaken : ∀ value, holds value → weaker value) : program.Yields weaker := by
  induction yields with
  | done here => exact .done (weaken _ here)
  | send _ ih => exact .send ih
  | receive _ ih => exact .receive ih

theorem Yields.continues (yields : program.Yields holds) (later : Continues after program) :
    after.Yields holds := by
  cases later with
  | send =>
      cases yields with
      | send rest => exact rest
  | receive =>
      cases yields with
      | receive rest => exact rest _

end Program

/-! ## Errors of a call -/

namespace Collective

variable {α β : Type} {allowed : Error → Prop} {call : Collective α} {next : α → Collective β}

/-- Whatever a call receives, it ends in no other errors than these. -/
def Raises (allowed : Error → Prop) (call : Collective α) : Prop :=
  call.run.Yields fun outcome => ∀ error, outcome = .error error → allowed error

theorem raises_ofExcept {result : Except Error α} (errors : ∀ error, result = .error error → allowed error) :
    Raises allowed (ofExcept result) := .done errors

theorem raises_pure (value : α) : Raises allowed (pure value : Collective α) := .done nofun

theorem raises_throw {error : Error} (here : allowed error) :
    Raises allowed (throw error : Collective α) := by
  apply Program.Yields.done
  intro other same
  cases same
  exact here

theorem Raises.bind (first : Raises allowed call) (rest : ∀ value, Raises allowed (next value)) :
    Raises allowed (call >>= next) := by
  apply Program.Yields.bind first
  intro outcome errors
  cases outcome with
  | error error =>
      apply Program.Yields.done
      intro other same
      cases same
      exact errors error rfl
  | ok value => exact rest value

theorem Raises.mono {wider : Error → Prop} (raises : Raises allowed call)
    (widen : ∀ error, allowed error → wider error) : Raises wider call :=
  Program.Yields.mono raises fun _ errors error failed => widen error (errors error failed)

end Collective

namespace Group

variable {α β : Type} {size : Rank} {group moved last : Group α}

/-- What holds of the ends of a rank's program still holds of the ends of what is left of it. -/
theorem Program.Yields.reaches {call : Seat → Program α} {holds : Seat → α → Prop}
    (yields : ∀ seat : Seat, seat.size = size → (call seat).Yields (holds seat))
    (reached : Reaches Move (ofCall size call) group) {seat : Seat} (inGroup : seat.size = size)
    {program : Program α} (found : group.programs[seat.rank.toNat]? = some program) :
    program.Yields (holds seat) := by
  induction reached generalizing program with
  | refl =>
      rw [getElem?_ofCall inGroup] at found
      cases found
      exact yields seat inGroup
  | tail _ move ih =>
      rcases continues_of_move move with ⟨position, before, after, located, continues, programs⟩
      rw [programs, List.getElem?_set] at found
      split at found
      · next here =>
        subst here
        split at found
        · cases found
          exact (ih located).continues continues
        · cases found
      · exact ih found

/-! ## Outcomes -/

/-- Under every schedule, something holds of the outcome of each rank that ends. -/
def Outcomes (size : Rank) (call : Seat → Collective α) (holds : Seat → Except Error α → Prop) :
    Prop :=
  ∀ group, Reaches Move (ofCall size fun seat => (call seat).run) group →
    ∀ seat : Seat, seat.size = size → ∀ outcome,
      group.programs[seat.rank.toNat]? = some (.done outcome) → holds seat outcome

/-- All that has ended in one group has ended in the same way in another. -/
def Within (group last : Group α) : Prop :=
  ∀ (position : Nat) (value : α), group.programs[position]? = some (.done value) →
    last.programs[position]? = some (.done value)

/-- Whatever some ranks end with in one call, they can all end with in another. -/
def Refines (size : Rank) (call other : Seat → Collective α) : Prop :=
  ∀ group, Reaches Move (ofCall size fun seat => (call seat).run) group →
    ∃ last, Reaches Move (ofCall size fun seat => (other seat).run) last ∧ Within group last

/-- The ranks can end in the same ways in two calls. -/
def SameEnds (size : Rank) (call other : Seat → Collective α) : Prop :=
  Refines size call other ∧ Refines size other call

theorem Reaches.within (moves : Reaches Move group last) : Within group last :=
  fun _ _ found => moves.done found

theorem refines_of_eq {call other : Seat → Collective α}
    (same : ∀ seat : Seat, seat.size = size → call seat = other seat) : Refines size call other := by
  intro group reached
  rw [ofCall_congr fun seat inGroup => congrArg ExceptT.run (same seat inGroup)] at reached
  exact ⟨group, reached, fun _ _ found => found⟩

theorem Refines.trans {call middle last : Seat → Collective α} (first : Refines size call middle)
    (second : Refines size middle last) : Refines size call last := by
  intro group reached
  rcases first group reached with ⟨between, moves, within⟩
  rcases second between moves with ⟨final, onward, withinFinal⟩
  exact ⟨final, onward, fun position value found => withinFinal _ _ (within _ _ found)⟩

theorem Settles.outcomes {call : Seat → Collective α} {results : Seat → Except Error α}
    (settles : Settles size (fun seat => (call seat).run) results)
    {holds : Seat → Except Error α → Prop}
    (each : ∀ seat : Seat, seat.size = size → holds seat (results seat)) : Outcomes size call holds :=
  fun group reached => (settles.ensures each group reached).2.2

theorem outcomes_ofExcept {results : Seat → Except Error α} {holds : Seat → Except Error α → Prop}
    (each : ∀ seat : Seat, seat.size = size → holds seat (results seat)) :
    Outcomes size (fun seat => Collective.ofExcept (results seat)) holds :=
  Settles.outcomes (settles_done results) each

theorem Outcomes.mono {call : Seat → Collective α} {holds weaker : Seat → Except Error α → Prop}
    (outcomes : Outcomes size call holds)
    (weaken : ∀ seat : Seat, seat.size = size → ∀ outcome, holds seat outcome → weaker seat outcome) :
    Outcomes size call weaker :=
  fun group reached seat inGroup outcome found =>
    weaken seat inGroup outcome (outcomes group reached seat inGroup outcome found)

theorem outcomes_of_raises {call : Seat → Collective α} {allowed : Seat → Error → Prop}
    (raises : ∀ seat : Seat, seat.size = size → Collective.Raises (allowed seat) (call seat)) :
    Outcomes size call fun seat outcome => ∀ error, outcome = .error error → allowed seat error := by
  intro group reached seat inGroup outcome found
  have yields := Program.Yields.reaches raises reached inGroup found
  cases yields with
  | done here => exact here

/-! ## A phase with which all is over -/

/-- The ranks of one group go on with something after what the ranks of the other do. -/
structure Extends (size : Rank) (next : Seat → α → Program β) (group : Group α) (longer : Group β) :
    Prop where
  count : group.programs.length = size.toNat
  countLonger : longer.programs.length = size.toNat
  programs : ∀ seat : Seat, seat.size = size → longer.programs[seat.rank.toNat]? =
    (group.programs[seat.rank.toNat]?).map fun program => program.bind (next seat)
  mail : longer.mail = group.mail

/-- A rank that ends in a call, under whatever schedule, has no more to send or receive. -/
def Concludes (size : Rank) (first : Seat → Program α) (next : Seat → α → Program β) : Prop :=
  ∀ group, Reaches Move (ofCall size first) group → ∀ seat : Seat, seat.size = size → ∀ value,
    group.programs[seat.rank.toNat]? = some (.done value) → ∃ result, next seat value = .done result

section Extends

variable {first : Seat → Program α} {next : Seat → α → Program β} {group : Group α}
  {longer : Group β} {seat : Seat}

theorem extends_ofCall (first : Seat → Program α) :
    Extends size next (ofCall size first) (ofCall size fun seat => (first seat).bind (next seat)) where
  count := by rw [ofCall, List.length_map, Seat.length_all]
  countLonger := by rw [ofCall, List.length_map, Seat.length_all]
  programs seat inGroup := by
    rw [getElem?_ofCall inGroup, getElem?_ofCall inGroup]
    rfl
  mail := rfl

/-- Every position with a program is the place of a rank. -/
theorem exists_seat {programs : List (Program α)} (count : programs.length = size.toNat)
    {position : Nat} {program : Program α} (found : programs[position]? = some program) :
    ∃ seat : Seat, seat.size = size ∧ seat.rank.toNat = position := by
  have inside : position < size.toNat := count ▸ (List.getElem?_eq_some_iff.1 found).1
  rcases Seat.exists_getElem?_all inside with ⟨seat, _, number, inGroup⟩
  exact ⟨seat, inGroup, number⟩

theorem Extends.set (extension : Extends size next group longer) (inGroup : seat.size = size)
    (program : Program α) (mail : Mail) :
    Extends size next ⟨group.programs.set seat.rank.toNat program, mail⟩
      ⟨longer.programs.set seat.rank.toNat (program.bind (next seat)), mail⟩ where
  count := by rw [List.length_set, extension.count]
  countLonger := by rw [List.length_set, extension.countLonger]
  programs other otherInGroup := by
    dsimp only
    rw [List.getElem?_set, List.getElem?_set, extension.count, extension.countLonger]
    by_cases here : seat.rank.toNat = other.rank.toNat
    · have same : seat = other :=
        Seat.eq_of_rank (inGroup.trans otherInGroup.symm) (UInt64.toNat_inj.1 here)
      subst same
      have inside : seat.rank.toNat < size.toNat := inGroup ▸ seat.toNat_lt
      simp [inside]
    · rw [if_neg here, if_neg here]
      exact extension.programs other otherInGroup
  mail := rfl

/-- A rank goes on in the longer call where it does in the shorter one. -/
theorem Extends.relocate (extension : Extends size next group longer) {position : Nat}
    {program : Program α} (found : group.programs[position]? = some program) :
    ∃ seat : Seat, seat.size = size ∧ seat.rank.toNat = position ∧
      longer.programs[position]? = some (program.bind (next seat)) := by
  rcases exists_seat extension.count found with ⟨seat, inGroup, rfl⟩
  refine ⟨seat, inGroup, rfl, ?_⟩
  rw [extension.programs seat inGroup, found, Option.map_some]

theorem Extends.relocate_back (extension : Extends size next group longer) {position : Nat}
    {program : Program β} (found : longer.programs[position]? = some program) :
    ∃ (seat : Seat) (shorter : Program α), seat.size = size ∧ seat.rank.toNat = position ∧
      group.programs[position]? = some shorter ∧ program = shorter.bind (next seat) := by
  rcases exists_seat extension.countLonger found with ⟨seat, inGroup, rfl⟩
  have located := extension.programs seat inGroup
  rw [found] at located
  rcases Option.map_eq_some_iff.1 located.symm with ⟨shorter, here, rfl⟩
  exact ⟨seat, shorter, inGroup, rfl, here, rfl⟩

/-- What a program does, it does also if it is to go on. -/
theorem acts_bind {rank : Rank} {before after : Program α} {mail rest : Mail}
    (acts : before.Acts rank mail after rest) (continuation : α → Program β) :
    (before.bind continuation).Acts rank mail (after.bind continuation) rest := by
  cases acts with
  | send => exact .send
  | receive taken => exact .receive taken

/-- What a program does, it does by itself if all is over once it has ended. -/
theorem acts_of_bind {rank : Rank} {before : Program α} {after : Program β} {mail rest : Mail}
    {continuation : α → Program β}
    (concluded : ∀ value, before = .done value → ∃ result, continuation value = .done result)
    (acts : (before.bind continuation).Acts rank mail after rest) :
    ∃ shorter, before.Acts rank mail shorter rest ∧ after = shorter.bind continuation := by
  cases before with
  | done value =>
      rcases concluded value rfl with ⟨result, ended⟩
      rw [Program.bind, ended] at acts
      cases acts
  | send dst tag body later =>
      cases acts
      exact ⟨later, .send, rfl⟩
  | receive src tag later =>
      cases acts with
      | receive taken => exact ⟨_, .receive taken, rfl⟩

theorem Extends.step (extension : Extends size next group longer) {moved : Group α}
    (step : Step group moved) : ∃ onward, Step longer onward ∧ Extends size next moved onward := by
  rcases step_iff.1 step with ⟨position, before, after, mail, found, acts, rfl⟩
  rcases extension.relocate found with ⟨seat, inGroup, rfl, located⟩
  rw [← extension.mail] at acts
  exact ⟨_, step_iff.2 ⟨_, _, _, _, located, acts_bind acts (next seat), rfl⟩,
    extension.set inGroup after mail⟩

theorem Concludes.step_back (concludes : Concludes size first next)
    (reached : Reaches Move (ofCall size first) group) (extension : Extends size next group longer)
    {onward : Group β} (step : Step longer onward) :
    ∃ moved, Step group moved ∧ Extends size next moved onward := by
  rcases step_iff.1 step with ⟨position, before, after, mail, found, acts, rfl⟩
  rcases extension.relocate_back found with ⟨seat, shorter, inGroup, rfl, located, rfl⟩
  rw [extension.mail] at acts
  have concluded : ∀ value, shorter = .done value → ∃ result, next seat value = .done result := by
    rintro value rfl
    exact concludes group reached seat inGroup value located
  rcases acts_of_bind concluded acts with ⟨program, shorterActs, rfl⟩
  exact ⟨_, step_iff.2 ⟨_, _, _, _, located, shorterActs, rfl⟩, extension.set inGroup program mail⟩

/-- What never comes in one of the calls does not come in the other. -/
theorem Concludes.lost_iff (concludes : Concludes size first next)
    (reached : Reaches Move (ofCall size first) group) (extension : Extends size next group longer)
    {address : Address} : longer.Lost address ↔ group.Lost address := by
  constructor
  · intro lost later steps
    have followed : ∃ onward, Reaches Step longer onward ∧ Extends size next later onward := by
      induction steps with
      | refl => exact ⟨longer, .refl longer, extension⟩
      | tail _ step ih =>
          rcases ih with ⟨middle, front, between⟩
          rcases between.step step with ⟨onward, last, extended⟩
          exact ⟨onward, .tail front last, extended⟩
    rcases followed with ⟨onward, steps, extended⟩
    exact extended.mail ▸ lost onward steps
  · intro lost onward steps
    have followed : ∃ later, Reaches Step group later ∧ Extends size next later onward := by
      induction steps with
      | refl => exact ⟨group, .refl group, extension⟩
      | tail _ step ih =>
          rcases ih with ⟨middle, front, between⟩
          rcases concludes.step_back (reached.trans front.moves) between step with
            ⟨later, last, extended⟩
          exact ⟨later, .tail front last, extended⟩
    rcases followed with ⟨later, steps, extended⟩
    exact extended.mail ▸ lost later steps

theorem Concludes.move (concludes : Concludes size first next)
    (reached : Reaches Move (ofCall size first) group) (extension : Extends size next group longer)
    {moved : Group α} (move : Move group moved) :
    ∃ onward, Move longer onward ∧ Extends size next moved onward := by
  cases move with
  | inl step =>
      rcases extension.step step with ⟨onward, stepped, extended⟩
      exact ⟨onward, .inl stepped, extended⟩
  | inr giveUp =>
      cases giveUp with
      | giveUp found lost =>
          rcases extension.relocate found with ⟨seat, inGroup, rfl, located⟩
          have gaveUp := GiveUp.giveUp located ((concludes.lost_iff reached extension).2 lost)
          rw [extension.mail] at gaveUp
          exact ⟨_, .inr gaveUp, extension.set inGroup _ _⟩

theorem Concludes.move_back (concludes : Concludes size first next)
    (reached : Reaches Move (ofCall size first) group) (extension : Extends size next group longer)
    {onward : Group β} (move : Move longer onward) :
    ∃ moved, Move group moved ∧ Extends size next moved onward := by
  cases move with
  | inl step =>
      rcases concludes.step_back reached extension step with ⟨moved, stepped, extended⟩
      exact ⟨moved, .inl stepped, extended⟩
  | inr giveUp =>
      cases giveUp with
      | giveUp found lost =>
          rcases extension.relocate_back found with ⟨seat, shorter, inGroup, rfl, located, same⟩
          have gone := (concludes.lost_iff reached extension).1 lost
          cases shorter with
          | send => cases same
          | done value =>
              rcases concludes group reached seat inGroup value located with ⟨result, ended⟩
              rw [Program.bind, ended] at same
              cases same
          | receive src tag later =>
              cases same
              rw [extension.mail]
              exact ⟨_, .inr (.giveUp located gone), extension.set inGroup _ _⟩

/-- By induction on the moves: the ranks go on in the longer call as they do in the shorter one, since
nothing is sent or received in what comes after it. -/
theorem Concludes.lift (concludes : Concludes size first next)
    (reached : Reaches Move (ofCall size first) group) :
    ∃ longer, Reaches Move (ofCall size fun seat => (first seat).bind (next seat)) longer ∧
      Extends size next group longer := by
  induction reached with
  | refl => exact ⟨_, .refl _, extends_ofCall first⟩
  | tail front move ih =>
      rcases ih with ⟨longer, moves, extension⟩
      rcases concludes.move front extension move with ⟨onward, later, extension⟩
      exact ⟨onward, .tail moves later, extension⟩

theorem Concludes.restrict (concludes : Concludes size first next)
    (reached : Reaches Move (ofCall size fun seat => (first seat).bind (next seat)) longer) :
    ∃ group, Reaches Move (ofCall size first) group ∧ Extends size next group longer := by
  induction reached with
  | refl => exact ⟨_, .refl _, extends_ofCall first⟩
  | tail front move ih =>
      rcases ih with ⟨group, moves, extension⟩
      rcases concludes.move_back moves extension move with ⟨moved, later, extension⟩
      exact ⟨moved, .tail moves later, extension⟩

/-- What has ended in the longer call, has ended in the shorter one, and goes on with an end. -/
theorem Extends.outcome (extension : Extends size next group longer) (inGroup : seat.size = size)
    {result : β} :
    longer.programs[seat.rank.toNat]? = some (.done result) ↔
      ∃ value, group.programs[seat.rank.toNat]? = some (.done value) ∧
        next seat value = .done result := by
  rw [extension.programs seat inGroup, Option.map_eq_some_iff]
  constructor
  · rintro ⟨program, found, same⟩
    cases program with
    | send => cases same
    | receive => cases same
    | done value => exact ⟨value, found, same⟩
  · rintro ⟨value, found, same⟩
    exact ⟨_, found, same⟩

/-- Nobody gets through a call that strands the group, and a failure is an end. -/
theorem Strands.concludes {first : Seat → Collective α} {next : Seat → α → Collective β}
    (strands : Strands size first) :
    Concludes size (fun seat => (first seat).run) fun seat => ExceptT.bindCont (next seat) := by
  intro group reached seat inGroup outcome found
  cases outcome with
  | ok value => exact absurd found (strands.not_ok reached)
  | error error => exact ⟨.error error, rfl⟩

end Extends

/-! ## From one phase to the next -/

section Phases

variable {first : Seat → Collective α} {next other : Seat → α → Collective β}
  {ends : (Seat → α) → Prop}

/-- Where the ranks all get through the first phase, a group that is on its way can get to where another
is that has started from there. -/
theorem Settles.overtake {values : Seat → α}
    (settles : Settles size (fun seat => (first seat).run) fun seat => .ok (values seat))
    {group : Group (Except Error β)}
    (reached : Reaches Move (ofCall size fun seat => (first seat >>= next seat).run) group) :
    ∃ last, Reaches Move (ofCall size fun seat => (next seat (values seat)).run) last ∧
      Within group last := by
  rcases reaches_commute (numbered_ofCall _) settles.reaches_next reached with ⟨last, onward, joined⟩
  exact ⟨last, onward, joined.moves.within⟩

/-- What holds of the errors of the first phase, and of the outcomes of the second wherever the first
leads, holds of the outcomes of both. -/
theorem Decides.outcomes {holds : Seat → Except Error β → Prop}
    (decides : Decides size first (fun _ => pure) ends)
    (failed : Outcomes size first fun seat outcome =>
      ∀ error, outcome = .error error → holds seat (.error error))
    (rest : ∀ values, ends values → Outcomes size (fun seat => next seat (values seat)) holds) :
    Outcomes size (fun seat => first seat >>= next seat) holds := by
  intro group reached seat inGroup outcome found
  cases decides.settles_or_strands with
  | inl ended =>
      rcases ended with ⟨values, settles, known⟩
      rcases settles.overtake reached with ⟨last, onward, within⟩
      exact rest values known last onward seat inGroup outcome (within _ _ found)
  | inr strands =>
      rcases strands.concludes.restrict reached with ⟨shorter, moves, extension⟩
      rcases (extension.outcome inGroup).1 found with ⟨result, here, same⟩
      cases result with
      | ok value => exact absurd here (strands.not_ok moves)
      | error error =>
          cases same
          exact failed shorter moves seat inGroup _ here error rfl

/-- Two calls with the same first phase have the same outcomes if they have from wherever the phase
leads. -/
theorem Decides.refines (decides : Decides size first (fun _ => pure) ends)
    (rest : ∀ values, ends values →
      Refines size (fun seat => next seat (values seat)) (fun seat => other seat (values seat))) :
    Refines size (fun seat => first seat >>= next seat) (fun seat => first seat >>= other seat) := by
  intro group reached
  cases decides.settles_or_strands with
  | inl ended =>
      rcases ended with ⟨values, settles, known⟩
      rcases settles.overtake reached with ⟨last, onward, within⟩
      rcases rest values known last onward with ⟨final, later, withinFinal⟩
      refine ⟨final, (Reaches.moves settles.reaches_next).trans later, ?_⟩
      intro position value found
      exact withinFinal _ _ (within _ _ found)
  | inr strands =>
      rcases strands.concludes.restrict reached with ⟨shorter, moves, extension⟩
      have concludes := @Strands.concludes _ _ _ _ other strands
      rcases concludes.lift moves with ⟨last, later, extensionToo⟩
      refine ⟨last, later, ?_⟩
      intro position value found
      rcases exists_seat extension.countLonger found with ⟨seat, inGroup, rfl⟩
      rcases (extension.outcome inGroup).1 found with ⟨result, here, same⟩
      cases result with
      | ok value => exact absurd here (strands.not_ok moves)
      | error error => exact (extensionToo.outcome inGroup).2 ⟨_, here, same⟩

end Phases

end Group

/-! ## Errors of exchanges -/

namespace Exchange

open Collective

/-- The errors in which exchanges end. -/
def Fault : Error → Prop
  | .commError .. | .messageSizeMismatch .. | .sendBufferCount .. | .defect _ => True
  | _ => False

variable {ρ : Type} [Record ρ] {tag : Tag}

theorem raises_post (messages : List (Rank × Bytes)) : Raises Fault (post tag messages) := by
  induction messages with
  | nil => exact raises_pure ()
  | cons message messages ih => exact Raises.bind (.send (.done nofun)) fun _ => ih

theorem raises_collect (srcs : List Rank) : Raises Fault (collect tag srcs) := by
  induction srcs with
  | nil => exact raises_pure []
  | cons src srcs ih =>
      apply Raises.bind (.receive fun _ => .done nofun)
      intro body
      exact ih.bind fun bodies => raises_pure _

theorem fault_of_readCount {peer : Rank} {body : Option Bytes} {error : Error}
    (failed : readCount peer body = .error error) : Fault error := by
  cases body with
  | none =>
      cases failed
      trivial
  | some bytes =>
      rw [readCount] at failed
      split at failed
      · cases failed
      · cases failed
        trivial

theorem fault_of_readPayload {peer : Rank} {count : UInt64} {body : Option Bytes} {error : Error}
    (failed : @readPayload ρ _ tag peer count body = .error error) : Fault error := by
  cases body with
  | none =>
      cases failed
      trivial
  | some bytes =>
      rw [readPayload] at failed
      split at failed
      · cases failed
      · cases failed
        trivial

omit [Record ρ] in
theorem raises_counts (seat : Seat) (outgoing : List (Rank × List ρ)) :
    Raises Fault (counts seat tag outgoing) := by
  apply (raises_post _).bind
  intro _
  apply (raises_collect _).bind
  intro bodies
  apply raises_ofExcept
  intro error failed
  rcases exists_of_mapM_eq_error failed with ⟨_, _, failed⟩
  exact fault_of_readCount failed

theorem raises_payloads (outgoing : List (Rank × List ρ)) (expected : List (Rank × UInt64)) :
    Raises Fault (payloads tag outgoing expected) := by
  have rest : Raises Fault (do
      post tag ((outgoing.filter fun entry => !entry.2.isEmpty).map fun entry =>
        (entry.1, Record.encodeMany entry.2))
      let bodies ← collect tag (expected.map Prod.fst)
      Collective.ofExcept ((expected.zip bodies).mapM fun entry =>
        @readPayload ρ _ tag entry.1.1 entry.1.2 entry.2.2)) := by
    apply (raises_post _).bind
    intro _
    apply (raises_collect _).bind
    intro bodies
    apply raises_ofExcept
    intro error failed
    rcases exists_of_mapM_eq_error failed with ⟨_, _, failed⟩
    exact fault_of_readPayload failed
  rw [payloads]
  split
  · exact (raises_throw trivial).bind fun _ => rest
  · exact rest

theorem raises_allToAll (seat : Seat) (buffers : List (List ρ)) :
    Raises Fault (allToAll seat buffers tag) := by
  rw [allToAll_eq]
  apply Raises.bind
  · apply raises_ofExcept
    intro error failed
    rw [checkBuffers] at failed
    split at failed
    · split at failed
      · cases failed
      · cases failed
        trivial
    · cases failed
      trivial
  · intro _
    apply (raises_counts seat _).bind
    intro announced
    exact (raises_payloads _ _).bind fun received => raises_pure _

theorem raises_allGather (seat : Seat) (records : List ρ) :
    Raises Fault (allGather seat records tag) := raises_allToAll seat _

end Exchange

end Subdomain
