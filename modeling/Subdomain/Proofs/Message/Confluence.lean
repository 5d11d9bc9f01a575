import Subdomain.Message.Group

/-!
# The order of steps does not matter

Ranks share the mail, and still no rank can change what another is about to do: queues belong to one
sender and one receiver, a send only lengthens a queue, and a rank gives up only on a message that no
sends and receives can bring.  Two moves of different ranks can therefore be made in either order, and what one schedule
reaches by sends and receives, every other schedule can still reach.
-/

namespace Subdomain

namespace Mail

/-- A message is taken from the front of its queue, and nothing else changes. -/
theorem take?_eq_some_iff {mail rest : Mail} {address : Address} {body : Bytes} :
    mail.take? address = some (body, rest) ↔
      mail.queue address = body :: rest.queue address ∧
        ∀ other, other ≠ address → rest.queue other = mail.queue other := by
  constructor
  · exact queue_of_take?
  · intro taken
    unfold take?
    rw [taken.1]
    change some (body, mail.setQueue address (rest.queue address)) = some (body, rest)
    congr 2
    apply Mail.ext
    intro other
    rw [queue_setQueue]
    split
    · next same => rw [same]
    · next different => exact (taken.2 other different).symm

theorem post_comm {first second : Address} (different : first ≠ second) (mail : Mail)
    (firstBody secondBody : Bytes) :
    (mail.post first firstBody).post second secondBody =
      (mail.post second secondBody).post first firstBody := by
  apply Mail.ext
  intro address
  simp only [queue_post, different, different.symm, if_false]
  by_cases isFirst : address = first
  · simp [isFirst, different]
  · by_cases isSecond : address = second
    · simp [isSecond, different.symm]
    · simp [isFirst, isSecond]

/-- A message that can be taken can be taken after another was sent. -/
theorem take?_post {mail rest : Mail} {address : Address} {body : Bytes}
    (taken : mail.take? address = some (body, rest)) (other : Address) (posted : Bytes) :
    (mail.post other posted).take? address = some (body, rest.post other posted) := by
  rw [take?_eq_some_iff] at taken ⊢
  constructor
  · rw [queue_post, queue_post]
    split
    · next same =>
      subst same
      rw [taken.1, List.cons_append]
    · exact taken.1
  · intro third different
    rw [queue_post, queue_post, taken.2 third different]
    split
    · next same =>
      subst same
      rw [taken.2 third different]
    · rfl

theorem take?_comm {mail firstRest secondRest : Mail} {first second : Address}
    {firstBody secondBody : Bytes} (different : first ≠ second)
    (takenFirst : mail.take? first = some (firstBody, firstRest))
    (takenSecond : mail.take? second = some (secondBody, secondRest)) :
    ∃ rest, firstRest.take? second = some (secondBody, rest) ∧
      secondRest.take? first = some (firstBody, rest) := by
  rw [take?_eq_some_iff] at takenFirst takenSecond
  exists firstRest.setQueue second (secondRest.queue second)
  constructor
  · rw [take?_eq_some_iff]
    constructor
    · rw [queue_setQueue, if_pos rfl, takenFirst.2 second different.symm, takenSecond.1]
    · intro other elsewhere
      rw [queue_setQueue, if_neg elsewhere]
  · rw [take?_eq_some_iff]
    constructor
    · rw [queue_setQueue, if_neg different, takenSecond.2 first different, takenFirst.1]
    · intro other elsewhere
      rw [queue_setQueue]
      split
      · next same => rw [same]
      · next apart => rw [takenFirst.2 other elsewhere, takenSecond.2 other apart]

end Mail

/-- What one rank does in a step, given the mail. -/
inductive Program.Acts {α : Type} (rank : Rank) :
    Program α → Mail → Program α → Mail → Prop where
  | send {dst : Rank} {tag : Tag} {body : Bytes} {next : Program α} {mail : Mail} :
      Acts rank (.send dst tag body next) mail next (mail.post ⟨rank, dst, tag⟩ body)
  | receive {src : Rank} {tag : Tag} {next : Option Bytes → Program α} {body : Bytes}
      {mail rest : Mail} (taken : mail.take? ⟨src, rank, tag⟩ = some (body, rest)) :
      Acts rank (.receive src tag next) mail (next (some body)) rest

namespace Program.Acts

variable {α : Type} {rank first second : Rank} {program left right : Program α}
  {mail leftMail rightMail : Mail}

theorem deterministic (one : Acts rank program mail left leftMail)
    (other : Acts rank program mail right rightMail) : left = right ∧ leftMail = rightMail := by
  cases one with
  | send =>
      cases other
      exact ⟨rfl, rfl⟩
  | receive taken =>
      cases other with
      | receive takenAgain =>
          rw [taken] at takenAgain
          cases takenAgain
          exact ⟨rfl, rfl⟩

/-- Two ranks act on the mail in either order to the same effect. -/
theorem comm {firstProgram secondProgram : Program α} (different : first ≠ second)
    (one : Acts first firstProgram mail left leftMail)
    (other : Acts second secondProgram mail right rightMail) :
    ∃ rest, Acts second secondProgram leftMail right rest ∧
      Acts first firstProgram rightMail left rest := by
  cases one with
  | send =>
      cases other with
      | send =>
          rename_i firstDst firstTag firstBody secondDst secondTag secondBody
          have apart : (⟨second, secondDst, secondTag⟩ : Address) ≠ ⟨first, firstDst, firstTag⟩ := by
            intro same
            exact different (Address.mk.inj same).1.symm
          exists (mail.post ⟨first, firstDst, firstTag⟩ firstBody).post
            ⟨second, secondDst, secondTag⟩ secondBody
          constructor
          · exact .send
          · rw [← Mail.post_comm apart]
            exact .send
      | receive taken => exact ⟨_, .receive (Mail.take?_post taken _ _), .send⟩
  | receive taken =>
      cases other with
      | send => exact ⟨_, .send, .receive (Mail.take?_post taken _ _)⟩
      | receive takenOther =>
          rename_i firstSrc firstTag _ _ secondSrc secondTag _ _
          have apart : (⟨firstSrc, first, firstTag⟩ : Address) ≠ ⟨secondSrc, second, secondTag⟩ := by
            intro same
            exact different (Address.mk.inj same).2.1
          rcases Mail.take?_comm apart taken takenOther with ⟨rest, leftTaken, rightTaken⟩
          exact ⟨rest, .receive leftTaken, .receive rightTaken⟩

end Program.Acts

namespace Group

variable {α : Type} {group left right moved : Group α}

/-! ## Moves of one rank -/

/-- A step is what one rank does. -/
theorem step_iff : Step group moved ↔ ∃ position before after mail,
    group.programs[position]? = some before ∧
      before.Acts (rankAt position) group.mail after mail ∧
      moved = ⟨group.programs.set position after, mail⟩ := by
  constructor
  · intro step
    cases step with
    | send found => exact ⟨_, _, _, _, found, .send, rfl⟩
    | receive found taken => exact ⟨_, _, _, _, found, .receive taken, rfl⟩
  · rintro ⟨position, before, after, mail, found, acts, rfl⟩
    cases acts with
    | send => exact .send found
    | receive taken => exact .receive found taken

/-- Positions that ranks can number. -/
def Numbered (group : Group α) : Prop := group.programs.length ≤ UInt64.size

theorem rankAt_ne {first second : Nat} (firstSmall : first < UInt64.size)
    (secondSmall : second < UInt64.size) (different : first ≠ second) :
    rankAt first ≠ rankAt second := by
  intro same
  apply different
  have numbers := congrArg UInt64.toNat same
  rwa [rankAt, rankAt, UInt64.toNat_ofNat_of_lt' firstSmall,
    UInt64.toNat_ofNat_of_lt' secondSmall] at numbers

theorem Numbered.lt (numbered : Numbered group) {position : Nat} {program : Program α}
    (found : group.programs[position]? = some program) : position < UInt64.size := by
  have inside := (List.getElem?_eq_some_iff.1 found).1
  exact Nat.lt_of_lt_of_le inside numbered

theorem Numbered.move (numbered : Numbered group) (move : Move group moved) : Numbered moved := by
  rcases continues_of_move move with ⟨position, before, after, _, _, programs⟩
  rwa [Numbered, programs, List.length_set]

/-- What never comes does not come later either. -/
theorem Lost.step {address : Address} (lost : group.Lost address) (step : Step group moved) :
    moved.Lost address :=
  fun later steps => lost later (.head step steps)

/-- One rank steps and one moves: either it is the same rank and the same move, or each can follow
the other. -/
theorem step_move_diamond (numbered : Numbered group) (step : Step group left)
    (move : Move group right) :
    left = right ∨ ∃ last, Move left last ∧ Step right last := by
  rcases step_iff.1 step with ⟨position, before, after, mail, found, acts, rfl⟩
  cases move with
  | inl other =>
      rcases step_iff.1 other with ⟨place, beforeOther, afterOther, mailOther, foundOther, actsOther, rfl⟩
      by_cases here : position = place
      · subst here
        rw [found] at foundOther
        cases foundOther
        rcases acts.deterministic actsOther with ⟨sameProgram, sameMail⟩
        exact .inl (by rw [sameProgram, sameMail])
      · right
        have apart := rankAt_ne (numbered.lt found) (numbered.lt foundOther) here
        rcases acts.comm apart actsOther with ⟨rest, actsLater, actsFirst⟩
        exists ⟨(group.programs.set position after).set place afterOther, rest⟩
        constructor
        · left
          apply step_iff.2
          refine ⟨place, beforeOther, afterOther, rest, ?_, actsLater, rfl⟩
          rw [← foundOther]
          exact List.getElem?_set_ne here
        · apply step_iff.2
          refine ⟨position, before, after, rest, ?_, actsFirst, ?_⟩
          · rw [← found]
            exact List.getElem?_set_ne (Ne.symm here)
          · rw [List.set_comm _ _ here]
  | inr giveUp =>
      cases giveUp with
      | giveUp foundOther lost =>
          rename_i place src tag next
          right
          have here : position ≠ place := by
            intro same
            subst same
            rw [found] at foundOther
            cases foundOther
            cases acts with
            | receive taken =>
                rw [lost group (.refl group)] at taken
                cases taken
          exists ⟨(group.programs.set position after).set place (next none), mail⟩
          constructor
          · right
            apply GiveUp.giveUp _ (lost.step step)
            rw [← foundOther]
            exact List.getElem?_set_ne here
          · apply step_iff.2
            refine ⟨position, before, after, mail, ?_, acts, ?_⟩
            · rw [← found]
              exact List.getElem?_set_ne (Ne.symm here)
            · rw [List.set_comm _ _ here]

/-! ## Schedules -/

section Schedules

variable {first middle last final : Group α} {relation : Group α → Group α → Prop}

theorem Reaches.trans (front : Reaches relation first middle)
    (back : Reaches relation middle last) : Reaches relation first last := by
  induction back with
  | refl => exact front
  | tail _ move ih => exact .tail ih move

theorem Reaches.moves (steps : Reaches Step first last) : Reaches Move first last := by
  induction steps with
  | refl => exact .refl _
  | tail _ step ih => exact .tail ih (.inl step)

theorem Reaches.numbered (moves : Reaches Move first last) (numbered : Numbered first) :
    Numbered last := by
  induction moves with
  | refl => exact numbered
  | tail _ move ih => exact ih.move move

/-- One step on one side is caught up with by one step at most on the other. -/
theorem step_reaches_diamond (numbered : Numbered group) (step : Step group left)
    (moves : Reaches Move group right) :
    ∃ last, Reaches Move left last ∧ (right = last ∨ Step right last) := by
  induction moves with
  | refl => exact ⟨left, .refl left, .inr step⟩
  | tail front move ih =>
      rename_i middle right
      rcases ih with ⟨last, leftMoves, caughtUp⟩
      cases caughtUp with
      | inl same =>
          subst same
          exact ⟨right, .tail leftMoves move, .inl rfl⟩
      | inr behind =>
          cases step_move_diamond (front.numbered numbered) behind move with
          | inl same =>
              subst same
              exact ⟨last, leftMoves, .inl rfl⟩
          | inr joined =>
              rcases joined with ⟨next, moveOn, catchUp⟩
              exact ⟨next, .tail leftMoves moveOn, .inr catchUp⟩

/-- Whatever is reached by steps and whatever is reached by moves can be joined again, by moves from
the one and steps from the other. -/
theorem reaches_commute (numbered : Numbered group) (steps : Reaches Step group left)
    (moves : Reaches Move group right) :
    ∃ last, Reaches Move left last ∧ Reaches Step right last := by
  induction steps with
  | refl => exact ⟨right, moves, .refl right⟩
  | tail front step ih =>
      rcases ih with ⟨middle, middleMoves, rightSteps⟩
      rcases step_reaches_diamond (front.moves.numbered numbered) step middleMoves with
        ⟨last, leftMoves, caughtUp⟩
      apply Exists.intro last
      apply And.intro leftMoves
      cases caughtUp with
      | inl same => exact same ▸ rightSteps
      | inr behind => exact .tail rightSteps behind

theorem Ended.not_move (ended : Ended group) : ¬ Move group moved := by
  intro move
  rcases continues_of_move move with ⟨position, before, after, found, continues, _⟩
  have done := ended _ (List.mem_of_getElem? found)
  cases continues <;> cases done

theorem Ended.eq_of_reaches (ended : Ended group) (moves : Reaches Move group last) :
    group = last := by
  induction moves with
  | refl => rfl
  | tail _ move ih =>
      subst ih
      exact absurd move ended.not_move

/-- An outcome that is reached at all is still reached after any sends and receives. -/
theorem reaches_outcome (numbered : Numbered group) (steps : Reaches Step group middle)
    (moves : Reaches Move group final) (ended : Ended final) : Reaches Move middle final := by
  rcases reaches_commute numbered steps moves with ⟨last, joined, back⟩
  rw [ended.eq_of_reaches back.moves]
  exact joined

theorem Reaches.eq_or_step {first last : Group α} (steps : Reaches Step first last) :
    first = last ∨ ∃ next, Step first next := by
  induction steps with
  | refl => exact .inl rfl
  | tail _ step ih =>
      cases ih with
      | inl same => exact .inr ⟨_, same ▸ step⟩
      | inr some => exact .inr some

/-- Sends and receives come to a stop. -/
theorem exists_stuck (group : Group α) :
    ∃ last, Reaches Step group last ∧ ∀ moved, ¬ Step last moved := by
  rcases group with ⟨programs, mail⟩
  induction advances_acc programs generalizing mail with
  | intro programs _ ih =>
      by_cases stuck : ∀ moved, ¬ Step ⟨programs, mail⟩ moved
      · exact ⟨_, .refl _, stuck⟩
      · rcases Classical.not_forall.1 stuck with ⟨moved, stepped⟩
        have step := Classical.not_not.1 stepped
        rcases ih _ (advances_of_move (.inl step)) moved.mail with ⟨last, steps, stop⟩
        exact ⟨last, .head step steps, stop⟩

/-- An outcome that is reached by sends and receives is the only one, and no rank ever gives up. -/
theorem steps_outcome (numbered : Numbered group) (steps : Reaches Step group final)
    (ended : Ended final) (moves : Reaches Move group middle) : Reaches Step middle final := by
  rcases reaches_commute numbered steps moves with ⟨last, onward, joined⟩
  rw [ended.eq_of_reaches onward]
  exact joined

/-- What a rank has ended with it keeps. -/
theorem Reaches.done {position : Nat} {value : α} (moves : Reaches Move first last)
    (found : first.programs[position]? = some (.done value)) :
    last.programs[position]? = some (.done value) := by
  induction moves with
  | refl => exact found
  | tail _ move ih =>
      rcases continues_of_move move with ⟨place, before, after, running, continues, programs⟩
      rw [programs, List.getElem?_set_ne, ih]
      rintro rfl
      rw [ih] at running
      cases running
      cases continues

end Schedules

end Group

end Subdomain
