import Subdomain.Halo.Coloring
import Subdomain.Memory

/-!
# Summaries in words

A summary travels as words: the three counts, the sizes of the two rank sets, then their members.
-/

namespace Subdomain

namespace Summary

/-- Words before the members of the rank sets. -/
def headerLength : Nat := 5

/-- The counts and the sizes of the rank sets. -/
def header (summary : Summary) : List UInt64 :=
  [summary.exclusive, summary.shared, summary.ghost,
    .ofNat summary.sharedUsers.size, .ofNat summary.ghostOwners.size]

/-- The words of a summary. -/
def encode (summary : Summary) : List UInt64 :=
  summary.header ++ summary.sharedUsers.toList ++ summary.ghostOwners.toList

/-- The summary that some words describe, or nothing if they are too few or too many. The length that
they announce has to fit in a word. -/
def decode? : List UInt64 → Except Error (Option Summary)
  | exclusive :: shared :: ghost :: users :: owners :: members =>
    if maxWord < headerLength + users.toNat + owners.toNat then .error (.defect .wordOverflow)
    else if members.length = users.toNat + owners.toNat then
      .ok (some {
        exclusive, shared, ghost
        sharedUsers := .ofList (members.take users.toNat)
        ghostOwners := .ofList (members.drop users.toNat) })
    else .ok none
  | _ => .ok none

end Summary

end Subdomain
