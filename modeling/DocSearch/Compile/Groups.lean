/-!
# Priority groups

AND binds tighter than OR: a list whose members are joined by AND and OR falls into groups, of which
each is a run of members joined by AND. A member joined by OR opens a group; what joins the first
member does not matter.
-/

namespace DocSearch.Compile

/-- Splits a list before every member that opens a group, the first one apart. -/
def priorityGroups {α : Type} (opens : α → Bool) : List α → List (List α)
  | [] => []
  | a :: rest =>
    match rest, priorityGroups opens rest with
    | next :: _, group :: groups =>
      if opens next then [a] :: group :: groups else (a :: group) :: groups
    | _, _ => [[a]]

/-- How the groups of a query are combined. -/
inductive Combinator where
  /-- There is at most one group, and all of it holds. -/
  | must
  /-- One of several groups holds. -/
  | should
  deriving DecidableEq

namespace Combinator

def ofCount (groups : Nat) : Combinator := if groups ≤ 1 then must else should

def name : Combinator → String
  | must => "must"
  | should => "should"

end Combinator

end DocSearch.Compile
