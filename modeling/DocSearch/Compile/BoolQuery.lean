import DocSearch.Compile.Clause
import DocSearch.Compile.Groups

/-!
# Boolean queries

The query document of a list of predicates. The predicates are compiled one by one to members, each a
clause with what its predicate says about it; the members are then arranged by priority group into one
boolean query.
-/

namespace DocSearch.Compile

structure Member where
  /-- Whether the predicate is joined by OR. -/
  isOr : Bool
  /-- Whether the predicate holds where the clause does not. -/
  isNegated : Bool
  clause : Json

/-- The query that every document matches. -/
def matchAll : Json := .single "match_all" (.object [])

/-- The boolean query in which all clauses hold. -/
def allOf (clauses : List Json) : Json := .single "bool" (.single "must" (.array clauses))

/-- The boolean query in which a clause does not hold. -/
def noneOf (clause : Json) : Json := .single "bool" (.single "must_not" clause)

/-- The clauses of a group that have to hold. -/
def positives (group : List Member) : List Json :=
  (group.filter (!·.isNegated)).map Member.clause

/-- The clauses of a group that must not hold. -/
def negatives (group : List Member) : List Json :=
  (group.filter (·.isNegated)).map Member.clause

/-- The clauses of a group that have to hold, as at most one clause. -/
def joinedPositives (group : List Member) : List Json :=
  match positives group with
  | [] => []
  | [clause] => [clause]
  | clauses => [allOf clauses]

/-- A list of clauses under a key, left out when it is empty. -/
def part (key : String) (clauses : List Json) : List (String × Json) :=
  if clauses.isEmpty then [] else [(key, .array clauses)]

/-- The boolean query of groups. One group has its positive and its negative clauses side by side; of
several groups each adds its positive clauses as one branch, and every negative one as a branch of its
own. -/
def boolQuery (groups : List (List Member)) : Json :=
  match Combinator.ofCount groups.length with
  | .must =>
    .single "bool" (.object
      (part "must" (groups.flatMap joinedPositives) ++
        part "must_not" (groups.flatMap negatives)))
  | .should =>
    .single "bool" (.object
      (part "should"
        (groups.flatMap fun group => joinedPositives group ++ (negatives group).map noneOf)))

/-- The query document of members; without members every document matches. -/
def queryOf (members : List Member) : Json :=
  if members.isEmpty then matchAll else boolQuery (priorityGroups Member.isOr members)

mutual

def member : Predicate → Except CompileError Member
  | .basic column leaf operator value joined => do
    return ⟨joined = .or, operator = some .ne, ← clause leaf column value operator⟩
  | .nested _ inner joined => do
    return ⟨joined = .or, false, queryOf (← members inner)⟩

/-- The members that predicates compile to; the first that does not compile decides the error. -/
def members : List Predicate → Except CompileError (List Member)
  | [] => .ok []
  | p :: ps => do
    let m ← member p
    let ms ← members ps
    return m :: ms

end

def query (q : QueryState) : Except CompileError Json := (members q.predicates).map queryOf

end DocSearch.Compile
