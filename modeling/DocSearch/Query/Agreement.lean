import DocSearch.Query.Predicate

/-!
# Agreement of query states

Two query states agree when they were declared alike: all parts are equal, their JSON values up to the
sign of a floating-point zero.
-/

namespace DocSearch

namespace Settings

def agrees (a b : Settings) : Bool :=
  a.index == b.index && a.documentType == b.documentType && a.limit == b.limit &&
    a.offset == b.offset && a.columns == b.columns && a.scroll == b.scroll &&
    Json.agreesFields a.sorts b.sorts && Json.agreesFields a.aggregations b.aggregations

end Settings

namespace Predicate

mutual

def agrees : Predicate → Predicate → Bool
  | basic column leaf operator value joined, basic column' leaf' operator' value' joined' =>
    column == column' && leaf == leaf' && operator == operator' && value.agrees value' &&
      joined == joined'
  | nested settings members joined, nested settings' members' joined' =>
    settings.agrees settings' && agreesMembers members members' && joined == joined'
  | _, _ => false

def agreesMembers : List Predicate → List Predicate → Bool
  | [], [] => true
  | p :: ps, q :: qs => p.agrees q && agreesMembers ps qs
  | _, _ => false

end

end Predicate

namespace QueryState

def agrees (a b : QueryState) : Bool :=
  a.toSettings.agrees b.toSettings && Predicate.agreesMembers a.predicates b.predicates

end QueryState

end DocSearch
