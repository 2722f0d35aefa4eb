import DocSearch.Query.Predicate

/-!
# The predicates that callers declare

One constructor for each way to filter documents. Each takes how the predicate joins the ones before
it; those that name an operator may reject their arguments.
-/

namespace DocSearch.Predicate

variable (joined : Conjunction) (column : String)

/-- The column has the value. -/
def term (value : Json) : Predicate := basic column .term (some .eq) value joined

/-- The column does not have the value. -/
def notTerm (value : Json) : Predicate := basic column .term (some .ne) value joined

/-- The column has one of the values. -/
def anyOf (values : List Json) : Predicate := basic column .terms (some .eq) (.array values) joined

/-- The column has none of the values. -/
def noneOf (values : List Json) : Predicate := basic column .terms (some .ne) (.array values) joined

/-- The column matches the words of a text. -/
def fullText (value : Json) : Predicate := basic column .fullText (some .eq) value joined

/-- The column matches a phrase. -/
def phrase (value : Json) : Predicate := basic column .phrase (some .eq) value joined

/-- One of several fields matches a phrase. -/
def acrossFields (fields : List String) (query : Json) : Predicate :=
  basic (String.intercalate "," fields) .multiMatch (some .eq) query joined

/-- The column contains a text. -/
def like (needle : Json) : Predicate := basic column .wildcard (some .eq) needle joined

/-- The column is within a range that an operator bounds. -/
def within (operator : Operator) (value : Json) : Predicate :=
  basic column .range (some operator) value joined

/-- The column is between two values, which are included. -/
def between (low high : Json) : Predicate := basic column .range none (bounds low high) joined

/-- The column is not between two values. -/
def notBetween (low high : Json) : Predicate :=
  basic column .range (some .ne) (bounds low high) joined

/-- The column is present. -/
def present : Predicate := basic column .exists (some .eq) .null joined

/-- The column is absent. -/
def absent : Predicate := basic column .exists (some .ne) .null joined

/-- The column compares with a value. -/
def compared (operator : Operator) (value : Json) (leaf : LeafKind) :
    Except InvalidArgument Predicate :=
  comparison column (some operator) value leaf joined

/-- The column compares with a value by the operator of a symbol. -/
def comparedBy (symbol : String) (value : Json) : Except InvalidArgument Predicate := do
  compared joined column (← Operator.of symbol) value .term

end DocSearch.Predicate
