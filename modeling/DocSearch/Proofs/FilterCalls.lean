import DocSearch.Proofs.Descriptions
import DocSearch.Proofs.Faults

/-!
# The calls that declare filters

Callers declare filters one by one, and a nested query by the calls that declare its members. Only
three of the calls can spoil a query: a wildcard for a value that is neither a text nor a number, a
range that is compared by equality or inequality with a value that is no bounds object, and a
comparison that comes to the same as one of them.

* `TestCall.compiles_iff`: the predicate of a call compiles unless the call is one of those.
* `query_compiles_iff_no_call_breaks`: so does the query of a sequence of calls, nested to any
  depth.
-/

namespace DocSearch

/-! ## Calls -/

/-- A call that declares one test. -/
inductive TestCall where
  | term (column : String) (value : Json)
  | notTerm (column : String) (value : Json)
  | anyOf (column : String) (values : List Json)
  | noneOf (column : String) (values : List Json)
  | fullText (column : String) (value : Json)
  | phrase (column : String) (value : Json)
  | acrossFields (fields : List String) (query : Json)
  | like (column : String) (needle : Json)
  | within (column : String) (operator : Operator) (value : Json)
  | between (column : String) (low high : Json)
  | notBetween (column : String) (low high : Json)
  | present (column : String)
  | absent (column : String)
  | compared (column : String) (operator : Operator) (value : Json) (leaf : LeafKind)
  | comparedBy (column symbol : String) (value : Json)

/-- A call that declares a filter, with what joins it to the ones before it. -/
inductive FilterCall where
  | test (joined : Conjunction) (call : TestCall)
  /-- The filters that calls declare on an empty query, as one. -/
  | nested (joined : Conjunction) (calls : List FilterCall)

/-- The test that a call declares, unless its arguments are rejected. -/
def TestCall.predicate (joined : Conjunction) : TestCall → Except InvalidArgument Predicate
  | .term column value => .ok (.term joined column value)
  | .notTerm column value => .ok (.notTerm joined column value)
  | .anyOf column values => .ok (.anyOf joined column values)
  | .noneOf column values => .ok (.noneOf joined column values)
  | .fullText column value => .ok (.fullText joined column value)
  | .phrase column value => .ok (.phrase joined column value)
  | .acrossFields fields query => .ok (.acrossFields joined fields query)
  | .like column needle => .ok (.like joined column needle)
  | .within column operator value => .ok (.within joined column operator value)
  | .between column low high => .ok (.between joined column low high)
  | .notBetween column low high => .ok (.notBetween joined column low high)
  | .present column => .ok (.present joined column)
  | .absent column => .ok (.absent joined column)
  | .compared column operator value leaf => Predicate.compared joined column operator value leaf
  | .comparedBy column symbol value => Predicate.comparedBy joined column symbol value

mutual

def FilterCall.predicate : FilterCall → Except InvalidArgument Predicate
  | .test joined call => call.predicate joined
  | .nested joined calls => .ok (.ofQuery (QueryState.filterEach {} calls) joined)

/-- Makes calls on a query, one after the other. One that is rejected leaves it as it was. -/
def QueryState.filterEach : QueryState → List FilterCall → QueryState
  | q, [] => q
  | q, call :: calls =>
    match call.predicate with
    | .ok p => QueryState.filterEach (q.filter p) calls
    | .error _ => QueryState.filterEach q calls

end

/-- `Makes calls joined call`: the call is one of `calls`, or one of those that declare a nested
query among them, at any depth. -/
inductive FilterCall.Makes : List FilterCall → Conjunction → TestCall → Prop
  | here {calls : List FilterCall} {joined : Conjunction} {call : TestCall}
      (h : .test joined call ∈ calls) : Makes calls joined call
  | inside {calls inner : List FilterCall} {joined other : Conjunction} {call : TestCall}
      (h : .nested other inner ∈ calls) (hcall : Makes inner joined call) :
      Makes calls joined call

open Compile Description

/-- The calls that can spoil a query, by what they are given. -/
def TestCall.Breaks : TestCall → Prop
  | .like _ needle => ¬ IsNeedle needle
  | .within _ operator value => (operator = .eq ∨ operator = .ne) ∧ ¬ IsBounds value
  | .compared _ operator value leaf =>
    (effectiveKind (some operator) leaf = .wildcard ∧ ¬ IsNeedle value) ∨
      (effectiveKind (some operator) leaf = .range ∧ (operator = .eq ∨ operator = .ne) ∧
        ¬ IsBounds value ∧ ∀ low high, value ≠ .array [low, high])
  | _ => False

/-- Induction on calls: a nested query may assume the statement for each of its calls. -/
@[elab_as_elim]
theorem FilterCall.induction {motive : FilterCall → Prop}
    (test : ∀ joined call, motive (.test joined call))
    (nested : ∀ joined calls, (∀ call ∈ calls, motive call) → motive (.nested joined calls)) :
    ∀ call, motive call
  | .test joined call => test joined call
  | .nested joined calls => nested joined calls fun call _ => FilterCall.induction test nested call
termination_by call => sizeOf call
decreasing_by
  have := List.sizeOf_lt_of_mem ‹call ∈ calls›
  simp only [FilterCall.nested.sizeOf_spec]
  omega

/-! ## One test -/

namespace TestCall

variable {joined : Conjunction} {call : TestCall} {column : String} {operator : Operator}
  {value : Json} {leaf : LeafKind} {p : Predicate}

theorem compiles_basic_iff {operator : Option Operator} :
    Compiles (.basic column leaf operator value joined) ↔
      ¬ Test.Inexpressible ⟨column, leaf, operator, value⟩ := by
  rw [Compile.compiles_iff, testsOf, List.forall_mem_singleton]

theorem isBounds_bounds (low high : Json) : IsBounds (Predicate.bounds low high) := ⟨_, rfl⟩

theorem not_mem_bounding_iff :
    some operator ∉ [some Operator.gt, some .gte, some .lt, some .lte] ↔
      operator = .eq ∨ operator = .ne := by
  cases operator <;> simp

/-- What a comparison tests for: on a range the bounds that two listed values are, and else the
value that it is given. -/
theorem exists_held_of_comparison {operator : Option Operator}
    (h : Predicate.comparison column operator value leaf joined = .ok p) :
    ∃ held, p = .basic column (effectiveKind operator leaf) operator held joined ∧
      ((IsBounds held ∧ effectiveKind operator leaf = .range ∧
          ∃ low high, value = .array [low, high]) ∨
        (held = value ∧ (effectiveKind operator leaf = .range →
          ∀ low high, value ≠ .array [low, high]))) := by
  unfold Predicate.comparison at h
  unfold effectiveKind
  generalize (if operator.any Operator.isBound then LeafKind.range else leaf) = kind at h ⊢
  dsimp only at h
  split at h
  · rename_i low high
    cases h
    exact ⟨_, rfl, Or.inl ⟨isBounds_bounds low high, rfl, low, high, rfl⟩⟩
  · cases h
  · rename_i hvalue
    cases h
    exact ⟨_, rfl, Or.inr ⟨rfl, fun hkind low high => hvalue [low, high] hkind⟩⟩

theorem compiles_compared_iff (h : Predicate.compared joined column operator value leaf = .ok p) :
    Compiles p ↔ ¬ (compared column operator value leaf).Breaks := by
  obtain ⟨held, rfl, hheld⟩ := exists_held_of_comparison h
  rw [compiles_basic_iff, Test.inexpressible_iff, not_mem_bounding_iff, Breaks]
  rcases hheld with ⟨hbounds, hkind, low, high, rfl⟩ | ⟨rfl, hlist⟩
  · simp [hkind, hbounds]
  · refine not_congr (or_congr_right (and_congr_right fun hkind => ?_))
    rw [and_iff_left (hlist hkind)]

theorem not_breaks_compared_term : ¬ (compared column operator value .term).Breaks := by
  rw [Breaks, effectiveKind]
  cases operator <;> simp [Operator.isBound]

theorem compiles_of_comparedBy {symbol : String}
    (h : Predicate.comparedBy joined column symbol value = .ok p) : Compiles p := by
  obtain ⟨operator, -, hp⟩ := bind_eq_ok_iff.mp h
  exact (compiles_compared_iff hp).mpr not_breaks_compared_term

/-- The test of a call compiles unless the call is one of those that can spoil a query. -/
theorem compiles_iff (h : call.predicate joined = .ok p) : Compiles p ↔ ¬ call.Breaks := by
  cases call with
  | compared column operator value leaf => exact compiles_compared_iff h
  | comparedBy column symbol value => exact iff_of_true (compiles_of_comparedBy h) not_false
  | within column operator value =>
    cases h
    rw [Predicate.within, compiles_basic_iff, Test.inexpressible_iff, not_mem_bounding_iff]
    simp [Breaks]
  | _ =>
    cases h
    refine compiles_basic_iff.trans (not_congr ?_)
    simp [Test.inexpressible_iff, isBounds_bounds, Breaks]

end TestCall

/-! ## A sequence of calls -/

section Calls

variable {q : QueryState} {calls : List FilterCall} {joined : Conjunction} {call : TestCall}
  {p : Predicate}

theorem mem_filterEach :
    p ∈ (q.filterEach calls).predicates ↔
      p ∈ q.predicates ∨ ∃ call ∈ calls, call.predicate = .ok p := by
  induction calls generalizing q with
  | nil => simp [QueryState.filterEach]
  | cons call calls ih =>
    rw [QueryState.filterEach]
    cases hcall : call.predicate with
    | error e => simp [ih, hcall]
    | ok added =>
      simp only [ih, QueryState.filter, List.mem_append, List.mem_singleton,
        List.exists_mem_cons_iff, hcall, Except.ok.injEq, or_assoc, eq_comm]

theorem forall_filterEach :
    (∀ p ∈ (q.filterEach calls).predicates, Compiles p) ↔
      (∀ p ∈ q.predicates, Compiles p) ∧
        ∀ call ∈ calls, ∀ p, call.predicate = .ok p → Compiles p := by
  simp only [mem_filterEach]
  constructor
  · intro h
    exact ⟨fun p hp => h p (Or.inl hp), fun call hcall p hp => h p (Or.inr ⟨call, hcall, hp⟩)⟩
  · rintro ⟨hq, hcalls⟩ p (hp | ⟨call, hcall, hp⟩)
    · exact hq p hp
    · exact hcalls call hcall p hp

namespace FilterCall

theorem makes_iff_exists : Makes calls joined call ↔ ∃ c ∈ calls, Makes [c] joined call := by
  constructor
  · intro h
    cases h with
    | here h => exact ⟨_, h, .here List.mem_cons_self⟩
    | inside h hcall => exact ⟨_, h, .inside List.mem_cons_self hcall⟩
  · rintro ⟨c, hc, h⟩
    cases h with
    | here h => exact .here (List.mem_singleton.mp h ▸ hc)
    | inside h hcall => exact .inside (List.mem_singleton.mp h ▸ hc) hcall

theorem makes_test_iff {other : Conjunction} {c : TestCall} :
    Makes [.test other c] joined call ↔ joined = other ∧ call = c := by
  constructor
  · intro h
    cases h with
    | here h =>
      cases List.mem_singleton.mp h
      exact ⟨rfl, rfl⟩
    | inside h hcall => cases List.mem_singleton.mp h
  · rintro ⟨rfl, rfl⟩
    exact .here List.mem_cons_self

theorem makes_nested_iff {other : Conjunction} :
    Makes [.nested other calls] joined call ↔ Makes calls joined call := by
  constructor
  · intro h
    cases h with
    | here h => cases List.mem_singleton.mp h
    | inside h hcall =>
      cases List.mem_singleton.mp h
      exact hcall
  · exact .inside List.mem_cons_self

/-- No call that is accepted spoils a query. -/
def Sound (calls : List FilterCall) : Prop :=
  ∀ joined call, Makes calls joined call → (∃ p, call.predicate joined = .ok p) → ¬ call.Breaks

theorem sound_iff_forall : Sound calls ↔ ∀ c ∈ calls, Sound [c] := by
  unfold Sound
  constructor
  · intro h c hc joined call hmakes
    exact h joined call (makes_iff_exists.mpr ⟨c, hc, hmakes⟩)
  · intro h joined call hmakes
    obtain ⟨c, hc, hmakes⟩ := makes_iff_exists.mp hmakes
    exact h c hc joined call hmakes

/-- What a call declares compiles unless a call that declares it spoils it. -/
theorem compiles_iff_sound (c : FilterCall) :
    (∀ p, c.predicate = .ok p → Compiles p) ↔ Sound [c] := by
  induction c using FilterCall.induction with
  | test joined call =>
    simp only [Sound, makes_test_iff, FilterCall.predicate]
    constructor
    · rintro h _ _ ⟨rfl, rfl⟩ ⟨p, hp⟩
      exact (TestCall.compiles_iff hp).mp (h p hp)
    · intro h p hp
      exact (TestCall.compiles_iff hp).mpr (h joined call ⟨rfl, rfl⟩ ⟨p, hp⟩)
  | nested joined calls ih =>
    have hcalls : Sound [.nested joined calls] ↔ ∀ c ∈ calls, Sound [c] := by
      rw [← sound_iff_forall]
      simp only [Sound, makes_nested_iff]
    have hinner : Compiles (.ofQuery (QueryState.filterEach {} calls) joined) ↔
        ∀ c ∈ calls, ∀ p, c.predicate = .ok p → Compiles p := by
      rw [Predicate.ofQuery, compiles_nested, forall_filterEach]
      exact and_iff_right (List.forall_mem_nil _)
    rw [hcalls]
    simp only [FilterCall.predicate, Except.ok.injEq, forall_eq', hinner]
    exact forall₂_congr ih

end FilterCall

end Calls

/-- **What can spoil a query.** The filters that calls declare on a query without predicates compile
exactly if none of the calls that are accepted, at any depth, is a wildcard for a value that is
neither a text nor a number, a range that is compared by equality or inequality with a value that
is no bounds object, or a comparison that comes to one of them, two listed values being bounds. So
does whatever is compared by a symbol. -/
theorem query_compiles_iff_no_call_breaks (settings : Settings) (calls : List FilterCall) :
    ((∃ d, query (QueryState.filterEach ⟨settings, []⟩ calls) = .ok d) ↔
      ∀ joined call, FilterCall.Makes calls joined call →
        (∃ p, call.predicate joined = .ok p) → ¬ call.Breaks) ∧
      ∀ joined column symbol value p,
        Predicate.comparedBy joined column symbol value = .ok p → Compiles p := by
  refine ⟨?_, fun joined column symbol value p => TestCall.compiles_of_comparedBy⟩
  have hquery : (∃ d, query (QueryState.filterEach ⟨settings, []⟩ calls) = .ok d) ↔
      ∀ c ∈ calls, ∀ p, c.predicate = .ok p → Compiles p := by
    simp only [query_eq_ok_iff, exists_and_left, exists_eq, and_true, forall_filterEach]
    exact and_iff_right (List.forall_mem_nil _)
  rw [hquery]
  simp only [FilterCall.compiles_iff_sound]
  exact FilterCall.sound_iff_forall.symm

/-- A nested comparison of a range with two listed values, and in its place a range that is not a
number. -/
theorem query_compiles_iff_no_call_breaks_nested :
    let between : TestCall := .compared "price" .eq (.array [.count 10, .count 20]) .range
    let unequal : TestCall := .within "price" .ne (.count 10)
    let calls (call : TestCall) : List FilterCall :=
      [.test .and (.like "name" (.count 7)), .nested .or [.test .or call]]
    (∃ d, query (QueryState.filterEach {} (calls between)) = .ok d) ∧ ¬ between.Breaks ∧
      unequal.Breaks ∧ ¬ ∃ d, query (QueryState.filterEach {} (calls unequal)) = .ok d := by
  intro between unequal calls
  have hmakes : ∀ call, FilterCall.Makes (calls call) .or call := by
    intro call
    exact .inside (List.mem_cons_of_mem _ List.mem_cons_self) (.here List.mem_cons_self)
  have hbreaks : unequal.Breaks := by
    refine ⟨Or.inr rfl, ?_⟩
    rintro ⟨fields, hfields⟩
    cases hfields
  have hcompiles : ∃ d, query (QueryState.filterEach {} (calls between)) = .ok d := ⟨_, rfl⟩
  obtain ⟨hsound, -⟩ := query_compiles_iff_no_call_breaks {} (calls between)
  obtain ⟨hunsound, -⟩ := query_compiles_iff_no_call_breaks {} (calls unequal)
  refine ⟨hcompiles, hsound.mp hcompiles .or between (hmakes between) ⟨_, rfl⟩, hbreaks, ?_⟩
  intro hd
  exact hunsound.mp hd .or unequal (hmakes unequal) ⟨_, rfl⟩ hbreaks

end DocSearch
