import DocSearch.Proofs.Targets
import DocSearch.Proofs.Trimming
import Mathlib.Data.Nat.Digits.Defs

/-!
# Overlaid configurations

What the three settings make of the defaults, which of them are accepted, and which fault is
reported when several have one. What a setting gives is described by a relation between its text, if
there is one, and what a field takes from it: `GivesHosts`, `GivesRetries`, `GivesIndex`.

* `Config.retriesOf?_eq_some_iff`: the texts of numbers.
* `Config.givesHosts_iff`, `Config.givesRetries_iff`, `Config.givesIndex_iff`: each setting alone.
* `Config.ofLookup_eq_ok_iff`: what the settings make of the defaults.
* `Config.ofLookup_eq_error_iff`: the first fault, in the order of the retries, the hosts, the index.
* `overlay_accepts_settings`: all of it, and that hosts joined by commas are read back.
-/

namespace DocSearch

namespace Config

/-! ## The settings -/

/-- A host begins with one of the two schemes. -/
def HasScheme (host : String) : Prop :=
  "http://".toList <+: host.toList ∨ "https://".toList <+: host.toList

/-- The number that decimal digits are written for. -/
def numeral (digits : List Char) : Nat :=
  Nat.ofDigits 10 (digits.reverse.map fun d => d.toNat - '0'.toNat)

/-- ASCII digits for a number, at least one, which a plus sign may precede. -/
def IsNumeral (cs : List Char) (n : Nat) : Prop :=
  ∃ sign digits, cs = sign ++ digits ∧ (sign = [] ∨ sign = ['+']) ∧ digits ≠ [] ∧
    (∀ d ∈ digits, d.isDigit = true) ∧ numeral digits = n

/-- The hosts of a setting: the pieces between commas, trimmed, without the empty ones. There has to
be one, and all of them have to be hosts. -/
inductive GivesHosts : Option String → List String → Prop
  | absent : GivesHosts none ({} : Config).hosts
  | listed {text : String} {hosts : List String} (h : Text.Lists ',' text hosts) (hne : hosts ≠ [])
      (hall : ∀ host ∈ hosts, HasScheme host) : GivesHosts (some text) hosts

/-- The number of a setting: its text is trimmed, and has to spell a number of 32 bits. -/
inductive GivesRetries : Option String → UInt32 → Prop
  | absent : GivesRetries none ({} : Config).retries
  | spelled {text : String} {cs : List Char} {n : Nat} (htrim : Text.Trims text.toList cs)
      (h : IsNumeral cs n) (hsize : n < 2 ^ 32) : GivesRetries (some text) (.ofNat n)

/-- The index of a setting: its text as it is, which must not be blank. -/
inductive GivesIndex : Option String → String → Prop
  | absent : GivesIndex none ({} : Config).index
  | given {text : String} {c : Char} (hmem : c ∈ text.toList) (h : Text.isBlank c = false) :
      GivesIndex (some text) text

/-- What the settings make of the defaults. -/
structure Overlays (lookup : String → Option String) (config : Config) : Prop where
  hosts : GivesHosts (lookup "ELASTIC_HOST") config.hosts
  retries : GivesRetries (lookup "ELASTIC_RETRIES") config.retries
  index : GivesIndex (lookup "ELASTIC_DEFAULT_INDEX") config.index
  logLevel : config.logLevel = ({} : Config).logLevel

/-- The first fault of the settings: a fault comes first if the settings before it can be read. -/
inductive FirstFault (lookup : String → Option String) : ConfigError → Prop
  | retries {text : String} (hsetting : lookup "ELASTIC_RETRIES" = some text)
      (h : ∀ n, ¬ GivesRetries (some text) n) : FirstFault lookup (.badRetries text)
  | noHosts {retries : UInt32} {text : String}
      (hretries : GivesRetries (lookup "ELASTIC_RETRIES") retries)
      (hsetting : lookup "ELASTIC_HOST" = some text) (h : Text.Lists ',' text []) :
      FirstFault lookup .noHosts
  | host {retries : UInt32} {text host : String} {before after : List String}
      (hretries : GivesRetries (lookup "ELASTIC_RETRIES") retries)
      (hsetting : lookup "ELASTIC_HOST" = some text)
      (hlisted : Text.Lists ',' text (before ++ host :: after))
      (hbefore : ∀ earlier ∈ before, HasScheme earlier) (h : ¬ HasScheme host) :
      FirstFault lookup (.badHost host)
  | index {retries : UInt32} {hosts : List String} {text : String}
      (hretries : GivesRetries (lookup "ELASTIC_RETRIES") retries)
      (hhosts : GivesHosts (lookup "ELASTIC_HOST") hosts)
      (hsetting : lookup "ELASTIC_DEFAULT_INDEX" = some text)
      (h : ∀ c ∈ text.toList, Text.isBlank c = true) : FirstFault lookup .noIndex

/-! ## Numbers -/

section Numbers

variable {cs : List Char} {n : Nat}

theorem foldl_eq_numeral (digits : List Char) :
    digits.foldl (fun n c => n * 10 + (c.toNat - '0'.toNat)) 0 = numeral digits := by
  rw [numeral, Nat.ofDigits_eq_foldr, List.map_reverse, List.foldr_reverse, List.foldl_map]
  simp only [Nat.cast_id, Nat.add_comm, Nat.mul_comm]

theorem digitsValue?_eq_some_iff :
    digitsValue? cs = some n ↔ cs ≠ [] ∧ (∀ c ∈ cs, c.isDigit = true) ∧ numeral cs = n := by
  rw [digitsValue?, foldl_eq_numeral, Option.ite_none_left_eq_some]
  simp [and_assoc]

/-- What is left of a text without the plus sign before it. -/
def unsigned : List Char → List Char
  | '+' :: rest => rest
  | cs => cs

/-- A plus sign is no digit, and so the digits of a numeral are what is left without it. -/
theorem isNumeral_iff : IsNumeral cs n ↔ digitsValue? (unsigned cs) = some n := by
  rw [digitsValue?_eq_some_iff]
  constructor
  · rintro ⟨sign, digits, rfl, rfl | rfl, hne, hdigits, hvalue⟩
    · rw [List.nil_append, unsigned]
      · exact ⟨hne, hdigits, hvalue⟩
      · rintro rest rfl
        exact absurd (hdigits '+' List.mem_cons_self) (by decide)
    · exact ⟨hne, hdigits, hvalue⟩
  · intro h
    unfold unsigned at h
    split at h
    · exact ⟨['+'], _, rfl, Or.inr rfl, h⟩
    · exact ⟨[], cs, rfl, Or.inl rfl, h⟩

theorem retriesOf?_eq_some_iff {retries : UInt32} :
    retriesOf? cs = some retries ↔
      ∃ n, IsNumeral cs n ∧ n < 2 ^ 32 ∧ UInt32.ofNat n = retries := by
  have hbound : retriesOf? cs = (digitsValue? (unsigned cs)).bind fun n =>
      if n < UInt32.size then some (.ofNat n) else none := rfl
  have hsize : UInt32.size = 2 ^ 32 := rfl
  simp only [hbound, hsize, isNumeral_iff, Option.bind_eq_some_iff, Option.ite_none_right_eq_some,
    Option.some.injEq]

end Numbers

/-! ## Each setting alone -/

section Settings

variable {setting : Option String} {hosts : List String} {host index : String} {retries : UInt32}

theorem HasScheme.ne_empty (h : HasScheme host) : host ≠ "" := by
  rintro rfl
  rcases h with h | h <;> cases List.prefix_nil.mp h

theorem isHost_iff : isHost host = true ↔ HasScheme host := by
  simp [isHost, schemes, HasScheme]

theorem badHost?_eq_none_iff : badHost? hosts = none ↔ ∀ host ∈ hosts, HasScheme host := by
  simp [badHost?, ← isHost_iff]

theorem badHost?_eq_some_iff :
    badHost? hosts = some host ↔
      ¬ HasScheme host ∧ ∃ before after, hosts = before ++ host :: after ∧
        ∀ earlier ∈ before, HasScheme earlier := by
  rw [badHost?, List.find?_eq_some_iff_append]
  simp [← isHost_iff]

theorem givesHosts_iff :
    GivesHosts setting hosts ↔
      hosts = setting.elim ({} : Config).hosts (Text.trimmedPieces ',') ∧ hosts ≠ [] ∧
        badHost? hosts = none := by
  rw [badHost?_eq_none_iff]
  cases setting with
  | none =>
    obtain ⟨hne, hall, -⟩ := validate_eq_ok_iff.mp validate_default
    constructor
    · intro h
      cases h
      exact ⟨rfl, hne, badHost?_eq_none_iff.mp hall⟩
    · rintro ⟨rfl, -, -⟩
      exact .absent
  | some text =>
    rw [Option.elim_some, eq_comm, Text.trimmedPieces_eq_iff]
    constructor
    · rintro (_ | ⟨hlists, hne, hall⟩)
      exact ⟨hlists, hne, hall⟩
    · rintro ⟨hlists, hne, hall⟩
      exact .listed hlists hne hall

theorem exists_givesHosts_or_fault (setting : Option String) :
    (∃ hosts, GivesHosts setting hosts) ∨ ∃ text, setting = some text ∧
      (Text.Lists ',' text [] ∨ ∃ before host after, Text.Lists ',' text (before ++ host :: after) ∧
        (∀ earlier ∈ before, HasScheme earlier) ∧ ¬ HasScheme host) := by
  cases setting with
  | none => exact Or.inl ⟨_, .absent⟩
  | some text =>
    -- what is listed is the same, whether it is accepted or not
    have hlists := Text.trimmedPieces_eq_iff.mp (Eq.refl (Text.trimmedPieces ',' text))
    generalize Text.trimmedPieces ',' text = hosts at hlists
    cases hbad : badHost? hosts with
    | some host =>
      obtain ⟨hnot, before, after, rfl, hbefore⟩ := badHost?_eq_some_iff.mp hbad
      exact Or.inr ⟨text, rfl, Or.inr ⟨before, host, after, hlists, hbefore, hnot⟩⟩
    | none =>
      by_cases hne : hosts = []
      · exact Or.inr ⟨text, rfl, Or.inl (hne ▸ hlists)⟩
      · exact Or.inl ⟨hosts, .listed hlists hne (badHost?_eq_none_iff.mp hbad)⟩

/-- Hosts that are joined by commas are given back, if they have no commas and no blanks at their
ends. -/
theorem givesHosts_intercalate (hne : hosts ≠ [])
    (h : ∀ host ∈ hosts, HasScheme host ∧ ',' ∉ host.toList ∧ Text.Unpadded host.toList) :
    GivesHosts (some (",".intercalate hosts)) hosts := by
  have hcomma : "," = String.singleton ',' := by decide
  refine .listed ?_ hne fun host hhost => (h host hhost).1
  rw [← Text.trimmedPieces_eq_iff, hcomma, Text.trimmedPieces_intercalate_of_whole]
  intro host hhost
  exact ⟨(h host hhost).1.ne_empty, (h host hhost).2⟩

/-- The number of a setting, or the fault of its text. -/
def retriesFrom : Option String → Except ConfigError UInt32
  | none => .ok ({} : Config).retries
  | some text =>
    (retriesOf? (Text.trimChars text.toList)).elim (.error (.badRetries text)) .ok

theorem givesRetries_iff : GivesRetries setting retries ↔ retriesFrom setting = .ok retries := by
  cases setting with
  | none =>
    constructor
    · rintro ⟨⟩
      rfl
    · rintro ⟨⟩
      exact .absent
  | some text =>
    have hread : retriesFrom (some text) = .ok retries ↔
        retriesOf? (Text.trimChars text.toList) = some retries := by
      rw [retriesFrom]
      cases retriesOf? (Text.trimChars text.toList) <;> simp
    rw [hread, retriesOf?_eq_some_iff]
    constructor
    · rintro (_ | ⟨htrim, hnumeral, hsize⟩)
      rw [Text.trimChars_of_trims htrim]
      exact ⟨_, hnumeral, hsize, rfl⟩
    · rintro ⟨n, hnumeral, hsize, rfl⟩
      exact .spelled (Text.trims_trimChars text.toList) hnumeral hsize

theorem exists_givesRetries_or_fault (setting : Option String) :
    (∃ retries, GivesRetries setting retries) ∨
      ∃ text, setting = some text ∧ ∀ retries, ¬ GivesRetries (some text) retries := by
  cases setting with
  | none => exact Or.inl ⟨_, .absent⟩
  | some text =>
    by_cases h : ∃ retries, GivesRetries (some text) retries
    · exact Or.inl h
    · exact Or.inr ⟨text, rfl, not_exists.mp h⟩

theorem retriesFrom_eq_error {text : String} (h : ∀ retries, ¬ GivesRetries (some text) retries) :
    retriesFrom (some text) = .error (.badRetries text) := by
  simp only [givesRetries_iff] at h
  rw [retriesFrom] at h ⊢
  cases hretries : retriesOf? (Text.trimChars text.toList) with
  | none => rfl
  | some retries => exact absurd (by rw [hretries]; rfl) (h retries)

theorem givesIndex_iff :
    GivesIndex setting index ↔
      index = setting.getD ({} : Config).index ∧ index.toList.all Text.isBlank = false := by
  cases setting with
  | none =>
    obtain ⟨-, -, hindex, -⟩ := validate_eq_ok_iff.mp validate_default
    constructor
    · rintro ⟨⟩
      exact ⟨rfl, hindex⟩
    · rintro ⟨rfl, -⟩
      exact .absent
  | some text =>
    rw [List.all_eq_false]
    constructor
    · rintro (_ | ⟨hmem, hblank⟩)
      exact ⟨rfl, _, hmem, by simp [hblank]⟩
    · rintro ⟨rfl, c, hmem, hblank⟩
      exact .given hmem (by simpa using hblank)

theorem exists_givesIndex_or_fault (setting : Option String) :
    (∃ index, GivesIndex setting index) ∨
      ∃ text, setting = some text ∧ ∀ c ∈ text.toList, Text.isBlank c = true := by
  cases setting with
  | none => exact Or.inl ⟨_, .absent⟩
  | some text =>
    by_cases h : ∀ c ∈ text.toList, Text.isBlank c = true
    · exact Or.inr ⟨text, rfl, h⟩
    · push Not at h
      obtain ⟨c, hmem, hblank⟩ := h
      exact Or.inl ⟨text, .given hmem (by simpa using hblank)⟩

end Settings

/-! ## All settings -/

section Overlaid

variable {lookup : String → Option String} {config : Config} {host : String} {e : ConfigError}

/-- The defaults with the settings in their places, before they are validated. -/
def overlaid (lookup : String → Option String) (retries : UInt32) : Config where
  hosts := (lookup hostVariable).elim ({} : Config).hosts (Text.trimmedPieces ',')
  retries := retries
  index := (lookup indexVariable).getD ({} : Config).index

theorem ofLookup_eq (lookup : String → Option String) :
    ofLookup lookup =
      retriesFrom (lookup retriesVariable) >>= fun retries => accepted (overlaid lookup retries) := by
  unfold ofLookup
  cases lookup retriesVariable <;> rfl

/-- The log level is not among the settings, and that of the defaults has a severity. -/
theorem validate_overlaid_eq_ok_iff {retries : UInt32} :
    (overlaid lookup retries).validate = .ok () ↔
      GivesHosts (lookup hostVariable) (overlaid lookup retries).hosts ∧
        GivesIndex (lookup indexVariable) (overlaid lookup retries).index := by
  obtain ⟨-, -, -, hseverity⟩ := validate_eq_ok_iff.mp validate_default
  rw [validate_eq_ok_iff, givesHosts_iff, givesIndex_iff]
  constructor
  · rintro ⟨hne, hall, hindex, -⟩
    exact ⟨⟨rfl, hne, hall⟩, rfl, hindex⟩
  · rintro ⟨⟨-, hne, hall⟩, -, hindex⟩
    exact ⟨hne, hall, hindex, hseverity⟩

theorem ofLookup_eq_ok_iff : ofLookup lookup = .ok config ↔ Overlays lookup config := by
  rw [ofLookup_eq, bind_eq_ok_iff]
  simp only [accepted_eq_ok_iff, validate_overlaid_eq_ok_iff, ← givesRetries_iff]
  constructor
  · rintro ⟨retries, hretries, ⟨hhosts, hindex⟩, rfl⟩
    exact ⟨hhosts, hretries, hindex, rfl⟩
  · rintro ⟨hhosts, hretries, hindex, hlevel⟩
    have hconfig : overlaid lookup config.retries = config := by
      obtain ⟨hosts, retries, index, logLevel⟩ := config
      obtain rfl := (givesHosts_iff.mp hhosts).1
      obtain rfl := (givesIndex_iff.mp hindex).1
      obtain rfl := hlevel
      rfl
    refine ⟨config.retries, hretries, ?_, hconfig⟩
    rw [hconfig]
    exact ⟨hhosts, hindex⟩

/-! ### Faults -/

theorem validate_of_no_hosts (h : config.hosts = []) : config.validate = .error .noHosts := by
  simp only [validate, h]
  rfl

theorem validate_of_badHost? (h : badHost? config.hosts = some host) :
    config.validate = .error (.badHost host) := by
  have hne : config.hosts ≠ [] := by
    intro hempty
    rw [hempty] at h
    cases h
  simp only [validate, h, List.isEmpty_eq_false_iff.mpr hne]
  rfl

theorem validate_of_blank_index (hne : config.hosts ≠ []) (hall : badHost? config.hosts = none)
    (hindex : config.index.toList.all Text.isBlank = true) :
    config.validate = .error .noIndex := by
  simp only [validate, hall, hindex, List.isEmpty_eq_false_iff.mpr hne]
  rfl

theorem ofLookup_of_fault {retries : UInt32}
    (hretries : GivesRetries (lookup retriesVariable) retries)
    (h : (overlaid lookup retries).validate = .error e) : ofLookup lookup = .error e := by
  rw [ofLookup_eq, givesRetries_iff.mp hretries]
  change (overlaid lookup retries).validate >>= _ = _
  rw [h]
  rfl

theorem hosts_overlaid {retries : UInt32} {text : String} {hosts : List String}
    (hsetting : lookup hostVariable = some text) (h : Text.Lists ',' text hosts) :
    (overlaid lookup retries).hosts = hosts := by
  have hhosts : (overlaid lookup retries).hosts =
      (lookup hostVariable).elim ({} : Config).hosts (Text.trimmedPieces ',') := rfl
  rw [hhosts, hsetting, Option.elim_some]
  exact Text.trimmedPieces_eq_iff.mpr h

theorem ofLookup_of_firstFault (h : FirstFault lookup e) : ofLookup lookup = .error e := by
  cases h with
  | retries hsetting hnone =>
    have hvariable : lookup retriesVariable = some _ := hsetting
    rw [ofLookup_eq, hvariable, retriesFrom_eq_error hnone]
    rfl
  | noHosts hretries hsetting hlists =>
    exact ofLookup_of_fault hretries (validate_of_no_hosts (hosts_overlaid hsetting hlists))
  | host hretries hsetting hlists hbefore hnot =>
    refine ofLookup_of_fault hretries (validate_of_badHost? (badHost?_eq_some_iff.mpr ?_))
    exact ⟨hnot, _, _, hosts_overlaid hsetting hlists, hbefore⟩
  | @index retries hosts text hretries hhosts hsetting hblank =>
    obtain ⟨rfl, hne, hall⟩ := givesHosts_iff.mp hhosts
    have hindex : (overlaid lookup retries).index = text := by
      rw [overlaid]
      exact congrArg (·.getD ({} : Config).index) hsetting
    refine ofLookup_of_fault hretries (validate_of_blank_index hne hall ?_)
    rw [hindex]
    exact List.all_eq_true.mpr hblank

/-- Settings that make no configuration have a first fault. -/
theorem exists_firstFault (h : ∀ config, ¬ Overlays lookup config) : ∃ e, FirstFault lookup e := by
  -- in the order in which faults are reported: each case may use that what stands before it is read
  obtain ⟨retries, hretries⟩ | ⟨text, hsetting, hnone⟩ :=
    exists_givesRetries_or_fault (lookup "ELASTIC_RETRIES")
  case inr => exact ⟨_, .retries hsetting hnone⟩
  obtain ⟨hosts, hhosts⟩ | ⟨text, hsetting, hempty | ⟨_, _, _, hlists, hbefore, hnot⟩⟩ :=
    exists_givesHosts_or_fault (lookup "ELASTIC_HOST")
  case inr.inl => exact ⟨_, .noHosts hretries hsetting hempty⟩
  case inr.inr => exact ⟨_, .host hretries hsetting hlists hbefore hnot⟩
  obtain ⟨index, hindex⟩ | ⟨text, hsetting, hblank⟩ :=
    exists_givesIndex_or_fault (lookup "ELASTIC_DEFAULT_INDEX")
  case inr => exact ⟨_, .index hretries hhosts hsetting hblank⟩
  exact absurd ⟨hhosts, hretries, hindex, rfl⟩ (h { hosts, retries, index })

theorem ofLookup_eq_error_iff : ofLookup lookup = .error e ↔ FirstFault lookup e := by
  constructor
  · intro h
    have hnone : ∀ config, ¬ Overlays lookup config := by
      intro config hconfig
      cases h.symm.trans (ofLookup_eq_ok_iff.mpr hconfig)
    -- the first fault is reported, and so it is the one at hand
    obtain ⟨first, hfirst⟩ := exists_firstFault hnone
    cases h.symm.trans (ofLookup_of_firstFault hfirst)
    exact hfirst
  · exact ofLookup_of_firstFault

theorem exists_overlays_iff :
    (∃ config, Overlays lookup config) ↔
      (∃ hosts, GivesHosts (lookup "ELASTIC_HOST") hosts) ∧
        (∃ retries, GivesRetries (lookup "ELASTIC_RETRIES") retries) ∧
        ∃ index, GivesIndex (lookup "ELASTIC_DEFAULT_INDEX") index := by
  constructor
  · rintro ⟨config, hhosts, hretries, hindex, -⟩
    exact ⟨⟨_, hhosts⟩, ⟨_, hretries⟩, _, hindex⟩
  · rintro ⟨⟨hosts, hhosts⟩, ⟨retries, hretries⟩, index, hindex⟩
    exact ⟨{ hosts, retries, index }, hhosts, hretries, hindex, rfl⟩

end Overlaid

end Config

open Config in
/-- **Which settings are accepted.** A look-up of settings is accepted exactly if each of them is
absent or can be read: the hosts as a list between commas of texts that begin with a scheme, at least
one; the retries as a number of 32 bits; the index as a text that is not blank. The configuration has
what they give, and the defaults for the rest. A fault that is reported is the first: of the retries,
of the hosts in their order, of the index. Hosts that have no comma, and no blank at either end, are
read back when commas join them. -/
theorem overlay_accepts_settings (lookup : String → Option String) :
    ((∃ config, ofLookup lookup = .ok config) ↔
        (∃ hosts, GivesHosts (lookup "ELASTIC_HOST") hosts) ∧
          (∃ retries, GivesRetries (lookup "ELASTIC_RETRIES") retries) ∧
          ∃ index, GivesIndex (lookup "ELASTIC_DEFAULT_INDEX") index) ∧
      (∀ config, ofLookup lookup = .ok config ↔ Overlays lookup config) ∧
      (∀ e, ofLookup lookup = .error e ↔ FirstFault lookup e) ∧
      ∀ hosts : List String, hosts ≠ [] →
        (∀ host ∈ hosts, HasScheme host ∧ ',' ∉ host.toList ∧ Text.Unpadded host.toList) →
        lookup "ELASTIC_HOST" = some (",".intercalate hosts) →
        ∀ (retries : UInt32) (index : String),
          GivesRetries (lookup "ELASTIC_RETRIES") retries →
          GivesIndex (lookup "ELASTIC_DEFAULT_INDEX") index →
          ofLookup lookup = .ok { hosts, retries, index } := by
  refine ⟨?_, fun config => ofLookup_eq_ok_iff, fun e => ofLookup_eq_error_iff, ?_⟩
  · simp only [ofLookup_eq_ok_iff]
    exact exists_overlays_iff
  · intro hosts hne hwhole hsetting retries index hretries hindex
    refine ofLookup_eq_ok_iff.mpr ⟨?_, hretries, hindex, rfl⟩
    rw [hsetting]
    exact givesHosts_intercalate hne hwhole

open Config in
/-- Two hosts and a number with a sign, zeros and blanks; and settings of which two have a fault. -/
theorem overlay_accepts_settings_joined :
    let hosts := ["http://a:9200", "https://b"]
    let good : String → Option String := fun name =>
      [("ELASTIC_HOST", ",".intercalate hosts), ("ELASTIC_RETRIES", " +007\n")].lookup name
    let faulty : String → Option String := fun name =>
      [("ELASTIC_HOST", "http://a, b"), ("ELASTIC_DEFAULT_INDEX", " ")].lookup name
    (hosts ≠ [] ∧
      (∀ host ∈ hosts, HasScheme host ∧ ',' ∉ host.toList ∧ Text.Unpadded host.toList) ∧
      good "ELASTIC_HOST" = some (",".intercalate hosts) ∧
      GivesRetries (good "ELASTIC_RETRIES") 7 ∧
      GivesIndex (good "ELASTIC_DEFAULT_INDEX") "index" ∧
      ofLookup good = .ok { hosts := ["http://a:9200", "https://b"], retries := 7 }) ∧
    ofLookup faulty = .error (.badHost "b") := by
  intro hosts good faulty
  obtain ⟨-, -, -, hjoined⟩ := overlay_accepts_settings good
  obtain ⟨-, -, hfaults, -⟩ := overlay_accepts_settings faulty
  have hne : hosts ≠ [] := by decide
  have hwhole : ∀ host ∈ hosts,
      HasScheme host ∧ ',' ∉ host.toList ∧ Text.Unpadded host.toList := by
    intro host hhost
    rcases List.mem_pair.mp hhost with rfl | rfl
    · refine ⟨Or.inl (by decide), by decide, ?_⟩
      rintro c (hc | hc) <;> cases hc <;> decide
    · refine ⟨Or.inr (by decide), by decide, ?_⟩
      rintro c (hc | hc) <;> cases hc <;> decide
  have hsetting : good "ELASTIC_HOST" = some (",".intercalate hosts) := by decide
  have hretries : GivesRetries (good "ELASTIC_RETRIES") 7 := givesRetries_iff.mpr (by decide)
  have hindex : GivesIndex (good "ELASTIC_DEFAULT_INDEX") "index" := .absent
  have hlists : Text.Lists ',' "http://a, b" (["http://a"] ++ "b" :: []) :=
    Text.trimmedPieces_eq_iff.mp (by decide)
  have hfault : FirstFault faulty (.badHost "b") :=
    .host .absent rfl hlists (by simp [HasScheme]) (by simp [HasScheme])
  exact ⟨⟨hne, hwhole, hsetting, hretries, hindex, hjoined hosts hne hwhole hsetting 7 _ hretries
    hindex⟩, (hfaults _).mpr hfault⟩

end DocSearch
