import DocSearch.Log.Entry
import DocSearch.Proofs.ByteOrder
import DocSearch.Proofs.Pieces
import DocSearch.Proofs.ValueReading

/-!
# Lines of the log

A line of the log is the text of one JSON object and a line break, and no text in an entry can
change that: whatever it is, it stands in quotes and without control characters. So the lines of a
log are told apart at the line breaks, and each is read as what its entry tells.

* `Log.Entry.line_eq`: the line of an entry as the text of an object.
* `Log.lines_tell_entries`: what can be read from lines, and from a whole log.
-/

namespace DocSearch

open Json

/-! ## Texts without control characters -/

namespace Json

theorem le_of_mem_escape {c d : Char} (h : d ∈ escape c) : 0x20 ≤ d.toNat := by
  unfold escape at h
  split at h
  case h_8 =>
    split at h
    · rename_i hcontrol
      have hhex : ∀ n < 16, 0x20 ≤ (hexDigit n).toNat := by decide
      have hhigh := hhex (c.toNat / 16) (by omega)
      have hlow := hhex (c.toNat % 16) (by omega)
      simp only [List.mem_cons, List.not_mem_nil, or_false] at h
      rcases h with rfl | rfl | rfl | rfl | rfl | rfl
      · decide
      · decide
      · decide
      · decide
      · exact hhigh
      · exact hlow
    · rename_i hplain
      rw [List.mem_singleton.mp h]
      omega
  all_goals
    simp only [List.mem_cons, List.not_mem_nil, or_false] at h
    rcases h with rfl | rfl <;> decide

theorem le_of_mem_quoted {s : String} {d : Char} (h : d ∈ quoted s) : 0x20 ≤ d.toNat := by
  simp only [quoted, List.mem_cons, List.mem_append, List.mem_flatMap, List.not_mem_nil,
    or_false] at h
  rcases h with rfl | ⟨c, -, hd⟩ | rfl
  · decide
  · exact le_of_mem_escape hd
  · decide

end Json

/-! ## The order of fields -/

namespace Log.Entry

variable {field : String × String} {fields others : List (String × String)}

theorem insertField_perm : (insertField field fields).Perm (field :: fields) := by
  induction fields with
  | nil => exact .rfl
  | cons next fields ih =>
    rw [insertField]
    split
    · exact .rfl
    · exact (ih.cons next).trans (.swap ..)

theorem sortFields_perm (fields : List (String × String)) : (sortFields fields).Perm fields := by
  induction fields with
  | nil => exact .rfl
  | cons field fields ih => exact insertField_perm.trans (ih.cons field)

theorem pairwise_insertField (h : fields.Pairwise fun a b => a.1 ≤ b.1) :
    (insertField field fields).Pairwise fun a b => a.1 ≤ b.1 := by
  induction fields with
  | nil => exact List.pairwise_singleton _ _
  | cons next fields ih =>
    obtain ⟨hnext, hrest⟩ := List.pairwise_cons.mp h
    rw [insertField]
    split
    · rename_i hle
      refine List.pairwise_cons.mpr ⟨fun other hother => ?_, h⟩
      rcases List.mem_cons.mp hother with rfl | hother
      · exact hle
      · exact String.le_trans hle (hnext other hother)
    · rename_i hnot
      refine List.pairwise_cons.mpr ⟨fun other hother => ?_, ih hrest⟩
      rcases List.mem_cons.mp (insertField_perm.mem_iff.mp hother) with rfl | hother
      · exact le_of_lt (String.not_le.mp hnot)
      · exact hnext other hother

theorem pairwise_sortFields (fields : List (String × String)) :
    (sortFields fields).Pairwise fun a b => a.1 ≤ b.1 := by
  induction fields with
  | nil => exact .nil
  | cons field fields ih => exact pairwise_insertField ih

/-- Fields with different keys stand in the order of their keys. -/
theorem sortFields_ascending (h : (fields.map Prod.fst).Nodup) :
    (sortFields fields).Pairwise fun a b => a.1 < b.1 := by
  have hne : (sortFields fields).Pairwise fun a b => a.1 ≠ b.1 :=
    List.pairwise_map.mp (((sortFields_perm fields).map Prod.fst).nodup_iff.mpr h)
  refine ((pairwise_sortFields fields).and hne).imp ?_
  rintro a b ⟨hle, hne⟩
  exact lt_of_le_of_ne hle hne

theorem sortFields_eq_of_perm (h : (fields.map Prod.fst).Nodup) (hperm : others.Perm fields) :
    sortFields others = sortFields fields := by
  have hothers : (others.map Prod.fst).Nodup := (hperm.map Prod.fst).nodup_iff.mpr h
  have hsorted : (sortFields others).Perm (sortFields fields) :=
    (sortFields_perm others).trans (hperm.trans (sortFields_perm fields).symm)
  refine hsorted.eq_of_pairwise ?_ (sortFields_ascending hothers) (sortFields_ascending h)
  intro a b _ _ hab hba
  exact absurd hba (String.lt_asymm hab)

/-! ## The line of an entry -/

/-- Texts under keys, as fields of an object. -/
def texts (fields : List (String × String)) : Json.Fields :=
  fields.map fun field => (field.1, .text field.2)

/-- The fields of the object that the line of an entry spells, in the order of the line. -/
def members (entry : Entry) : Json.Fields :=
  texts (("event", entry.event) :: ("severity", entry.severity.name) :: sortFields entry.fields)

/-- The line of an entry without its line break. -/
def body (entry : Entry) : String := (Json.object entry.members).compact

/-- The fields that an entry tells: of two with one key the later in its line counts. -/
def told (entry : Entry) : Json.Fields := Fields.ofList entry.members

variable {entry : Entry}

theorem map_fst_texts (fields : List (String × String)) :
    (texts fields).map Prod.fst = fields.map Prod.fst := by
  rw [texts, List.map_map]
  rfl

theorem compactFields_texts (fields : List (String × String)) :
    compactFields (texts fields) = fields.flatMap fieldChars ++ ['}'] := by
  induction fields with
  | nil => rfl
  | cons field fields ih =>
    have hmore : compactFields (texts (field :: fields)) =
        ',' :: (quoted field.1 ++ ':' :: (quoted field.2 ++ compactFields (texts fields))) := rfl
    rw [hmore, ih]
    simp [fieldChars]

theorem line_eq (entry : Entry) : entry.line = entry.body.push '\n' := by
  have hbody : entry.body.toList = '{' :: (quoted "event" ++ ':' :: (quoted entry.event ++
      compactFields (texts (("severity", entry.severity.name) :: sortFields entry.fields)))) :=
    String.toList_ofList
  refine String.toList_inj.mp ?_
  rw [String.toList_push, hbody, compactFields_texts]
  simp [line, chars]

theorem le_of_mem_compact_texts {c : Char} (h : c ∈ compactChars (.object (texts fields))) :
    0x20 ≤ c.toNat := by
  have hfields : ∀ others, ∀ d ∈ compactFields (texts others), 0x20 ≤ d.toNat := by
    intro others d hd
    rw [compactFields_texts, List.mem_append, List.mem_flatMap] at hd
    rcases hd with ⟨other, -, hd⟩ | hd
    · simp only [fieldChars, List.mem_cons, List.mem_append] at hd
      rcases hd with rfl | hd | rfl | hd
      · decide
      · exact le_of_mem_quoted hd
      · decide
      · exact le_of_mem_quoted hd
    · rw [List.mem_singleton.mp hd]
      decide
  cases fields with
  | nil =>
    have hbraces : c = '{' ∨ c = '}' := by simpa [texts, compactChars] using h
    rcases hbraces with rfl | rfl <;> decide
  | cons field fields =>
    simp only [texts, List.map_cons, compactChars, List.mem_cons, List.mem_append] at h
    rcases h with rfl | hc | rfl | hc | hc
    · decide
    · exact le_of_mem_quoted hc
    · decide
    · exact le_of_mem_quoted hc
    · exact hfields fields c hc

theorem le_of_mem_body {c : Char} (h : c ∈ entry.body.toList) : 0x20 ≤ c.toNat :=
  le_of_mem_compact_texts (by rwa [body, compact, String.toList_ofList] at h)

theorem exists_text_of_mem_members {field : String × Json} (h : field ∈ entry.members) :
    ∃ s, field.2 = .text s := by
  obtain ⟨named, -, rfl⟩ := List.mem_map.mp h
  exact ⟨named.2, rfl⟩

/-- The line of an entry is read as what it tells, whatever follows it. -/
theorem value?_members {fuel : Nat} (depth : Nat) (rest : List Char)
    (hfuel : (compactChars (.object entry.members)).length ≤ fuel) :
    Reader.value? .kept fuel (depth + 1) (compactChars (.object entry.members) ++ rest) =
      some (.object entry.told, rest) := by
  rw [← spaced_compact 0] at hfuel ⊢
  refine Reader.value?_object (fun field hfield => ?_)
    (Nat.le_trans (Reader.length_le_spaced_object .compact 0 _).1 hfuel)
  obtain ⟨s, hs⟩ := exists_text_of_mem_members hfield
  exact hs ▸ ⟨.text s, fun _ _ => Reader.value?_text s⟩

/-- The line of an entry is read as what it tells, with its line break or without. -/
theorem read?_body (entry : Entry) {blanks : List Char}
    (hblanks : ∀ c ∈ blanks, Reader.isSpace c = true) :
    read? (entry.body ++ String.ofList blanks) = some (.object entry.told) := by
  have hnumbers : (Json.object entry.members).Numbers Number.ReadsBack := by
    refine .object fun field hfield => ?_
    obtain ⟨s, hs⟩ := exists_text_of_mem_members hfield
    exact hs ▸ .text s
  rw [body, compact, ← String.ofList_append, ← spaced_compact 0, read?_eq_readWithin?]
  refine readWithin?_of_value? hblanks hnumbers fun fuel hfuel _ => ?_
  rw [spaced_compact 0] at hfuel ⊢
  exact value?_members _ blanks hfuel

/-- What an entry tells if its keys are different. -/
theorem told_perm (h : ("event" :: "severity" :: entry.fields.map Prod.fst).Nodup) :
    entry.told.Perm (("event", .text entry.event) :: ("severity", .text entry.severity.name) ::
      texts entry.fields) := by
  have hperm : entry.members.Perm (("event", .text entry.event) ::
      ("severity", .text entry.severity.name) :: texts entry.fields) :=
    (((sortFields_perm entry.fields).map _).cons _).cons _
  refine (Fields.ofList_perm ?_).trans hperm
  refine (hperm.map Prod.fst).nodup_iff.mpr ?_
  rwa [List.map_cons, List.map_cons, map_fst_texts]

end Log.Entry

namespace Log

theorem textOf_eq (stream : Stream) (entries : List Entry) :
    textOf stream entries = String.join
      (((entries.filter fun entry => entry.stream = stream).map Entry.body).map
        fun body => body.push '\n') := by
  have hline : Entry.line = (fun body => body.push '\n') ∘ Entry.body := funext Entry.line_eq
  rw [textOf, linesOf, hline, List.map_map]

/-- **Lines tell their entries.**

* Whatever texts stand in an entry, its line ends with its only line break, and has no other
  control character.
* If the keys of an entry are different and none is that of the event or the severity, its line is
  read as the object of the event, the severity and the fields. The line writes them in this order,
  the fields in the order of the bytes of their keys; so the order in which they were given does
  not count.
* What is written to a stream is cut at its line breaks into one text for each entry that is
  admitted, in their order, and each is read as the object that its entry tells. -/
theorem lines_tell_entries :
    (∀ entry : Entry, ∃ body : String, entry.line = body.push '\n' ∧
      ∀ c ∈ body.toList, 0x20 ≤ c.toNat) ∧
    (∀ entry : Entry, ("event" :: "severity" :: entry.fields.map Prod.fst).Nodup →
      (read? entry.line = some (.object entry.told) ∧ entry.told.Ascending ∧
        entry.told.Perm (("event", .text entry.event) ::
          ("severity", .text entry.severity.name) :: Entry.texts entry.fields)) ∧
      (∃ sorted : List (String × String), sorted.Perm entry.fields ∧
        (sorted.Pairwise fun a b => Text.bytes a.1 < Text.bytes b.1) ∧
        entry.line = (Json.object (("event", .text entry.event) ::
          ("severity", .text entry.severity.name) :: Entry.texts sorted)).compact.push '\n') ∧
      ∀ fields, fields.Perm entry.fields → ({ entry with fields } : Entry).line = entry.line) ∧
    ∀ (minimum : Severity) (entries : List Entry) (stream : Stream),
      ∃ lines, Text.pieces '\n' (textOf stream (admitted minimum entries)) = lines ++ [""] ∧
        List.Forall₂ (fun line entry => read? line = some (.object entry.told)) lines
          ((admitted minimum entries).filter fun entry => entry.stream = stream) := by
  refine ⟨fun entry => ⟨entry.body, entry.line_eq, fun c => Entry.le_of_mem_body⟩,
    fun entry hkeys => ⟨⟨?_, ?_, ?_⟩, ?_, ?_⟩, ?_⟩
  · have hbreak : entry.line = entry.body ++ String.ofList ['\n'] := by
      rw [entry.line_eq, ← String.toList_inj]
      simp
    rw [hbreak]
    exact entry.read?_body (List.forall_mem_singleton.mpr rfl)
  · exact Fields.ascending_ofList _
  · exact Entry.told_perm hkeys
  · have hfields : (entry.fields.map Prod.fst).Nodup := hkeys.of_cons.of_cons
    refine ⟨_, Entry.sortFields_perm entry.fields, ?_, entry.line_eq⟩
    exact (Entry.sortFields_ascending hfields).imp Text.bytes_lt_bytes_iff.mpr
  · intro fields hperm
    have hfields : (entry.fields.map Prod.fst).Nodup := hkeys.of_cons.of_cons
    simp only [Entry.line, Entry.chars, Entry.sortFields_eq_of_perm hfields hperm]
  · intro minimum entries stream
    generalize admitted minimum entries = written
    refine ⟨(written.filter fun entry => entry.stream = stream).map Entry.body, ?_, ?_⟩
    · rw [textOf_eq, Text.pieces_join]
      intro body hbody hbreak
      obtain ⟨entry, -, rfl⟩ := List.mem_map.mp hbody
      exact absurd (Entry.le_of_mem_body hbreak) (by decide)
    · rw [List.forall₂_map_left_iff, List.forall₂_same]
      intro entry _
      have hread := entry.read?_body (List.forall_mem_nil _)
      rwa [String.ofList_nil, String.append_empty] at hread

/-- The line of an entry with quotes, line breaks, control characters, letters outside ASCII and the
line of another entry in its texts. -/
theorem lines_tell_entries_hostile :
    let fields := [("z\n", "\\\x01"), ("é", "\"\x7d\n\x7b\"event\":\"B\"\x7d"), ("b", "")]
    let entry : Entry := ⟨.stdout, .warn, "A\"\n", fields⟩
    let written := textOf .stdout (admitted .info [entry, { entry with severity := .trace }, entry])
    entry.line = "\x7b\"event\":\"A\\\"\\n\",\"severity\":\"WARN\",\"b\":\"\"," ++
        "\"z\\n\":\"\\\\\\u0001\"," ++
        "\"é\":\"\\\"\x7d\\n\x7b\\\"event\\\":\\\"B\\\"\x7d\"\x7d\n" ∧
      ("event" :: "severity" :: entry.fields.map Prod.fst).Nodup ∧
      read? entry.line = some (.object entry.told) ∧
      ("é", .text "\"\x7d\n\x7b\"event\":\"B\"\x7d") ∈ entry.told ∧
      ({ entry with fields := fields.reverse } : Entry).line = entry.line ∧
      ∃ lines, Text.pieces '\n' written = lines ++ [""] ∧ lines.length = 2 := by
  intro fields entry written
  have hkeys : ("event" :: "severity" :: entry.fields.map Prod.fst).Nodup := by decide
  obtain ⟨-, hentry, hstream⟩ := lines_tell_entries
  obtain ⟨⟨hread, -, htold⟩, -, horder⟩ := hentry entry hkeys
  obtain ⟨lines, hlines, hobjects⟩ :=
    hstream .info [entry, { entry with severity := .trace }, entry] .stdout
  refine ⟨by decide +kernel, hkeys, hread, htold.mem_iff.mpr ?_,
    horder _ (List.reverse_perm fields), lines, hlines, hobjects.length_eq⟩
  simp [Entry.texts, entry, fields]

end Log

end DocSearch
