import DocSearch.CommandLine.Explain
import DocSearch.Proofs.LogLines
import DocSearch.Proofs.OrderedRequests

/-!
# What the command prints

The command prints the request over several lines and a line break. Where everything is logged, the
line of the log that tells of the compiled request comes before it, on the same stream. So who reads
what is printed as one value gets the request, unless everything is logged: then what is printed is
no value.

* `explain_eq_ok_iff`: when the command succeeds, and with what.
* `Log.Entry.readWithin?_line_append`: a line of the log and more text are not one value.
* `explained_text`: the text for every severity that a configuration may name.
-/

namespace DocSearch

open Json

/-- At no depth an object is read. -/
theorem Json.Reader.value?_zero_brace (fuel : Nat) (cs : List Char) :
    value? .kept fuel 0 ('{' :: cs) = none := by
  have hnumber : number? .kept ('{' :: cs) = none := by
    by_contra hsome
    obtain ⟨⟨n, left⟩, hread⟩ := Option.ne_none_iff_exists'.mp hsome
    obtain ⟨c, rest, hcs, hc⟩ := head_of_number? hread
    obtain ⟨rfl, -⟩ := List.cons.inj hcs
    revert hc
    decide
  simp [value?, hnumber]

/-- A text that goes on after the line of an entry is not read as one value. -/
theorem Log.Entry.readWithin?_line_append (entry : Entry) (depth : Nat) {text : String} {c : Char}
    {cs : List Char} (htext : text.toList = c :: cs) (hc : Reader.isSpace c = false) :
    readWithin? depth (entry.line ++ text) = none := by
  have hchars : (entry.line ++ text).toList =
      compactChars (.object entry.members) ++ '\n' :: c :: cs := by
    rw [entry.line_eq, String.toList_append, String.toList_push, htext, body, compact,
      String.toList_ofList]
    simp
  have hlength : (compactChars (.object entry.members)).length ≤ (entry.line ++ text).length := by
    rw [← String.length_toList, hchars]
    simp
  obtain ⟨more, hmore⟩ : ∃ more, compactChars (.object entry.members) = '{' :: more := ⟨_, rfl⟩
  have hskip : Reader.skipSpace (entry.line ++ text).toList = (entry.line ++ text).toList := by
    rw [hchars, hmore]
    exact Reader.skipSpace_cons rfl
  rw [readWithin?, hskip, hchars]
  cases depth with
  | zero =>
    rw [hmore]
    exact congrArg (Option.bind · Reader.atEnd) (Reader.value?_zero_brace _ _)
  | succ depth =>
    have hleft : Reader.skipSpace ('\n' :: c :: cs) = c :: cs := Reader.skipSpace_cons hc
    rw [value?_members depth _ hlength, Option.bind_some, Reader.atEnd, hleft]
    rfl

namespace CommandLine

variable {around : Surroundings} {invocation : Invocation} {config : Config}
  {minimum : Log.Severity} {description : Json} {request : Request} {out : String}

/-- What the command finds before it prints. -/
structure Explains (around : Surroundings) (invocation : Invocation) (config : Config)
    (minimum : Log.Severity) (description : Json) (request : Request) : Prop where
  config_eq : configOf around invocation.config = .ok config
  severity_eq : config.severity = .ok minimum
  description_eq : ∃ text, descriptionText around invocation.query = .ok text ∧
    parseDescription text = .ok description
  request_eq : compileDescription config description invocation.purpose = .ok request

/-- The entry that tells of the compiled request. -/
def compiledEntry (invocation : Invocation) (request : Request) : Log.Entry :=
  Client.compiledEntry invocation.purpose.name request

/-- What is printed for a request. -/
def printed (minimum : Log.Severity) (invocation : Invocation) (request : Request) : String :=
  Log.textOf .stdout (Log.admitted minimum [compiledEntry invocation request]) ++
    request.pretty ++ "\n"

theorem explain_eq_ok_iff :
    explain around invocation = .ok out ↔ ∃ config minimum description request,
      Explains around invocation config minimum description request ∧
        out = printed minimum invocation request := by
  simp only [explain, bind_eq_ok_iff, mapError_eq_ok_iff]
  constructor
  · rintro ⟨config, hconfig, minimum, hminimum, text, htext, description, hdescription, request,
      hrequest, hout⟩
    cases hout
    exact ⟨config, minimum, description, request,
      ⟨hconfig, hminimum, ⟨text, htext, hdescription⟩, hrequest⟩, rfl⟩
  · rintro ⟨config, minimum, description, request, h, rfl⟩
    obtain ⟨text, htext, hdescription⟩ := h.description_eq
    exact ⟨config, h.config_eq, minimum, h.severity_eq, text, htext, description, hdescription,
      request, h.request_eq, rfl⟩

theorem printed_of_trace :
    printed .trace invocation request =
      (compiledEntry invocation request).line ++ (request.pretty ++ "\n") := by
  have hone : Log.textOf .stdout (Log.admitted .trace [compiledEntry invocation request]) =
      (compiledEntry invocation request).line := String.empty_append
  rw [printed, hone, String.append_assoc]

theorem printed_of_ne_trace (h : minimum ≠ .trace) :
    printed minimum invocation request = request.pretty ++ "\n" := by
  have hnone : Log.admitted minimum [compiledEntry invocation request] = [] := by
    cases minimum with
    | trace => exact absurd rfl h
    | _ => rfl
  have hempty : Log.textOf .stdout [] = "" := rfl
  rw [printed, hnone, hempty, String.empty_append]

theorem Explains.ordered (h : Explains around invocation config minimum description request) :
    request.Ordered := by
  obtain ⟨text, -, hdescription⟩ := h.description_eq
  exact ordered_of_compileDescription (ordered_of_parseDescription hdescription) h.request_eq

theorem Explains.unique {others : Config} {least : Log.Severity} {described : Json}
    {other : Request} (h : Explains around invocation config minimum description request)
    (hother : Explains around invocation others least described other) :
    minimum = least ∧ request = other := by
  cases h.config_eq.symm.trans hother.config_eq
  cases h.severity_eq.symm.trans hother.severity_eq
  obtain ⟨text, htext, hdescription⟩ := h.description_eq
  obtain ⟨found, hfound, hdescribed⟩ := hother.description_eq
  cases htext.symm.trans hfound
  cases hdescription.symm.trans hdescribed
  cases h.request_eq.symm.trans hother.request_eq
  exact ⟨rfl, rfl⟩

/-- **What the command prints.** Let the command succeed. It has found a configuration with a
severity, and a description with a request. If not everything is logged it prints the request over
several lines, a line break, and nothing else; whoever reads this as one value gets the request,
provided that he follows it far enough and its numbers are read back. If everything is logged the
line of the log comes first; then what is printed is not one value. -/
theorem explained_text (h : explain around invocation = .ok out) :
    ∃ config minimum description request,
      Explains around invocation config minimum description request ∧
      (minimum ≠ .trace → out = request.pretty ++ "\n" ∧
        ∀ depth, request.toJson.depth ≤ depth → request.toJson.Numbers Number.ReadsBack →
          readWithin? depth out = some request.toJson) ∧
      (minimum = .trace →
        out = (compiledEntry invocation request).line ++ (request.pretty ++ "\n") ∧
        ∀ depth, readWithin? depth out = none) := by
  obtain ⟨config, minimum, description, request, hexplains, rfl⟩ := explain_eq_ok_iff.mp h
  refine ⟨config, minimum, description, request, hexplains, fun hlevel => ?_, ?_⟩
  · rw [printed_of_ne_trace hlevel]
    refine ⟨rfl, fun depth hdepth hnumbers => ?_⟩
    exact readWithin?_pretty (List.forall_mem_singleton.mpr rfl) hexplains.ordered hnumbers hdepth
  · rintro rfl
    rw [printed_of_trace]
    refine ⟨rfl, fun depth => ?_⟩
    obtain ⟨cs, hbegins⟩ := request.begins_pretty
    have htext : (request.pretty ++ "\n").toList = '{' :: (cs ++ ['\n']) := by
      rw [String.toList_append, hbegins]
      rfl
    exact Log.Entry.readWithin?_line_append _ depth htext rfl

/-- The configuration of a file that has everything logged, the defaults otherwise, and a
description with a limit. -/
def tracingFile : Surroundings where
  file _ := .ok "\x7b\"log_level\":\"trace\"\x7d"
  input := .ok "\x7b\"limit\":5\x7d"
  setting _ := none

def limitRequest : Request :=
  ⟨[("body", .object [("size", .count 5)]), ("index", .text "index")]⟩

theorem explains_default :
    Explains tracingFile {} {} .info (.object [("limit", .count 5)]) limitRequest := by
  refine ⟨?_, ?_, ⟨_, rfl, ?_⟩, ?_⟩
  · decide +kernel
  · decide +kernel
  · rfl
  · rfl

theorem explains_tracing :
    Explains tracingFile { config := some "c.json" } { logLevel := "trace" } .trace
      (.object [("limit", .count 5)]) limitRequest := by
  refine ⟨?_, ?_, ⟨_, rfl, ?_⟩, ?_⟩
  · decide +kernel
  · decide +kernel
  · rfl
  · rfl

/-- The same description under two configurations. -/
theorem explained_text_limit :
    explain tracingFile {} = .ok (limitRequest.pretty ++ "\n") ∧
      readWithin? Reader.greatestDepth (limitRequest.pretty ++ "\n") = some limitRequest.toJson ∧
      ∃ out, explain tracingFile { config := some "c.json" } = .ok out ∧
        ∀ depth, readWithin? depth out = none := by
  have hquiet : explain tracingFile {} = .ok (printed .info {} limitRequest) :=
    explain_eq_ok_iff.mpr ⟨_, _, _, _, explains_default, rfl⟩
  have hloud : explain tracingFile { config := some "c.json" } =
      .ok (printed .trace { config := some "c.json" } limitRequest) :=
    explain_eq_ok_iff.mpr ⟨_, _, _, _, explains_tracing, rfl⟩
  obtain ⟨_, least, _, request, hexplains, htext, -⟩ := explained_text hquiet
  obtain ⟨rfl, rfl⟩ := explains_default.unique hexplains
  obtain ⟨hout, hread⟩ := htext (by decide)
  obtain ⟨_, least, _, request, htraced, -, hlogged⟩ := explained_text hloud
  obtain ⟨rfl, rfl⟩ := explains_tracing.unique htraced
  obtain ⟨-, hunread⟩ := hlogged rfl
  refine ⟨hout ▸ hquiet, hout ▸ hread _ (by decide) ?_, _, hloud, hunread⟩
  simp [limitRequest, Request.toJson, Json.count, Number.readsBack_natural]

/-- What is printed is not always the request alone. -/
theorem not_printed_alone :
    ¬ ∀ (around : Surroundings) (invocation : Invocation) (out : String) (config : Config)
      (minimum : Log.Severity) (description : Json) (request : Request),
      explain around invocation = .ok out →
        Explains around invocation config minimum description request →
          out = request.pretty ++ "\n" := by
  intro h
  have hloud := explain_eq_ok_iff.mpr ⟨_, _, _, _, explains_tracing, rfl⟩
  have halone := h _ _ _ _ _ _ _ hloud explains_tracing
  revert halone
  decide +kernel

end CommandLine

end DocSearch
