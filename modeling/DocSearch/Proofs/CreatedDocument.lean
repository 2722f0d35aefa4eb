import DocSearch.Proofs.WriteAnswers

/-!
# Created documents

A document is sent as it is. Its id goes beside it, if it has one: the text or the number in the
field that the caller names. Once it is stored, the caller gets the document back with the id that
it is stored under and with the answer of the engine, which take the place of a former `_id` and
`_result`.

* `Call.idOf_eq_some_iff`: the id of a document.
* `Compile.exists_create`: the request for a document.
* `Call.exists_written_create`: the document that the caller gets back.
* `created_document_kept`: all of it, for any document and any query that compiles.
-/

namespace DocSearch

/-! ## What is sent -/

section Sent

variable {body : Option Json} {id documentType : Option String} {index : String}

theorem Request.get?_id_assembled :
    (Request.assembled body id index documentType).get? "id" = id.map .text := by
  cases body <;> cases id <;> cases documentType <;> rfl

theorem Request.body?_assembled :
    (Request.assembled body id index documentType).body? = body := by
  cases body <;> cases id <;> cases documentType <;> rfl

theorem Call.idOf_eq_some_iff {document : Json} {idField name : String} :
    idOf document idField = some name ↔
      document.get? idField = some (.text name) ∨ ∃ n : Json.Number,
        document.get? idField = some (.number n) ∧ String.ofList n.text = name := by
  rw [idOf]
  cases document.get? idField with
  | none => simp
  | some value => cases value <;> simp [Json.nameText?]

theorem Compile.exists_create {q : QueryState} (document : Json) (id : Option String)
    (h : ∃ resolved, resolve q = .ok resolved) :
    ∃ index documentType,
      create q id document = .ok (.assembled (some document) id index documentType) := by
  obtain ⟨hindex, hquery⟩ := exists_resolve_iff.mp h
  obtain ⟨index, documentType, hnames⟩ := QueryState.isSet_index_iff.mp hindex
  exact ⟨index, documentType, create_eq_ok_iff.mpr ⟨hquery, index, documentType, hnames, rfl⟩⟩

end Sent

/-! ## What is given back -/

theorem Call.confirms_create_iff {document : Json} {idField status : String} :
    (Call.create document idField).Confirms status ↔ status = "created" := by
  rw [← mem_successes_iff, successes, List.mem_singleton]

theorem Call.createdId_eq (document : Json) (idField : String) (answer : Json) :
    createdId document idField answer =
      ((idOf document idField).map .text).getD ((answer.get? "_id").getD .null) := by
  rw [createdId]
  cases idOf document idField <;> rfl

/-- The document that is given back differs from the one that was sent under two keys only. -/
theorem Call.exists_written_create (fields : Json.Fields) (idField : String) (answer : Json)
    (status : String) :
    ∃ given : Json.Fields,
      ((Call.create (.object fields) idField).written answer status).1 = .value (.object given) ∧
        (∀ key, key ≠ "_id" → key ≠ "_result" → given.get? key = fields.get? key) ∧
        given.get? "_result" = some answer ∧
        given.get? "_id" = some (createdId (.object fields) idField answer) := by
  refine ⟨_, rfl, fun key hid hresult => ?_, ?_, ?_⟩
  · rw [Json.Fields.get?_insert, if_neg hresult, Json.Fields.get?_insert, if_neg hid]
    rfl
  · rw [Json.Fields.get?_insert, if_pos rfl]
  · rw [Json.Fields.get?_insert, if_neg (by decide), Json.Fields.get?_insert, if_pos rfl]

/-- **A created document is kept.** Let the query of a client compile. The document is sent as it
is, with an id beside it exactly if the named field is a text or a number: that text, or the text of
the number. The call succeeds exactly if the engine answers that the document is created. The
caller then gets the document with the answer under `_result` and under `_id` the id that was sent,
or else the one of the answer, or null; all other keys are those of the document. -/
theorem created_document_kept (client : Client) (fields : Json.Fields) (idField : String)
    (hcompiles : ∃ resolved, Compile.resolve client.query = .ok resolved) :
    let call : Call := .create (.object fields) idField
    ∃ request : Request,
      (∀ reply, (client.call call reply).sent = some (.create, request)) ∧
      request.body? = some (.object fields) ∧
      (∀ id, request.get? "id" = some id ↔
        ∃ name, id = .text name ∧ (fields.get? idField = some (.text name) ∨
          ∃ n : Json.Number, fields.get? idField = some (.number n) ∧
            String.ofList n.text = name)) ∧
      (∀ reply, (∃ outcome, (client.call call reply).result = .ok outcome) ↔
        ∃ answer, reply.answer = .ok answer ∧ answer.get? "result" = some (.text "created")) ∧
      ∀ reply answer outcome, reply.answer = .ok answer →
        (client.call call reply).result = .ok outcome →
        ∃ given : Json.Fields, outcome = .value (.object given) ∧
          (∀ key, key ≠ "_id" → key ≠ "_result" → given.get? key = fields.get? key) ∧
          given.get? "_result" = some answer ∧
          given.get? "_id" = some ((request.get? "id").getD ((answer.get? "_id").getD .null)) := by
  intro call
  obtain ⟨index, documentType, hrequest⟩ :=
    Compile.exists_create (.object fields) (Call.idOf (.object fields) idField) hcompiles
  have hsent : ∀ reply, (client.call call reply).sent = some (call.operation,
      .assembled (some (.object fields)) (Call.idOf (.object fields) idField) index documentType) :=
    fun reply => Client.sent_of_compiled rfl hrequest
  have hsome : ∀ reply, (client.call call reply).sent.isSome := by
    intro reply
    rw [hsent reply, Option.isSome_some]
  have hwrite : call.IsWrite := .create _ _
  have hflush : call ≠ .flush := nofun
  refine ⟨_, hsent, Request.body?_assembled, fun id => ?_, fun reply => ?_, ?_⟩
  · rw [Request.get?_id_assembled, Option.map_eq_some_iff]
    simp only [Call.idOf_eq_some_iff, eq_comm (a := id), and_comm]
    rfl
  · rw [Client.exists_ok_iff hwrite hflush (hsome reply)]
    constructor
    · rintro ⟨answered, status, hanswer, hstatus, hconfirms⟩
      obtain rfl := Call.confirms_create_iff.mp hconfirms
      exact ⟨.object answered, hanswer, hstatus⟩
    · rintro ⟨answer, hanswer, hstatus⟩
      obtain ⟨answered, rfl, hanswered⟩ := Json.get?_eq_some_iff.mp hstatus
      exact ⟨answered, "created", hanswer, hanswered, .created⟩
  · intro reply answer outcome hanswer hok
    obtain ⟨found, status, hfound, -, -, rfl⟩ :=
      Client.confirmed_of_ok hwrite hflush (hsome reply) hok
    cases hanswer.symm.trans hfound
    rw [Request.get?_id_assembled, ← Call.createdId_eq]
    exact Call.exists_written_create fields idField answer status

/-- A document that was stored before, with a number for an id. -/
theorem created_document_kept_again :
    let client : Client := { query := .forIndex "users" }
    let former : Json.Fields :=
      [("_id", .text "7"), ("_result", .null), ("age", .count 30), ("number", .count 8)]
    let create : Call := .create (.object former) "number"
    let answer : Json := .object [("_id", .text "9"), ("result", .text "created")]
    (∃ resolved, Compile.resolve client.query = .ok resolved) ∧
      (client.call create ⟨.ok answer, 0⟩).sent =
        some (.create, .assembled (some (.object former)) (some "8") "users" none) ∧
      ∃ given : Json.Fields,
        (client.call create ⟨.ok answer, 0⟩).result = .ok (.value (.object given)) ∧
        given.get? "age" = some (.count 30) ∧ given.get? "_result" = some answer ∧
        given.get? "_id" = some (.text "8") := by
  intro client former create answer
  have hcompiles : ∃ resolved, Compile.resolve client.query = .ok resolved := ⟨_, rfl⟩
  obtain ⟨request, hsent, -, -, hok, hgiven⟩ :=
    created_document_kept client former "number" hcompiles
  cases hsent ⟨.ok answer, 0⟩
  obtain ⟨outcome, houtcome⟩ := (hok ⟨.ok answer, 0⟩).mpr ⟨answer, rfl, rfl⟩
  obtain ⟨given, rfl, hrest, hresult, hid⟩ := hgiven _ _ _ rfl houtcome
  exact ⟨hcompiles, rfl, given, houtcome, hrest "age" (by decide) (by decide), hresult, hid⟩

end DocSearch
