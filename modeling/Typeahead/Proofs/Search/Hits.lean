import Typeahead.Proofs.Mapping.Declared
import Typeahead.Proofs.Search.Paging

/-!
# What a hit brings back

A hit of a search carries the document that was written for an object, `ServedHit`.  The client
flattens it to one mapping, and the attributes of the object come back in it as they were written:
`ServedHit.Returned`.  Two names of the mapping are the client's own.  The id of the backend stands
in only where the document has none, but the score of the backend is written over an attribute of
that name.
-/

namespace Typeahead

namespace Entries

/-- What entries written over others hold under a name, when the name decides the value. -/
theorem lookup_overlay {f : String → Value} {top : Entries}
    (h : ∀ e ∈ top, ∃ n, e = (.text n, f n)) (entries : Entries) (m : String) :
    lookup (overlay entries top) (.text m) =
      if .text m ∈ top.map (·.1) then some (f m) else lookup entries (.text m) := by
  induction top generalizing entries with
  | nil => rfl
  | cons e top ih =>
      obtain ⟨n, rfl⟩ := h e List.mem_cons_self
      have hrest :=
        ih (fun d hd => h d (List.mem_cons_of_mem _ hd)) (insert entries (.text n) (f n))
      rw [overlay, List.foldl_cons]
      refine hrest.trans ?_
      rw [lookup_insert, List.map_cons]
      by_cases hmem : .text m ∈ top.map (·.1)
      · rw [if_pos hmem, if_pos (List.mem_cons_of_mem _ hmem)]
      · by_cases hnm : n = m
        · rw [if_neg hmem, if_pos hnm, hnm, if_pos List.mem_cons_self]
        · have hnew : .text m ∉ .text n :: top.map (·.1) := by
            rw [List.mem_cons, Value.text.injEq, not_or]
            exact ⟨fun heq => hnm heq.symm, hmem⟩
          rw [if_neg hmem, if_neg hnm, if_neg hnew]

end Entries

namespace Index

variable {index : Index} {object : Options} {doc : Value}

/-- A document holds every attribute of its index, as it is written, and nothing else. -/
theorem lookup_document (h : index.document object = .ok doc) :
    ∃ entries : Entries, doc = .dict entries ∧ entries.Named ∧ ∀ name : String,
      entries.lookup (.text name) =
        if .text name ∈ index.documentAttrs then some (written (object.getD name .null))
        else none := by
  obtain ⟨entries, rfl, hkeys, hvalues⟩ := document_eq_ok h
  refine ⟨_, rfl, ?_, fun name => ?_⟩
  · exact Entries.named_overlay (List.forall_mem_nil _) (Entries.named_of_values hvalues)
  · rw [← hkeys]
    exact Entries.lookup_overlay hvalues [] name

/-- What a hit carries: the document that was written for an object, or none. -/
inductive Carries (index : Index) (hit : Entries) : Option Options → Prop
  | document {object : Options} (h : index.document object = .ok (hit.get "_source")) :
      Carries index hit (some object)
  | missing (h : hit.get "_source" = .null) : Carries index hit none
  | empty (h : hit.get "_source" = .dict []) : Carries index hit none

end Index

/-- A hit of a search on an index, with the object that its document was written for. -/
structure ServedHit (index : Index) where
  object : Option Options
  entries : Entries
  carries : index.Carries entries object

namespace ServedHit

variable {index : Index}

/-- A hit in the form that is received. -/
def toValue (hit : ServedHit index) : Value := .dict hit.entries

/-- What a hit is turned into.  It has every entry of the written document but one for `score`, and
so every attribute of the object; the id of the backend if there is no document; the score of the
backend; and nothing else. -/
structure Returned (hit : ServedHit index) (record : Entries) : Prop where
  document : ∀ object (entries : Entries), hit.object = some object →
    index.document object = .ok (.dict entries) →
    ∀ key v, entries.lookup key = some v → key ≠ .text "score" → record.lookup key = some v
  attributes : ∀ object, hit.object = some object → ∀ name, .text name ∈ index.documentAttrs →
    name ≠ "score" → record.lookup (.text name) = some (Index.written (object.getD name .null))
  id : hit.object = none → record.lookup (.text "id") = some (hit.entries.get "_id")
  score : record.lookup (.text "score") = some (hit.entries.get "_score")
  rest : ∀ name, name ≠ "id" → name ≠ "score" →
    (hit.object.isSome → .text name ∉ index.documentAttrs) → record.lookup (.text name) = none

/-- What the document of a hit holds under a name. -/
def written? (hit : ServedHit index) (name : String) : Option Value :=
  hit.object.bind fun object =>
    if .text name ∈ index.documentAttrs then some (Index.written (object.getD name .null)) else none

theorem written?_id (hit : ServedHit index) :
    hit.written? "id" = hit.object.map fun object => Index.written (object.getD "id" .null) := by
  have hid : .text "id" ∈ index.documentAttrs := List.mem_cons_self
  cases hobject : hit.object with
  | none => simp [written?, hobject]
  | some object => simp [written?, hobject, hid]

/-- A hit is read from its document, or from an empty one. -/
theorem exists_source (hit : ServedHit index) : ∃ source : Entries,
    FieldTypes.entriesOf ((hit.entries.get "_source").orElse (.dict [])) = .ok source ∧
      source.Named ∧ ∀ name, source.lookup (.text name) = hit.written? name := by
  obtain ⟨object, hit, hcarries⟩ := hit
  cases hcarries with
  | document h =>
      obtain ⟨source, hsource, hnamed, hlookup⟩ := Index.lookup_document h
      refine ⟨source, ?_, hnamed, hlookup⟩
      rw [hsource, Value.orElse]
      split
      · rfl
      · next hempty =>
        have hnil : source = [] := by simpa [Value.truthy] using hempty
        rw [hnil]
        rfl
  | missing h => exact ⟨[], by rw [h]; rfl, List.forall_mem_nil _, fun _ => rfl⟩
  | empty h => exact ⟨[], by rw [h]; rfl, List.forall_mem_nil _, fun _ => rfl⟩

/-- The names of the client go over a document in their own ways: the id where it is missing, the
score always. -/
theorem exists_readHit (hit : ServedHit index) : ∃ record : Entries,
    Client.readHit hit.toValue = .ok (.dict record) ∧ record.Named ∧
      ∀ name, record.lookup (.text name) =
        if name = "score" then some (hit.entries.get "_score")
        else if name = "id" then some ((hit.written? "id").getD (hit.entries.get "_id"))
        else hit.written? name := by
  obtain ⟨source, hsource, hnamed, hlookup⟩ := hit.exists_source
  refine ⟨_, (Outcome.bind_eq_ok_iff _ _ _).mpr ⟨source, hsource, rfl⟩, ?_, fun name => ?_⟩
  · refine Entries.named_insert ?_ "score" _
    split
    · exact hnamed
    · exact Entries.named_insert hnamed "id" _
  · rw [Entries.lookup_insert]
    by_cases hscore : "score" = name
    · rw [if_pos hscore, if_pos hscore.symm]
    · have hne : ¬ name = "score" := fun heq => hscore heq.symm
      rw [if_neg hscore, if_neg hne, Entries.has, hlookup]
      cases hid : hit.written? "id" with
      | some v =>
          rw [Option.isSome_some, if_pos rfl, hlookup]
          split
          · next heq => rw [heq, hid, Option.getD_some]
          · rfl
      | none =>
          rw [Option.isSome_none, if_neg Bool.false_ne_true, Entries.lookup_insert, hlookup]
          simp only [eq_comm, Option.getD_none]

/-- A hit is turned into what was written and what the backend says about it. -/
theorem exists_returned (hit : ServedHit index) : ∃ record : Entries,
    Client.readHit hit.toValue = .ok (.dict record) ∧ record.Named ∧ hit.Returned record := by
  obtain ⟨record, hrecord, hnamed, hlookup⟩ := hit.exists_readHit
  have hattributes : ∀ object, hit.object = some object → ∀ name,
      .text name ∈ index.documentAttrs → name ≠ "score" →
      record.lookup (.text name) = some (Index.written (object.getD name .null)) := by
    intro object hobject name hname hscore
    rw [hlookup, if_neg hscore]
    split
    · next hid => rw [written?_id, hobject, hid]; rfl
    · rw [written?, hobject, Option.bind_some, if_pos hname]
  refine ⟨record, hrecord, hnamed, ?_, hattributes, ?_, ?_, ?_⟩
  · intro object entries hobject hdocument key v hv hscore
    obtain ⟨entries', heq, hnamed', hentries⟩ := Index.lookup_document hdocument
    obtain rfl := Value.dict.inj heq
    obtain ⟨name, rfl⟩ := Entries.text_of_lookup hnamed' hv
    rw [hentries] at hv
    split at hv
    · next hname =>
      rw [← hv]
      exact hattributes object hobject name hname fun heq => hscore (congrArg Value.text heq)
    · cases hv
  · intro hnone
    rw [hlookup, if_neg (by decide), if_pos rfl, written?_id, hnone]
    rfl
  · rw [hlookup, if_pos rfl]
  · intro name hid hscore hother
    rw [hlookup, if_neg hscore, if_neg hid, written?]
    cases hobject : hit.object with
    | none => rfl
    | some object =>
        rw [Option.bind_some, if_neg (hother (by rw [hobject]; rfl))]

/-- All hits are turned into mappings, in their order. -/
theorem exists_records (hits : List (ServedHit index)) : ∃ records : List Entries,
    (hits.map toValue).mapM Client.readHit = .ok (records.map .dict) ∧
      (∀ entries ∈ records, entries.Named) ∧ List.Forall₂ Returned hits records := by
  induction hits with
  | nil => exact ⟨[], rfl, List.forall_mem_nil _, .nil⟩
  | cons hit hits ih =>
      obtain ⟨record, hrecord, hnamed, hreturned⟩ := hit.exists_returned
      obtain ⟨records, hrecords, hall, hlined⟩ := ih
      refine ⟨record :: records, ?_, List.forall_mem_cons.mpr ⟨hnamed, hall⟩,
        .cons hreturned hlined⟩
      rw [List.map_cons, List.mapM_cons, hrecord, hrecords]
      rfl

end ServedHit

namespace Client

/-- A query body with a window: its start and its size are whole numbers where they are given. -/
structure Windowed (entries : Entries) : Prop where
  size : entries.get "size" = .null ∨ ∃ n, entries.get "size" = .int n
  start : entries.lookup (.text "from") = none ∨ ∃ n, entries.lookup (.text "from") = some (.int n)

theorem Windowed.exists_window {entries : Entries} (h : Windowed entries) :
    ∃ size page, readWindow (.dict entries) = .ok (.int size, .int page) := by
  obtain ⟨size, hsize⟩ : ∃ size, (entries.get "size").orElse (.int 50) = .int size := by
    rcases h.size with hnull | ⟨n, hn⟩
    · exact ⟨50, by rw [hnull]; rfl⟩
    · rw [hn, Value.orElse]
      split
      · exact ⟨n, rfl⟩
      · exact ⟨50, rfl⟩
  obtain ⟨start, hstart⟩ :
      ∃ start, (entries.lookup (.text "from")).getD (.int 0) = .int start := by
    rcases h.start with hnone | ⟨n, hn⟩
    · exact ⟨0, by rw [hnone]; rfl⟩
    · exact ⟨n, by rw [hn]; rfl⟩
  refine ⟨size, Int.fdiv start size + 1, ?_⟩
  rw [readWindow, hsize, hstart]
  rfl

/-- A compiled body has a window. -/
theorem exists_windowed (b : SearchBody) :
    ∃ entries, b.toValue = .dict entries ∧ Windowed entries :=
  let ⟨entries, hentries, hsize, hstart⟩ := b.toValue_eq
  ⟨entries, hentries, .inr ⟨_, hsize⟩, .inr ⟨_, hstart⟩⟩

theorem search_of_readPage (client : Client) {backend : Backend} {target body reply : Value}
    {page : Page} {sent : List Call} (hbackend : backend sent.length = .ok reply)
    (hpage : readPage target body reply = .ok page) :
    client.search backend target body sent = (.ok page, sent ++ [.search target body]) := by
  simp [search, Exchange.andThen, Exchange.call, Exchange.lift, hbackend, hpage]

/-- A search brings the written documents back.  There are as many hits as the backend has sent, in
the same order; each holds what was written for its object under every name but `score`, the id of
the backend if it has no document, and the score of the backend. -/
theorem search_returns_written {index : Index} {hits : List (ServedHit index)} {reply : Value}
    {total : Int} (hreply : Lists reply total (hits.map ServedHit.toValue)) {body : Entries}
    (hbody : Windowed body) {target : Value} (htarget : target.isWritable = true)
    (client : Client) {backend : Backend} {sent : List Call}
    (hbackend : backend sent.length = .ok reply) :
    ∃ page, client.search backend target (.dict body) sent =
        (.ok page, sent ++ [.search target (.dict body)]) ∧ page.total = total ∧
      List.Forall₂ ServedHit.Returned hits page.hits := by
  obtain ⟨records, hrecords, hnamed, hreturned⟩ := ServedHit.exists_records hits
  obtain ⟨size, number, hwindow⟩ := hbody.exists_window
  have hpage := readPage_eq hreply hrecords hnamed hwindow htarget
  exact ⟨_, search_of_readPage client hbackend hpage, rfl, hreturned⟩

/-- Matches, searched by their names and their scores. -/
def matchIndex : Except Failure Index :=
  Index.create ⟨[], none⟩
    ⟨"Match", some ⟨"matches", [⟨"id", "id", .generic .integer, true, false⟩,
      ⟨"name", "name", .generic .string, false, true⟩,
      ⟨"score", "score", .generic .string, false, true⟩]⟩⟩
    .null (some ⟨.standard, .standard⟩) [("search_attrs", .list [.text "name", .text "score"])]

/-- A match. -/
def matchObject : Options := [("id", .int 7), ("name", .text "Bern"), ("score", .text "3:1")]

/-- The document of `matchObject`. -/
def matchDocument : Entries :=
  [(.text "id", .int 7), (.text "created_at", .null), (.text "name", .text "Bern"),
    (.text "score", .text "3:1")]

/-- A hit with the document of `matchObject`. -/
def matchHit : Entries :=
  [(.text "_id", .text "7"), (.text "_score", .int 2), (.text "_source", .dict matchDocument)]

/-- A hit without a document. -/
def bareHit : Entries := [(.text "_id", .text "8"), (.text "_score", .int 1)]

/-- A reply with both hits. -/
def matchReply : Value :=
  .dict [(.text "hits", .dict [(.text "total", .dict [(.text "value", .int 2)]),
    (.text "hits", .list [.dict matchHit, .dict bareHit])])]

/-- A search for matches. -/
def matchBody : SearchBody where
  query := .compound (some (.multiMatch "ber" [.text "name"])) [] none
  sort := []
  offset := 0
  size := 50

theorem lists_matchReply : Lists matchReply 2 [.dict matchHit, .dict bareHit] where
  listed := ⟨_, _, rfl, rfl, .inr ⟨_, rfl, rfl⟩, rfl⟩
  received := by decide +kernel

theorem document_matchIndex : ∃ index, matchIndex = .ok index ∧
    index.document matchObject = .ok (.dict matchDocument) := by
  have hattrs : matchIndex.map Index.searchAttrs = .ok [.text "name", .text "score"] := rfl
  cases h : matchIndex with
  | error e =>
      rw [h] at hattrs
      cases hattrs
  | ok index =>
      rw [h] at hattrs
      refine ⟨index, rfl, ?_⟩
      rw [Index.document, Index.documentAttrs, Except.ok.inj hattrs]
      rfl

/-- A match and a hit without a document. -/
theorem search_returns_written_matchReply : ∃ index, matchIndex = .ok index ∧
    ∃ hits : List (ServedHit index), hits.map ServedHit.toValue = [.dict matchHit, .dict bareHit] ∧
      hits.map ServedHit.object = [some matchObject, none] ∧
      ∃ page, search ⟨.text "localhost", ⟨.standard, .standard⟩⟩ (fun _ => .ok matchReply)
          (.text "matches") matchBody.toValue [] =
            (.ok page, [.search (.text "matches") matchBody.toValue]) ∧
        page.total = 2 ∧ List.Forall₂ ServedHit.Returned hits page.hits := by
  obtain ⟨index, hindex, hdocument⟩ := document_matchIndex
  let hits : List (ServedHit index) :=
    [⟨some matchObject, matchHit, .document hdocument⟩, ⟨none, bareHit, .missing rfl⟩]
  obtain ⟨entries, hentries, hwindowed⟩ := exists_windowed matchBody
  have hlists : Lists matchReply 2 (hits.map ServedHit.toValue) := lists_matchReply
  rw [hentries]
  exact ⟨index, hindex, hits, rfl, rfl, search_returns_written hlists hwindowed rfl
    ⟨.text "localhost", ⟨.standard, .standard⟩⟩ rfl⟩

/-- An attribute of the name `score` does not come back: the score of the backend stands there. -/
theorem exists_score_overwritten : ∃ index, matchIndex = .ok index ∧
    index.document matchObject = .ok (matchHit.get "_source") ∧
    matchDocument.get "score" = .text "3:1" ∧
    ∃ page, search ⟨.text "localhost", ⟨.standard, .standard⟩⟩ (fun _ => .ok matchReply)
        (.text "matches") matchBody.toValue [] =
          (.ok page, [.search (.text "matches") matchBody.toValue]) ∧
      page.hits.map (fun hit => hit.get "score") = [.int 2, .int 1] := by
  obtain ⟨index, hindex, hdocument⟩ := document_matchIndex
  obtain ⟨entries, hentries, hwindowed⟩ := exists_windowed matchBody
  obtain ⟨size, number, hwindow⟩ := hwindowed.exists_window
  let records : List Entries :=
    [[(.text "id", .int 7), (.text "created_at", .null), (.text "name", .text "Bern"),
        (.text "score", .int 2)],
      [(.text "id", .text "8"), (.text "score", .int 1)]]
  have hrecords : [Value.dict matchHit, .dict bareHit].mapM readHit = .ok (records.map .dict) := rfl
  have hnamed : ∀ record ∈ records, Entries.Named record := by
    simp [records, Entries.Named, -Prod.forall]
  have htarget : (Value.text "matches").isWritable = true := rfl
  have hpage := readPage_eq lists_matchReply hrecords hnamed hwindow htarget
  rw [hentries]
  exact ⟨index, hindex, hdocument, rfl, _, search_of_readPage _ rfl hpage, rfl⟩

end Client

end Typeahead
