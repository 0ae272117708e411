import Mathlib.Order.Bounds.Basic
import Typeahead.Client.Basic
import Typeahead.Proofs.Index.Contents
import Typeahead.Proofs.Search.Meaning
import Typeahead.Proofs.Search.Requests

/-!
# Pages through a query body

A query body has no page number: it has the window of a page, as the first position and the
size.  The client gets the page back from these and counts the pages of all hits.  For a
valid request both fit: the page that comes back is the page that was asked for, there are as
many pages as the hits fill, and the windows of these pages share the hits out.
-/

namespace Typeahead

namespace Numeral

/-- Numbers that are closer to zero are not longer. -/
theorem exceedsLimit_of_le {m n : Int} (hle : m.natAbs ≤ n.natAbs)
    (h : exceedsLimit n = false) : exceedsLimit m = false := by
  rw [exceedsLimit, decide_eq_false_iff_not, not_le] at h ⊢
  exact hle.trans_lt h

end Numeral

namespace SearchBody

/-- Where the window stands in the form that is sent. -/
theorem toValue_eq (b : SearchBody) : ∃ entries : Entries, b.toValue = .dict entries ∧
    entries.get "size" = .int b.size ∧
    entries.lookup (.text "from") = some (.int b.offset) := ⟨_, rfl, rfl, rfl⟩

/-- A body can be written down when its parts can. -/
theorem isWritable_toValue (b : SearchBody) :
    b.toValue.isWritable = true ↔ b.query.toValue.isWritable = true ∧
      Value.areWritable (b.sort.map SortEntry.toValue) = true ∧
      Numeral.exceedsLimit b.offset = false ∧ Numeral.exceedsLimit b.size = false := by
  simp [toValue, Value.isWritable, Value.entriesWritable]

end SearchBody

namespace Page

/-- The pages count as enough exactly when they have room for all hits. -/
theorem totalPages_le_iff {p : Page} (hsize : 0 < p.perPage) (k : Int) :
    p.totalPages ≤ k ↔ p.total ≤ k * p.perPage := by
  have hround : -p.total / p.perPage ≥ -k ↔ -k * p.perPage ≤ -p.total :=
    Int.le_ediv_iff_mul_le hsize
  rw [totalPages, if_neg hsize.ne', Int.fdiv_eq_ediv_of_nonneg _ hsize.le, neg_le, ← ge_iff_le,
    hround, Int.neg_mul, neg_le_neg_iff]

end Page

namespace Request

/-- What a request needs for its pages to make sense. -/
structure Paged (r : Request) : Prop where
  page : 1 ≤ r.page
  perPage : 1 ≤ r.perPage

theorem positiveInt_pos {default n : Int} {v : Value} (hdefault : 0 < default)
    (h : positiveInt default v = .ok n) : 0 < n := by
  rw [positiveInt] at h
  split at h
  · obtain ⟨found, _, h⟩ := (Outcome.bind_eq_ok_iff _ _ _).mp h
    cases found with
    | none =>
        rw [← (Outcome.pure_eq_ok_iff _ _).mp h]
        exact hdefault
    | some m =>
        rw [← (Outcome.pure_eq_ok_iff _ _).mp h]
        split
        · next hm => exact hm
        · exact hdefault
  · rw [← (Outcome.pure_eq_ok_iff _ _).mp h]
    exact hdefault

theorem positiveInt_of_pos (default : Int) {n : Int} (h : 0 < n) :
    positiveInt default (.int n) = .ok n := by
  have hpresent : GeoPoint.present (.int n) = true := rfl
  rw [positiveInt, if_pos hpresent]
  refine (Outcome.bind_eq_ok_iff _ _ _).mpr ⟨some n, rfl, ?_⟩
  rw [Outcome.pure_eq_ok_iff, if_pos h]

/-- A valid request, and the same request for another page. -/
theorem paged_of_ofOptions {options : Options} {r : Request} (h : ofOptions options = .ok r) :
    r.Paged ∧ ∀ k, 0 < k →
      ofOptions (options.set "page" (.int k)) = .ok { r with page := k } := by
  have hread := ofOptions_eq_ok_iff.mp h
  refine ⟨⟨positiveInt_pos (by decide) hread.page, positiveInt_pos (by decide) hread.perPage⟩, ?_⟩
  intro k hk
  have hother : ∀ name d, name ≠ "page" →
      (options.set "page" (.int k)).getD name d = options.getD name d := by
    intro name d hname
    rw [Options.getD_set, if_neg hname.symm]
  refine ofOptions_eq_ok_iff.mpr
    (hread.renumbered (fun name d hname _ => hother name d hname) ?_ ?_)
  · rw [Options.getD_set, if_pos rfl]
    exact positiveInt_of_pos _ hk
  · rw [hother _ _ (by decide)]
    exact hread.perPage

variable {r : Request} {defaults : List Value} {typeOf : Value → Except Failure Value}
  {geoField : Value} {body : SearchBody}

/-- A compiled body has the window of its page and can be written down. -/
theorem window_of_compile (h : r.compile defaults typeOf geoField = .ok body) :
    body.offset = r.offset ∧ body.size = r.perPage ∧ body.toValue.isWritable = true := by
  obtain ⟨_, _, _, _, _, _, hwritable, rfl⟩ := compile_eq_ok_iff.mp h
  exact ⟨rfl, rfl, hwritable⟩

/-- Another page of a compiled request is the same body with another start, unless that is too
long to be written. -/
theorem compile_page (h : r.compile defaults typeOf geoField = .ok body) {k : Int}
    (hstart : Numeral.exceedsLimit ((k - 1) * r.perPage) = false) :
    compile defaults typeOf geoField { r with page := k } =
      .ok { body with offset := (k - 1) * r.perPage } := by
  obtain ⟨point, qs, distance, hpoint, hqs, hdistance, hwritable, rfl⟩ := compile_eq_ok_iff.mp h
  rw [SearchBody.isWritable_toValue] at hwritable
  refine compile_eq_ok_iff.mpr ⟨point, qs, distance, hpoint, hqs, hdistance, ?_, rfl⟩
  exact SearchBody.isWritable_toValue _ |>.mpr
    ⟨hwritable.1, hwritable.2.1, hstart, hwritable.2.2.2⟩

end Request

namespace Client

/-- A hit as a backend sends it: a mapping in which the document, if there is one, is a mapping
with names for keys. -/
def IsHit (v : Value) : Prop :=
  ∃ hit : Entries, v = .dict hit ∧ (hit.get "_source" = .null ∨
    ∃ source : Entries, hit.get "_source" = .dict source ∧ source.Named)

/-- A reply to a search as a backend sends it.  It has the number of all hits, plain or inside
a mapping, and it lists hits.  Numbers beyond the digit limit cannot be received. -/
structure Reports (reply : Value) (total : Int) : Prop where
  hits : ∃ (outer inner : Entries) (items : List Value), reply = .dict outer ∧
    outer.lookup (.text "hits") = some (.dict inner) ∧
    (inner.lookup (.text "total") = some (.int total) ∨
      ∃ counted : Entries, inner.lookup (.text "total") = some (.dict counted) ∧
        counted.lookup (.text "value") = some (.int total)) ∧
    inner.lookup (.text "hits") = some (.list items) ∧ ∀ hit ∈ items, IsHit hit
  received : Numeral.exceedsLimit total = false

theorem member_of_lookup {entries : Entries} {name : String} {v : Value}
    (h : entries.lookup (.text name) = some v) : member name (.dict entries) = .ok v := by
  rw [member, h]

/-- The document of a hit is a mapping with names for keys. -/
theorem readHit_ok {v : Value} (h : IsHit v) :
    ∃ entries : Entries, readHit v = .ok (.dict entries) ∧ entries.Named := by
  obtain ⟨hit, rfl, hsource⟩ := h
  obtain ⟨source, hentries, hnamed⟩ : ∃ source : Entries,
      FieldTypes.entriesOf ((hit.get "_source").orElse (.dict [])) = .ok source ∧
        source.Named := by
    rcases hsource with hnull | ⟨source, hsource, hnamed⟩
    · rw [hnull]
      exact ⟨[], rfl, fun e he => absurd he List.not_mem_nil⟩
    · rw [hsource, Value.orElse]
      split
      · exact ⟨source, rfl, hnamed⟩
      · exact ⟨[], rfl, fun e he => absurd he List.not_mem_nil⟩
  refine ⟨_, (Outcome.bind_eq_ok_iff _ _ _).mpr ⟨source, hentries, rfl⟩, ?_⟩
  refine Entries.named_insert ?_ "score" _
  split
  · exact hnamed
  · exact Entries.named_insert hnamed "id" _

theorem keyIssues_of_named {entries : Entries} (h : entries.Named) :
    Check.keyIssues entries = [] := by
  refine List.filterMap_eq_nil_iff.mpr fun e he => ?_
  obtain ⟨n, hn⟩ := h e he
  rw [hn]

/-- Mappings with names for keys pass the check of a page. -/
theorem items_readRecord {records : List Entries} (h : ∀ entries ∈ records, entries.Named)
    (n : Nat) : Check.items Check.readRecord n (records.map .dict) = .ok records := by
  induction records generalizing n with
  | nil => rfl
  | cons entries records ih =>
      have hrecord : Check.readRecord (.dict entries) = .ok entries := by
        rw [Check.readRecord, if_pos (keyIssues_of_named (h entries List.mem_cons_self))]
      rw [List.map_cons, Check.items, hrecord,
        ih (fun e he => h e (List.mem_cons_of_mem entries he)) (n + 1)]

/-- The hits of a reply are read as mappings with names for keys. -/
theorem mapM_readHit_ok {items : List Value} (h : ∀ hit ∈ items, IsHit hit) :
    ∃ records : List Entries, items.mapM readHit = .ok (records.map .dict) ∧
      ∀ entries ∈ records, entries.Named := by
  induction items with
  | nil => exact ⟨[], rfl, List.forall_mem_nil _⟩
  | cons item items ih =>
      obtain ⟨entries, hentries, hnamed⟩ := readHit_ok (h item List.mem_cons_self)
      obtain ⟨records, hrecords, hall⟩ := ih fun hit hhit => h hit (List.mem_cons_of_mem item hhit)
      refine ⟨entries :: records, ?_, List.forall_mem_cons.mpr ⟨hnamed, hall⟩⟩
      rw [List.mapM_cons, hentries, hrecords]
      rfl

/-- A reply that lists hits, with the number of all hits. -/
structure Lists (reply : Value) (total : Int) (items : List Value) : Prop where
  listed : ∃ outer inner : Entries, reply = .dict outer ∧
    outer.lookup (.text "hits") = some (.dict inner) ∧
    (inner.lookup (.text "total") = some (.int total) ∨
      ∃ counted : Entries, inner.lookup (.text "total") = some (.dict counted) ∧
        counted.lookup (.text "value") = some (.int total)) ∧
    inner.lookup (.text "hits") = some (.list items)
  received : Numeral.exceedsLimit total = false

variable {reply : Value} {total : Int} {items : List Value}

theorem Lists.readTotal_eq (h : Lists reply total items) : readTotal reply = .ok (.int total) := by
  obtain ⟨outer, inner, rfl, houter, htotal, _⟩ := h.listed
  refine (Outcome.bind_eq_ok_iff _ _ _).mpr ⟨_, member_of_lookup houter, ?_⟩
  rcases htotal with hplain | ⟨counted, hcounted, hvalue⟩
  · exact (Outcome.bind_eq_ok_iff _ _ _).mpr ⟨_, member_of_lookup hplain, rfl⟩
  · refine (Outcome.bind_eq_ok_iff _ _ _).mpr ⟨_, member_of_lookup hcounted, ?_⟩
    exact member_of_lookup hvalue

theorem Lists.readHits_eq (h : Lists reply total items) {documents : List Value}
    (hdocuments : items.mapM readHit = .ok documents) : readHits reply = .ok documents := by
  obtain ⟨outer, inner, rfl, houter, _, hitems⟩ := h.listed
  refine (Outcome.bind_eq_ok_iff _ _ _).mpr ⟨_, member_of_lookup houter, ?_⟩
  exact (Outcome.bind_eq_ok_iff _ _ _).mpr ⟨_, member_of_lookup hitems, hdocuments⟩

theorem Reports.exists_lists (h : Reports reply total) :
    ∃ items, Lists reply total items ∧ ∀ hit ∈ items, IsHit hit := by
  obtain ⟨outer, inner, items, hreply, houter, htotal, hitems, hhits⟩ := h.hits
  exact ⟨items, ⟨⟨outer, inner, hreply, houter, htotal, hitems⟩, h.received⟩, hhits⟩

/-- A page is read from what a reply lists and from the window of a body. -/
theorem readPage_eq (h : Lists reply total items) {records : List Entries}
    (hrecords : items.mapM readHit = .ok (records.map .dict))
    (hnamed : ∀ entries ∈ records, entries.Named) {body : Value} {size page : Int}
    (hwindow : readWindow body = .ok (.int size, .int page)) {target : Value}
    (htarget : target.isWritable = true) :
    readPage target body reply = .ok ⟨total, records, page, size⟩ := by
  have hwritable : (Value.int total).isWritable = true := by
    rw [Value.isWritable, h.received]
    rfl
  refine (Outcome.bind_eq_ok_iff _ _ _).mpr ⟨_, h.readTotal_eq, ?_⟩
  refine (Outcome.bind_eq_ok_iff _ _ _).mpr ⟨_, h.readHits_eq hrecords, ?_⟩
  refine (Outcome.bind_eq_ok_iff _ _ _).mpr ⟨_, hwindow, ?_⟩
  refine (Outcome.bind_eq_ok_iff _ _ _).mpr
    ⟨(), (Value.requireWritable_eq_ok_iff _ _).mpr htarget, ?_⟩
  refine (Outcome.bind_eq_ok_iff _ _ _).mpr
    ⟨(), (Value.requireWritable_eq_ok_iff _ _).mpr hwritable, ?_⟩
  have hpage : Page.ofOptions [("total", .int total), ("hits", .list (records.map .dict)),
      ("page", .int page), ("per_page", .int size)] = .ok ⟨total, records, page, size⟩ := by
    have hhits : Check.sequence "hits" .listType Check.readRecord (.list (records.map .dict)) =
        .ok records := by
      simp [Check.sequence, Value.items?, items_readRecord hnamed]
    simp [Page.ofOptions, Options.getD, Options.get?, hhits, Check.field, Check.readInt]
  rw [hpage]
  rfl

/-- The window of a body gives back the page and its size. -/
theorem readWindow_toValue {r : Request} (hr : r.Paged) {body : SearchBody}
    (hoffset : body.offset = r.offset) (hsize : body.size = r.perPage) :
    readWindow body.toValue = .ok (.int r.perPage, .int r.page) := by
  obtain ⟨entries, hentries, hsizeOf, hfrom⟩ := body.toValue_eq
  have hne : r.perPage ≠ 0 := by
    have := hr.perPage
    omega
  have htruthy : (Value.int r.perPage).orElse (.int 50) = .int r.perPage := by
    rw [Value.orElse, if_pos (by simpa [Value.truthy] using hne)]
  have hpage : Int.fdiv r.offset r.perPage + 1 = r.page := by
    rw [Request.offset, Int.mul_fdiv_cancel _ hne]
    omega
  have hnumber : pageNumber (.int r.offset) (.int r.perPage) = .ok (.int r.page) := by
    rw [← hpage]
    rfl
  rw [hentries, readWindow, hsizeOf, hfrom, hsize, hoffset, htruthy]
  exact (Outcome.bind_eq_ok_iff _ _ _).mpr ⟨.int r.page, hnumber, rfl⟩

/-- A reply to a compiled request is read as a page of the request. -/
theorem readPage_ok (h : Reports reply total) {r : Request} (hr : r.Paged) {body : SearchBody}
    (hoffset : body.offset = r.offset) (hsize : body.size = r.perPage) (target : String) :
    ∃ page, readPage (.text target) body.toValue reply = .ok page ∧ page.total = total ∧
      page.page = r.page ∧ page.perPage = r.perPage := by
  obtain ⟨items, hlists, hhits⟩ := h.exists_lists
  obtain ⟨records, hrecords, hnamed⟩ := mapM_readHit_ok hhits
  exact ⟨_, readPage_eq hlists hrecords hnamed (readWindow_toValue hr hoffset hsize) rfl,
    rfl, rfl, rfl⟩

end Client

namespace Page

/-- A page that fits a request when there are `total` hits. -/
structure Answers (p : Page) (r : Request) (total : Int) : Prop where
  total_eq : p.total = total
  page_eq : p.page = r.page
  perPage_eq : p.perPage = r.perPage
  /-- The pages are the least number that has room for all hits. -/
  enough : IsLeast {k | total ≤ k * r.perPage} p.totalPages
  /-- The page that was asked for is one of them when hits are left for it. -/
  within : r.page ≤ p.totalPages ↔ r.offset < total

variable {p : Page} {r : Request} {total : Int}

theorem answers (hr : r.Paged) (htotal : p.total = total) (hpage : p.page = r.page)
    (hperPage : p.perPage = r.perPage) : p.Answers r total := by
  have hsize : 0 < p.perPage := by
    rw [hperPage]
    exact hr.perPage
  have hle : ∀ k, p.totalPages ≤ k ↔ total ≤ k * r.perPage := fun k => by
    rw [totalPages_le_iff hsize, htotal, hperPage]
  have hbefore : p.totalPages ≤ r.page - 1 ↔ total ≤ r.offset := hle (r.page - 1)
  exact {
    total_eq := htotal
    page_eq := hpage
    perPage_eq := hperPage
    enough := ⟨(hle _).mp le_rfl, fun k hk => (hle k).mpr hk⟩
    within := by omega }

/-- A page is one of all pages when hits are left for it. -/
theorem Answers.le_totalPages_iff (h : p.Answers r total) (hr : r.Paged) (k : Int) :
    k ≤ p.totalPages ↔ (k - 1) * r.perPage < total := by
  have hsize : 0 < p.perPage := by
    rw [h.perPage_eq]
    exact hr.perPage
  have hle := totalPages_le_iff hsize (k - 1)
  rw [h.total_eq, h.perPage_eq] at hle
  omega

end Page

namespace Request

variable {options : Options} {defaults : List Value} {typeOf : Value → Except Failure Value}
  {geoField : Value}

/-- The body of a call for another page. -/
def bodyOfPage (options : Options) (defaults : List Value)
    (typeOf : Value → Except Failure Value) (geoField : Value) (k : Int) :
    Except Failure SearchBody := do
  let r ← ofOptions (options.set "page" (.int k))
  r.compile defaults typeOf geoField

variable {r : Request} {body : SearchBody} {p : Page} {total : Int}

/-- Every page of the hits has a body with its own window. -/
theorem bodyOfPage_ok (h : ofOptions options = .ok r)
    (hbody : r.compile defaults typeOf geoField = .ok body) (hp : p.Answers r total)
    (hreceived : Numeral.exceedsLimit total = false) {k : Int} (hone : 1 ≤ k)
    (hk : k ≤ p.totalPages) : ∃ b, bodyOfPage options defaults typeOf geoField k = .ok b ∧
      b.offset = (k - 1) * r.perPage ∧ b.size = r.perPage := by
  obtain ⟨hr, hother⟩ := paged_of_ofOptions h
  have hbefore := (hp.le_totalPages_iff hr k).mp hk
  have hstart : 0 ≤ (k - 1) * r.perPage := by
    have := hr.perPage
    exact Int.mul_nonneg (by omega) (by omega)
  have hlimit : Numeral.exceedsLimit ((k - 1) * r.perPage) = false :=
    Numeral.exceedsLimit_of_le (by omega) hreceived
  refine ⟨{ body with offset := (k - 1) * r.perPage }, ?_, rfl, (window_of_compile hbody).2.1⟩
  exact (Outcome.bind_eq_ok_iff _ _ _).mpr ⟨_, hother k hone, compile_page hbody hlimit⟩

/-- Every position of a hit is in the window of exactly one page. -/
theorem existsUnique_window (h : ofOptions options = .ok r)
    (hbody : r.compile defaults typeOf geoField = .ok body) (hp : p.Answers r total)
    (hreceived : Numeral.exceedsLimit total = false) {x : Int} (hx : 0 ≤ x) (hlt : x < total) :
    ∃! k, 1 ≤ k ∧ k ≤ p.totalPages ∧
      ∃ b, bodyOfPage options defaults typeOf geoField k = .ok b ∧
        b.offset ≤ x ∧ x < b.offset + b.size := by
  obtain ⟨hr, _⟩ := paged_of_ofOptions h
  have hsize : 0 < r.perPage := hr.perPage
  -- the page of a position is its quotient by the page size, counted from one
  have hfloor : x / r.perPage * r.perPage ≤ x := Int.ediv_mul_le x hsize.ne'
  have hnext : x < (x / r.perPage + 1) * r.perPage := Int.lt_ediv_add_one_mul_self x hsize
  have hnonneg : 0 ≤ x / r.perPage := Int.ediv_nonneg hx hsize.le
  refine ⟨x / r.perPage + 1, ⟨by omega, ?_, ?_⟩, ?_⟩
  · rw [hp.le_totalPages_iff hr, Int.add_sub_cancel]
    exact hfloor.trans_lt hlt
  · have hin : x / r.perPage + 1 ≤ p.totalPages := by
      rw [hp.le_totalPages_iff hr, Int.add_sub_cancel]
      exact hfloor.trans_lt hlt
    obtain ⟨b, hb, hoffset, hsizeOf⟩ := bodyOfPage_ok h hbody hp hreceived (by omega) hin
    refine ⟨b, hb, ?_, ?_⟩
    · rw [hoffset, Int.add_sub_cancel]
      exact hfloor
    · rw [hoffset, hsizeOf, Int.add_sub_cancel]
      rw [Int.add_mul, Int.one_mul] at hnext
      exact hnext
  · rintro k ⟨hone, hk, b, hb, hfrom, hto⟩
    obtain ⟨b', hb', hoffset, hsizeOf⟩ := bodyOfPage_ok h hbody hp hreceived hone hk
    obtain rfl := Except.ok.inj (hb.symm.trans hb')
    have hend : (k - 1) * r.perPage + r.perPage = k * r.perPage := by
      rw [Int.sub_mul, Int.one_mul, Int.sub_add_cancel]
    rw [hoffset] at hfrom hto
    rw [hsizeOf, hend] at hto
    have hlower : k - 1 ≤ x / r.perPage := (Int.le_ediv_iff_mul_le hsize).mpr hfrom
    have hupper : x / r.perPage < k := (Int.ediv_lt_iff_lt_mul hsize).mpr hto
    omega

end Request

namespace Client

/-- Searching with a compiled request gives the page that was asked for, and the pages that are
counted share the hits out.  The least number of pages that has room for all hits is counted,
the page asked for is among them exactly when its start is before the end of the hits, each of
them has a body of its own, and every position of a hit is in the window of exactly one. -/
theorem search_compiled {options : Options} {r : Request}
    (hrequest : Request.ofOptions options = .ok r) {defaults : List Value}
    {typeOf : Value → Except Failure Value} {geoField : Value} {body : SearchBody}
    (hbody : r.compile defaults typeOf geoField = .ok body) {reply : Value} {total : Int}
    (hreply : Reports reply total) (client : Client) (backend : Backend)
    (target : String) (sent : List Call) (hbackend : backend sent.length = .ok reply) :
    ∃ p, client.search backend (.text target) body.toValue sent =
        (.ok p, sent ++ [.search (.text target) body.toValue]) ∧ p.Answers r total ∧
      (∀ k, 1 ≤ k → k ≤ p.totalPages →
        ∃ b, Request.bodyOfPage options defaults typeOf geoField k = .ok b) ∧
      ∀ x, 0 ≤ x → x < total → ∃! k, 1 ≤ k ∧ k ≤ p.totalPages ∧
        ∃ b, Request.bodyOfPage options defaults typeOf geoField k = .ok b ∧
          b.offset ≤ x ∧ x < b.offset + b.size := by
  obtain ⟨hr, _⟩ := Request.paged_of_ofOptions hrequest
  obtain ⟨hoffset, hsize, _⟩ := Request.window_of_compile hbody
  obtain ⟨p, hread, htotal, hpage, hperPage⟩ := readPage_ok hreply hr hoffset hsize target
  have hp := Page.answers hr htotal hpage hperPage
  refine ⟨p, ?_, hp, ?_, ?_⟩
  · rw [search, Exchange.andThen, Exchange.call, hbackend]
    simp only [Exchange.lift, hread]
  · intro k hone hk
    obtain ⟨b, hb, _⟩ := Request.bodyOfPage_ok hrequest hbody hp hreply.received hone hk
    exact ⟨b, hb⟩
  · intro x hx hlt
    exact Request.existsUnique_window hrequest hbody hp hreply.received hx hlt

/-- A call for the third page of twenty hits each. -/
def thirdPage : Options := [("text", .text "ber"), ("page", .text "3"), ("per_page", .int 20)]

/-- The request of `thirdPage`. -/
def thirdRequest : Request := ⟨"ber", none, [], [], [], none, false, 3, 20⟩

/-- The body of `thirdRequest`. -/
def thirdBody : SearchBody where
  query := .compound (some (.multiMatch "ber" [.text "name"])) [] none
  sort := []
  offset := 40
  size := 20

/-- A reply of forty-five hits with one that has a document. -/
def fewReply : Value :=
  .dict [(.text "hits", .dict [(.text "total", .dict [(.text "value", .int 45)]),
    (.text "hits", .list [.dict [(.text "_id", .text "7"),
      (.text "_source", .dict [(.text "name", .text "Bern")])]])])]

theorem reports_fewReply : Reports fewReply 45 where
  hits := by
    refine ⟨_, _, _, rfl, rfl, Or.inr ⟨_, rfl, rfl⟩, rfl, ?_⟩
    intro hit hhit
    rw [List.mem_singleton.mp hhit]
    refine ⟨_, rfl, Or.inr ⟨_, rfl, ?_⟩⟩
    intro e he
    rw [List.mem_singleton.mp he]
    exact ⟨_, rfl⟩
  received := by decide +kernel

theorem compile_thirdRequest : thirdRequest.compile [.text "name"] (fun _ => .ok .null)
    (.text "lat_lon") = .ok thirdBody := by
  have hwritable : thirdBody.toValue.isWritable = true := by decide +kernel
  exact Request.compile_eq_ok_iff.mpr ⟨none, [], [], rfl, rfl, rfl, hwritable, rfl⟩

theorem search_compiled_thirdPage :
    Request.ofOptions thirdPage = .ok thirdRequest ∧
      thirdRequest.compile [.text "name"] (fun _ => .ok .null) (.text "lat_lon") = .ok thirdBody ∧
      Reports fewReply 45 ∧
      ∃ p, search ⟨.text "localhost", ⟨.standard, .standard⟩⟩ (fun _ => .ok fewReply)
          (.text "cities") thirdBody.toValue [] =
            (.ok p, [.search (.text "cities") thirdBody.toValue]) ∧ p.Answers thirdRequest 45 := by
  have hrequest : Request.ofOptions thirdPage = .ok thirdRequest := rfl
  obtain ⟨p, hsearch, hp, _⟩ := search_compiled hrequest compile_thirdRequest reports_fewReply
    ⟨.text "localhost", ⟨.standard, .standard⟩⟩ (fun _ => .ok fewReply) "cities" [] rfl
  exact ⟨hrequest, compile_thirdRequest, reports_fewReply, p, hsearch, hp⟩

end Client

end Typeahead
