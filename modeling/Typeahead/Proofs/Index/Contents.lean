import Typeahead.Proofs.Index.Document
import Typeahead.Proofs.Value.Same

/-!
# The contents of an index

What an index holds under an id is made by the calls for that id, in their order,
`Call.documentUnder`.  The documents of one index have the same names in the same order, so
one of them written over another one is itself.
-/

namespace Typeahead

namespace Entries

/-- Entries written over others. -/
def overlay (entries top : Entries) : Entries := top.foldl (fun acc e => insert acc e.1 e.2) entries

/-- Every key is a text. -/
def Named (entries : Entries) : Prop := ∀ e ∈ entries, ∃ n, e.1 = .text n

/-- No key occurs twice. -/
def Distinct (entries : Entries) : Prop := entries.Pairwise fun d e => d.1.same e.1 = false

theorem named_of_values {entries : Entries} {f : String → Value}
    (h : ∀ e ∈ entries, ∃ n, e = (.text n, f n)) : entries.Named :=
  fun e he => (h e he).imp fun _ hn => congrArg Prod.fst hn

theorem same_text_self (n : String) : (Value.text n).same (.text n) = true :=
  (Value.same_text_iff n _).mpr rfl

theorem map_insert (entries : Entries) (key value : Value) :
    (insert entries key value).map (·.1) =
      if (entries.map (·.1)).any (·.same key) then entries.map (·.1)
      else entries.map (·.1) ++ [key] := by
  induction entries with
  | nil => rfl
  | cons e entries ih =>
      cases he : e.1.same key with
      | true => simp [insert, he]
      | false =>
          have hinsert : insert (e :: entries) key value = e :: insert entries key value := by
            simp [insert, he]
          rw [hinsert, List.map_cons, ih, List.map_cons, List.any_cons, he, Bool.false_or]
          split
          · rfl
          · rfl

/-- The keys that a mapping gets depend on keys only. -/
theorem map_overlay_congr {entries others top upper : Entries}
    (h : entries.map (·.1) = others.map (·.1)) (htop : top.map (·.1) = upper.map (·.1)) :
    (overlay entries top).map (·.1) = (overlay others upper).map (·.1) := by
  induction top generalizing entries others upper with
  | nil =>
      obtain rfl := List.map_eq_nil_iff.mp htop.symm
      exact h
  | cons e top ih =>
      obtain ⟨d, upper, rfl, hd, hupper⟩ := List.map_eq_cons_iff.mp htop.symm
      have hinsert : (insert entries e.1 e.2).map (·.1) = (insert others d.1 d.2).map (·.1) := by
        rw [map_insert, map_insert, h, hd]
      rw [overlay, overlay, List.foldl_cons, List.foldl_cons]
      exact ih hinsert hupper.symm

theorem insert_distinct {entries : Entries} (h : Distinct entries) (n : String) (value : Value) :
    Distinct (insert entries (.text n) value) := by
  induction entries with
  | nil => exact List.pairwise_singleton _ _
  | cons e entries ih =>
      obtain ⟨hhead, htail⟩ := List.pairwise_cons.mp h
      cases he : e.1.same (.text n) with
      | true =>
          have hinsert : insert (e :: entries) (.text n) value = (e.1, value) :: entries := by
            simp [insert, he]
          rw [hinsert]
          exact List.pairwise_cons.mpr ⟨hhead, htail⟩
      | false =>
          have hinsert : insert (e :: entries) (.text n) value =
              e :: insert entries (.text n) value := by simp [insert, he]
          rw [hinsert]
          refine List.pairwise_cons.mpr ⟨fun d hd => ?_, ih htail⟩
          have hkey : d.1 ∈ (insert entries (.text n) value).map (·.1) := List.mem_map_of_mem hd
          rw [map_insert] at hkey
          have hold : d.1 ∈ entries.map (·.1) → e.1.same d.1 = false := by
            intro hmem
            obtain ⟨d', hd', heq⟩ := List.mem_map.mp hmem
            rw [← heq]
            exact hhead d' hd'
          split at hkey
          · exact hold hkey
          · rcases List.mem_append.mp hkey with hkey | hkey
            · exact hold hkey
            · rw [List.mem_singleton.mp hkey]
              exact he

theorem overlay_distinct {entries top : Entries} (h : Distinct entries) (htop : top.Named) :
    Distinct (overlay entries top) := by
  induction top generalizing entries with
  | nil => exact h
  | cons e top ih =>
      obtain ⟨n, hn⟩ := htop e List.mem_cons_self
      have hinsert := insert_distinct h n e.2
      rw [← hn] at hinsert
      exact ih hinsert fun d hd => htop d (List.mem_cons_of_mem e hd)

/-- Entries under other keys leave the first one alone. -/
theorem overlay_cons {e : Value × Value} {entries top : Entries}
    (h : ∀ d ∈ top, e.1.same d.1 = false) :
    overlay (e :: entries) top = e :: overlay entries top := by
  induction top generalizing entries with
  | nil => rfl
  | cons d top ih =>
      have hinsert : insert (e :: entries) d.1 d.2 = e :: insert entries d.1 d.2 := by
        simp [insert, h d List.mem_cons_self]
      have hrest : overlay (e :: insert entries d.1 d.2) top = e :: overlay _ top :=
        ih fun d' hd' => h d' (List.mem_cons_of_mem d hd')
      rw [overlay, List.foldl_cons, hinsert]
      exact hrest

/-- Entries that are distinct are the mapping that is made from them. -/
theorem ofList_of_distinct {entries : Entries} (h : entries.Distinct) :
    ofList entries = entries := by
  induction entries with
  | nil => rfl
  | cons e entries ih =>
      obtain ⟨hhead, htail⟩ := List.pairwise_cons.mp h
      calc ofList (e :: entries) = overlay [e] entries := rfl
        _ = e :: overlay [] entries := overlay_cons hhead
        _ = e :: entries := congrArg (e :: ·) (ih htail)

/-- Entries written over others with the same keys are what is left. -/
theorem overlay_of_keys_eq {entries top : Entries} (hkeys : entries.map (·.1) = top.map (·.1))
    (hnamed : top.Named) (hdistinct : top.Distinct) : overlay entries top = top := by
  induction top generalizing entries with
  | nil => exact List.map_eq_nil_iff.mp hkeys
  | cons e top ih =>
      obtain ⟨d, entries, rfl, hd, hrest⟩ := List.map_eq_cons_iff.mp hkeys
      obtain ⟨hhead, htail⟩ := List.pairwise_cons.mp hdistinct
      obtain ⟨n, hn⟩ := hnamed e List.mem_cons_self
      have hinsert : insert (d :: entries) e.1 e.2 = e :: entries := by
        have hself : e.1.same e.1 = true := by rw [hn, same_text_self]
        simp [insert, hd, hself]
      have htop := ih hrest (fun d' hd' => hnamed d' (List.mem_cons_of_mem e hd')) htail
      rw [overlay, List.foldl_cons, hinsert]
      exact (overlay_cons hhead).trans (by rw [htop])

theorem named_insert {entries : Entries} (h : entries.Named) (n : String) (value : Value) :
    (insert entries (.text n) value).Named := by
  intro d hd
  have hold : d.1 ∈ entries.map (·.1) → ∃ m, d.1 = .text m := by
    intro hmem
    obtain ⟨d', hd', heq⟩ := List.mem_map.mp hmem
    rw [← heq]
    exact h d' hd'
  have hkey : d.1 ∈ (insert entries (.text n) value).map (·.1) := List.mem_map_of_mem hd
  rw [map_insert] at hkey
  split at hkey
  · exact hold hkey
  · rcases List.mem_append.mp hkey with hkey | hkey
    · exact hold hkey
    · exact ⟨n, List.mem_singleton.mp hkey⟩

theorem named_overlay {entries top : Entries} (h : entries.Named) (htop : top.Named) :
    (overlay entries top).Named := by
  induction top generalizing entries with
  | nil => exact h
  | cons e top ih =>
      obtain ⟨n, hn⟩ := htop e List.mem_cons_self
      have hinsert := named_insert h n e.2
      rw [← hn] at hinsert
      exact ih hinsert fun d hd => htop d (List.mem_cons_of_mem e hd)

/-- Of two mappings made from lists with the same names, the second one is left when it is
written over the first one. -/
theorem overlay_ofList {entries others : Entries} (hkeys : entries.map (·.1) = others.map (·.1))
    (hnamed : others.Named) : overlay (ofList entries) (ofList others) = ofList others := by
  refine overlay_of_keys_eq (map_overlay_congr rfl hkeys) ?_ ?_
  · exact named_overlay (fun e he => absurd he List.not_mem_nil) hnamed
  · exact overlay_distinct List.Pairwise.nil hnamed

end Entries

namespace Index

/-- A document has the names that its index prescribes, each with the value of the object. -/
theorem document_eq_ok {index : Index} {object : Options} {doc : Value}
    (h : index.document object = .ok doc) :
    ∃ entries : Entries, doc = .dict (Entries.ofList entries) ∧
      entries.map (·.1) = index.documentAttrs ∧
      ∀ e ∈ entries, ∃ n, e = (.text n, written (object.getD n .null)) := by
  obtain ⟨entries, hentries, hdoc⟩ := (Outcome.bind_eq_ok_iff _ _ _).mp h
  obtain rfl := (Outcome.pure_eq_ok_iff _ _).mp hdoc
  have hentry : ∀ a e, documentEntry object a = .ok e →
      ∃ n, a = .text n ∧ e = (.text n, written (object.getD n .null)) := by
    intro a e he
    cases a with
    | text n => exact ⟨n, rfl, (Except.ok.inj he).symm⟩
    | _ => cases he
  have hlined := (Outcome.mapM_eq_ok_iff _ _ _).mp hentries
  have hkeys : List.Forall₂ (fun a e => a = e.1) index.documentAttrs entries := by
    refine hlined.imp fun a e he => ?_
    obtain ⟨n, rfl, rfl⟩ := hentry a e he
    rfl
  refine ⟨entries, rfl, ?_, ?_⟩
  · rw [← List.forall₂_map_right_iff, List.forall₂_eq_eq_eq] at hkeys
    exact hkeys.symm
  · refine (Outcome.forall_mem_of_mapM hentries _).mpr fun a _ e he => ?_
    obtain ⟨n, _, hn⟩ := hentry a e he
    exact ⟨n, hn⟩

end Index

namespace Value

/-- A mapping written over another one. -/
def overlaid (top : Value) : Value → Value
  | .dict entries =>
      match top with
      | .dict upper => .dict (Entries.overlay entries upper)
      | _ => .dict entries
  | v => v

end Value

/-- One document of an index written over another one is what is left. -/
theorem Index.overlaid_document {index : Index} {object other : Options} {doc top : Value}
    (h : index.document object = .ok doc) (k : index.document other = .ok top) :
    top.overlaid doc = top := by
  obtain ⟨entries, rfl, hentries, _⟩ := document_eq_ok h
  obtain ⟨others, rfl, hothers, hvalues⟩ := document_eq_ok k
  have hnamed : Entries.Named others := Entries.named_of_values hvalues
  exact congrArg Value.dict (Entries.overlay_ofList (hentries.trans hothers.symm) hnamed)

namespace Call

/-- Whether a call is for the document of an id. -/
def isFor (k : Value) : Call → Bool
  | .index _ id _ _ => id.same k
  | .update _ id _ _ => id.same k
  | .delete _ id _ => id.same k
  | .search .. => false

/-- What a call makes of a document.  An update writes the given part over it. -/
def revise : Option Value → Call → Option Value
  | _, .index _ _ body _ => some body
  | doc, .update _ _ (.dict entries) _ => doc.map (Entries.get entries "doc").overlaid
  | doc, .update .. => doc
  | _, .delete .. => none
  | doc, .search .. => doc

/-- The document that an index holds under an id after several calls. -/
def documentUnder (calls : List Call) (k : Value) : Option Value :=
  (calls.filter (isFor k)).foldl revise none

theorem documentUnder_append (calls more : List Call) (k : Value) :
    documentUnder (calls ++ more) k =
      (more.filter (isFor k)).foldl revise (documentUnder calls k) := by
  rw [documentUnder, List.filter_append, List.foldl_append, ← documentUnder]

/-- Calls that all make the same document leave it. -/
theorem foldl_revise_eq {P : Option Value → Prop} {doc doc' : Option Value} {calls : List Call}
    (h : ∀ call ∈ calls, ∀ d, P d → revise d call = doc') (hne : calls ≠ []) (hdoc : P doc)
    (hdoc' : P doc') : calls.foldl revise doc = doc' := by
  induction calls generalizing doc with
  | nil => exact absurd rfl hne
  | cons call calls ih =>
      rw [List.foldl_cons, h call List.mem_cons_self doc hdoc]
      cases calls with
      | nil => rfl
      | cons next calls =>
          exact ih (fun c hc => h c (List.mem_cons_of_mem call hc)) (List.cons_ne_nil _ _) hdoc'

end Call

end Typeahead
