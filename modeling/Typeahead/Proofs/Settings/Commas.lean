import Typeahead.Proofs.Text.Fields
import Typeahead.Settings.Group

/-!
# Lists with commas

Names that are joined with commas come back when the text is read as a list.  Reading drops
commas and blanks only: the other characters of a text are counted by `Text.weight`, and the names
that it is read as have all of them.
-/

namespace Typeahead

namespace Text

/-! How much of a text a list with commas keeps. -/

/-- Whether a character is neither a comma nor a blank. -/
def isSolid (c : Char) : Bool := !isBlank c && c != ','

/-- The number of characters that are neither commas nor blanks. -/
def weight (cs : List Char) : Nat := cs.countP isSolid

@[simp] theorem weight_nil : weight [] = 0 := rfl

theorem weight_append (cs ds : List Char) : weight (cs ++ ds) = weight cs + weight ds :=
  List.countP_append

theorem weight_cons_of_solid {c : Char} (h : isSolid c = true) (cs : List Char) :
    weight (c :: cs) = weight cs + 1 :=
  List.countP_cons_of_pos h

theorem weight_cons_of_not_solid {c : Char} (h : isSolid c = false) (cs : List Char) :
    weight (c :: cs) = weight cs :=
  List.countP_cons_of_neg (by simp [h])

theorem weight_cons_eq (c : Char) (cs : List Char) : weight (c :: cs) = weight [c] + weight cs :=
  weight_append [c] cs

theorem weight_singleton_le (c : Char) : weight [c] ≤ 1 := List.countP_le_length

theorem weight_le_of_sublist {cs ds : List Char} (h : cs.Sublist ds) : weight cs ≤ weight ds :=
  h.countP_le

/-- Cutting at commas loses commas only. -/
theorem weight_fields (cs : List Char) : weight (fields ',' cs).flatten = weight cs := by
  induction cs with
  | nil => rfl
  | cons c cs ih =>
      by_cases hc : c = ','
      · rw [fields, if_pos hc, List.flatten_cons, List.nil_append, ih, hc,
          weight_cons_of_not_solid (by decide)]
      · obtain ⟨f, fs, hfields, heq⟩ := fields_cons_of_ne hc cs
        rw [hfields, List.flatten_cons] at ih
        rw [heq, List.flatten_cons, List.cons_append, weight_cons_eq, ih, weight_cons_eq c cs]

theorem weight_dropWhile (cs : List Char) : weight (cs.dropWhile isBlank) = weight cs := by
  induction cs with
  | nil => rfl
  | cons c cs ih =>
      rw [List.dropWhile_cons]
      split
      · next hc =>
        rw [ih, weight_cons_of_not_solid (by simp [isSolid, hc])]
      · rfl

theorem weight_reverse (cs : List Char) : weight cs.reverse = weight cs := List.countP_reverse

theorem weight_trimWith (cs : List Char) : weight (trimWith isBlank cs) = weight cs := by
  rw [trimWith, weight_reverse, weight_dropWhile, weight_reverse, weight_dropWhile]

end Text

namespace Settings

open Text

/-- What all names of a list weigh together. -/
def listWeight (names : List String) : Nat := weight (names.flatMap String.toList)

@[simp] theorem listWeight_nil : listWeight [] = 0 := rfl

theorem listWeight_cons (n : String) (names : List String) :
    listWeight (n :: names) = weight n.toList + listWeight names := by
  rw [listWeight, List.flatMap_cons, weight_append, listWeight]

/-- A list with commas keeps all that is neither a comma nor a blank. -/
theorem listWeight_commaList (s : String) : listWeight (commaList s) = weight s.toList := by
  have hfilter (names : List String) : listWeight (names.filter (· != "")) = listWeight names := by
    induction names with
    | nil => rfl
    | cons n names ih =>
        by_cases hn : n = ""
        · rw [List.filter_cons_of_neg (by simp [hn]), ih, listWeight_cons, hn]
          simp
        · rw [List.filter_cons_of_pos (by simp [hn]), listWeight_cons, listWeight_cons, ih]
  have hmap (pieces : List (List Char)) :
      listWeight ((pieces.map (trimWith isBlank)).map String.ofList) = weight pieces.flatten := by
    induction pieces with
    | nil => rfl
    | cons p pieces ih =>
        rw [List.map_cons, List.map_cons, listWeight_cons, ih, List.flatten_cons, weight_append,
          String.toList_ofList, weight_trimWith]
  rw [commaList, hfilter, hmap, weight_fields]

/-- Names without commas and without blanks around them come back from the text that joins them. -/
theorem commaList_intercalate {names : List String}
    (h : ∀ n ∈ names, n ≠ "" ∧ trimWith isBlank n.toList = n.toList ∧ ',' ∉ n.toList) :
    commaList (",".intercalate names) = names := by
  cases names with
  | nil => rfl
  | cons n names =>
      have hfields : fields ',' (",".intercalate (n :: names)).toList =
          (n :: names).map String.toList := by
        rw [String.toList_intercalate]
        refine fields_intercalate (by simp) fun x hx => ?_
        obtain ⟨m, hm, rfl⟩ := List.mem_map.mp hx
        exact (h m hm).2.2
      have htrimmed : (((n :: names).map String.toList).map (trimWith isBlank)).map
          String.ofList = n :: names := by
        rw [List.map_map, List.map_map]
        refine (List.map_congr_left fun m hm => ?_).trans (List.map_id _)
        simp only [Function.comp_apply, (h m hm).2.1, String.ofList_toList, id]
      rw [commaList, hfields, htrimmed]
      refine List.filter_eq_self.mpr fun m hm => ?_
      simpa using (h m hm).1

end Settings

end Typeahead
