import Mathlib.Data.List.Infix
import Typeahead.Settings.DotEnv

/-!
# Plain lines of a file of variables

A line with a plain name and a plain text, `DotEnv.PlainName` and `DotEnv.PlainText`, holds the text
under the name: nothing in it is quoted, cut off or replaced.  A file of such lines is read as the
variables in them, `DotEnv.read_plainLines`.
-/

namespace Typeahead

namespace DotEnv

/-- A name that stands in front of an equals sign as it is. -/
structure PlainName (n : List Char) : Prop where
  nonempty : n ≠ []
  chars : ∀ c ∈ n, isNameChar c = true
  quote : n.head? ≠ some '\''

/-- Whether a character has no meaning of its own in a text without quotes. -/
def isPlainChar (c : Char) : Bool := c != '\n' && c != '\r' && c != '#' && c != '$'

/-- A text that stands behind an equals sign as it is. -/
structure PlainText (s : List Char) : Prop where
  chars : ∀ c ∈ s, isPlainChar c = true
  start : ∀ c ∈ s.head?, Text.isBlank c = false ∧ c ≠ '\'' ∧ c ≠ '"'
  stop : ∀ c ∈ s.getLast?, Text.isBlank c = false

variable {n s : List Char}

theorem PlainName.notBlank (hn : PlainName n) {c : Char} (hc : c ∈ n) :
    Text.isBlank c = false := by
  have hchar := hn.chars c hc
  simp only [isNameChar, Bool.and_eq_true, Bool.not_eq_true'] at hchar
  exact hchar.2

theorem PlainText.ne_of_mem (hs : PlainText s) {c : Char} (hc : c ∈ s) :
    c ≠ '\n' ∧ c ≠ '\r' ∧ c ≠ '#' ∧ c ≠ '$' := by
  simpa [isPlainChar, and_assoc] using hs.chars c hc

theorem isInlineBlank_eq_false {c : Char} (h : Text.isBlank c = false) :
    isInlineBlank c = false := by
  rw [isInlineBlank, h]
  rfl

/-- A name in front of an equals sign is not taken for a word in front of a name. -/
theorem skipExport_plain (hn : PlainName n) (rest : List Char) :
    skipExport (n ++ '=' :: rest) = n ++ '=' :: rest := by
  have happend : n ++ '=' :: rest = (n ++ ['=']) ++ rest := by simp
  rw [skipExport]
  refine if_neg fun h => ?_
  obtain ⟨hexport, hblank⟩ := Bool.and_eq_true_iff.mp h
  have hexport := List.isPrefixOf_iff_prefix.mp hexport
  rw [happend] at hexport hblank
  -- a name that starts with the word goes on without a blank, if only with the equals sign
  have hequals : '=' ∉ "export".toList := by decide
  rcases List.prefix_or_prefix_of_prefix hexport (List.prefix_append (n ++ ['=']) rest) with
    ⟨u, hu⟩ | hshort
  · cases u with
    | nil =>
        rw [List.append_nil] at hu
        exact hequals (by rw [hu]; simp)
    | cons c u =>
        have hdrop : ((n ++ ['=']) ++ rest).drop 6 = c :: (u ++ rest) := by
          rw [← hu]
          rfl
        have hc : c ∈ n ++ ['='] := by simp [← hu]
        rw [hdrop] at hblank
        have hfalse : isInlineBlank c = false := by
          rcases List.mem_append.mp hc with hc | hc
          · exact isInlineBlank_eq_false (hn.notBlank hc)
          · rw [List.mem_singleton.mp hc]
            decide
        simp [hfalse] at hblank
  · exact hequals (hshort.subset (by simp))

theorem readName_plain (hn : PlainName n) (rest : List Char) :
    readName (n ++ '=' :: rest) = some (some n, '=' :: rest) := by
  have htake : (n ++ '=' :: rest).takeWhile isNameChar = n := by
    rw [List.takeWhile_append_of_pos hn.chars, List.takeWhile_cons]
    simp [isNameChar]
  obtain ⟨c, n, rfl⟩ := List.exists_cons_of_ne_nil hn.nonempty
  have hchar := hn.chars c List.mem_cons_self
  have hhash : c ≠ '#' := by
    rintro rfl
    cases hchar
  have hquote : c ≠ '\'' := by
    rintro rfl
    exact hn.quote rfl
  rw [List.cons_append] at htake ⊢
  unfold readName
  split
  · next h => exact absurd (List.cons.inj h).1 hhash
  · next h => exact absurd (List.cons.inj h).1 hquote
  · rw [htake]
    simp

theorem cutComment_plain (h : ∀ c ∈ s, c ≠ '#') : cutComment s = s := by
  induction s with
  | nil => rfl
  | cons c s ih =>
      obtain ⟨_, hs⟩ := List.forall_mem_cons.mp h
      rw [cutComment, ih hs, if_neg]
      intro hcomment
      obtain ⟨_, hhead⟩ := Bool.and_eq_true_iff.mp hcomment
      have hmem : '#' ∈ s.dropWhile Text.isBlank := List.mem_of_head? (eq_of_beq hhead)
      exact hs '#' ((List.dropWhile_sublist _).subset hmem) rfl

theorem plainValue_plain (hs : PlainText s) (rest : List Char) :
    plainValue (s ++ '\n' :: rest) = (s, '\n' :: rest) := by
  have htake : (s ++ '\n' :: rest).takeWhile (fun c => c != '\n' && c != '\r') = s := by
    rw [List.takeWhile_append_of_pos, List.takeWhile_cons]
    · simp
    · intro c hc
      obtain ⟨hline, hreturn, _⟩ := hs.ne_of_mem hc
      simp [hline, hreturn]
  have hreverse : s.reverse.dropWhile Text.isBlank = s.reverse := by
    cases hcs : s.reverse with
    | nil => rfl
    | cons c cs =>
        have hlast : s.getLast? = some c := by
          rw [← List.head?_reverse, hcs]
          rfl
        rw [List.dropWhile_cons_of_neg (by simp [hs.stop c hlast])]
  rw [plainValue, htake, cutComment_plain fun c hc => (hs.ne_of_mem hc).2.2.1]
  rw [hreverse, List.reverse_reverse, List.drop_left]

theorem readValue_plain (hs : PlainText s) (rest : List Char) :
    readValue (skipInline (s ++ '\n' :: rest)) = some (s, '\n' :: rest) := by
  have hskip : skipInline (s ++ '\n' :: rest) = s ++ '\n' :: rest := by
    cases s with
    | nil => rw [List.nil_append, skipInline, List.dropWhile_cons_of_neg (by decide)]
    | cons c s =>
        have hc := isInlineBlank_eq_false (hs.start c rfl).1
        rw [List.cons_append, skipInline, List.dropWhile_cons_of_neg (by simp [hc])]
  rw [hskip, ← plainValue_plain hs rest]
  unfold readValue
  split
  · next h =>
    cases s with
    | nil => exact absurd (List.cons.inj h).1 (by decide)
    | cons c s => exact absurd (List.cons.inj h).1 (hs.start c rfl).2.1
  · next h =>
    cases s with
    | nil => exact absurd (List.cons.inj h).1 (by decide)
    | cons c s => exact absurd (List.cons.inj h).1 (hs.start c rfl).2.2
  · rfl

/-- A plain line holds its text under its name. -/
theorem readLine_plain (hn : PlainName n) (hs : PlainText s) (rest : List Char) :
    readLine (n ++ '=' :: (s ++ '\n' :: rest)) =
      (some ⟨String.ofList n, some (String.ofList s)⟩, rest) := by
  have hequals (cs : List Char) : skipInline ('=' :: cs) = '=' :: cs := by
    rw [skipInline, List.dropWhile_cons_of_neg (by decide)]
  have hend : endLine ('\n' :: rest) = some rest := by
    rw [endLine, skipInline, List.dropWhile_cons_of_neg (by decide)]
    rfl
  simp only [readLine, skipExport_plain hn, readName_plain hn, hequals, readAssignment,
    readValue_plain hs, hend, Option.map_some]

/-- A plain line of a file. -/
def plainLine (b : String × String) : String := b.1 ++ "=" ++ b.2 ++ "\n"

/-- Names and texts that plain lines hold. -/
def PlainLines (bs : List (String × String)) : Prop :=
  ∀ b ∈ bs, PlainName b.1.toList ∧ PlainText b.2.toList

theorem toList_plainLine (b : String × String) (rest : List Char) :
    (plainLine b).toList ++ rest = b.1.toList ++ '=' :: (b.2.toList ++ '\n' :: rest) := by
  simp [plainLine]

variable {bs : List (String × String)}

theorem readLines_plain (h : PlainLines bs) {fuel : Nat} (hfuel : bs.length ≤ fuel) :
    readLines fuel ((bs.map plainLine).flatMap String.toList) =
      bs.map fun b => ⟨b.1, some b.2⟩ := by
  induction bs generalizing fuel with
  | nil =>
      cases fuel with
      | zero => rfl
      | succ fuel => rfl
  | cons b bs ih =>
      obtain ⟨⟨hn, hs⟩, hbs⟩ := List.forall_mem_cons.mp h
      cases fuel with
      | zero => cases hfuel
      | succ fuel =>
          have hrest := ih hbs (Nat.le_of_succ_le_succ hfuel)
          rw [List.map_cons, List.flatMap_cons, toList_plainLine, List.map_cons, ← hrest]
          have hline := readLine_plain hn hs ((bs.map plainLine).flatMap String.toList)
          obtain ⟨c, n, hc⟩ := List.exists_cons_of_ne_nil hn.nonempty
          have hblank : Text.isBlank c = false := hn.notBlank (by simp [hc])
          rw [hc, List.cons_append] at hline ⊢
          rw [readLines, List.dropWhile_cons_of_neg (by simp [hblank])]
          simp [hline, ← hc]

theorem normalizeLines_eq {cs : List Char} (h : '\r' ∉ cs) : normalizeLines cs = cs := by
  induction cs with
  | nil => rfl
  | cons c cs ih =>
      obtain ⟨hc, hcs⟩ := List.ne_and_not_mem_of_not_mem_cons h
      unfold normalizeLines
      split
      · next heq => cases heq
      · next heq => exact absurd (List.cons.inj heq).1.symm hc
      · next heq => exact absurd (List.cons.inj heq).1.symm hc
      · next heq =>
        obtain ⟨rfl, rfl⟩ := List.cons.inj heq
        rw [ih hcs]

theorem pieces_eq {cs : List Char} (h : '$' ∉ cs) {fuel : Nat} (hfuel : cs.length ≤ fuel) :
    pieces fuel cs = cs.map .literal := by
  induction cs generalizing fuel with
  | nil =>
      cases fuel with
      | zero => rfl
      | succ fuel => rfl
  | cons c cs ih =>
      obtain ⟨hc, hcs⟩ := List.ne_and_not_mem_of_not_mem_cons h
      cases fuel with
      | zero => cases hfuel
      | succ fuel =>
          have hrest := ih hcs (Nat.le_of_succ_le_succ hfuel)
          rw [pieces, hrest, List.map_cons]
          intro _ hdollar
          exact absurd hdollar.symm hc

/-- Texts without dollar signs refer to nothing. -/
theorem interpolate_eq (exported : List (String × String)) {bindings : List Binding}
    (h : ∀ b ∈ bindings, ∀ v ∈ b.value, '$' ∉ v.toList) :
    interpolate exported bindings = bindings := by
  have hvalue (bound : List Binding) {v : String} (hv : '$' ∉ v.toList) :
      String.ofList ((pieces v.toList.length v.toList).flatMap (Piece.text exported bound)) =
        v := by
    rw [pieces_eq hv (Nat.le_refl _), List.flatMap_map]
    simp [Piece.text]
  have hstep (bound : List Binding) : bindings.foldl (fun bound b =>
      let value := b.value.map fun v =>
        let cs := v.toList
        String.ofList ((pieces cs.length cs).flatMap (Piece.text exported bound))
      bound ++ [⟨b.name, value⟩]) bound = bound ++ bindings := by
    induction bindings generalizing bound with
    | nil => simp
    | cons b bindings ih =>
        obtain ⟨hb, hbindings⟩ := List.forall_mem_cons.mp h
        obtain ⟨name, value⟩ := b
        rw [List.foldl_cons, ih hbindings]
        cases value with
        | none => simp
        | some v =>
            simp only [Option.map_some, hvalue bound (hb v rfl), List.append_assoc,
              List.singleton_append]
  exact hstep []

theorem length_le_plainLines (bs : List (String × String)) :
    bs.length ≤ ((bs.map plainLine).flatMap String.toList).length := by
  induction bs with
  | nil => exact Nat.zero_le _
  | cons b bs ih =>
      rw [List.map_cons, List.flatMap_cons, toList_plainLine]
      simp only [List.length_append, List.length_cons]
      omega

/-- A file of plain lines is read as the variables in them. -/
theorem read_plainLines (exported : List (String × String)) (h : PlainLines bs) :
    read exported (String.join (bs.map plainLine)) = bs.map fun b => ⟨b.1, some b.2⟩ := by
  have hreturn : '\r' ∉ (bs.map plainLine).flatMap String.toList := by
    intro hmem
    obtain ⟨line, hline, hc⟩ := List.mem_flatMap.mp hmem
    obtain ⟨b, hb, rfl⟩ := List.mem_map.mp hline
    obtain ⟨hn, hs⟩ := h b hb
    have hchars := toList_plainLine b []
    rw [List.append_nil] at hchars
    rw [hchars] at hc
    rcases List.mem_append.mp hc with hc | hc
    · have hblank := hn.notBlank hc
      revert hblank
      decide
    · simp only [List.mem_cons, List.mem_append, List.not_mem_nil, or_false] at hc
      rcases hc with hc | hc | hc
      · cases hc
      · exact (hs.ne_of_mem hc).2.1 rfl
      · cases hc
  have hlength := Nat.le_succ_of_le (length_le_plainLines bs)
  rw [read, String.toList_join, normalizeLines_eq hreturn, readLines_plain h hlength]
  refine interpolate_eq exported fun b hb v hv => ?_
  obtain ⟨d, hd, rfl⟩ := List.mem_map.mp hb
  obtain rfl := Option.some.inj hv
  intro hdollar
  exact ((h d hd).2.ne_of_mem hdollar).2.2.2 rfl

end DotEnv

end Typeahead
