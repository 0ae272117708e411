import Typeahead.Mapping.SubField

/-!
# Text analysis

The analysis settings of every index: the analyzers that sub-fields refer to, with
the tokenizer and the filter that they are built from.  Both cut a text into its
starts, from one to fifty characters long.
-/

namespace Typeahead

/-- An analyzer: how text is cut into tokens and what happens to each. -/
structure Analyzer where
  tokenizer : String
  filters : List String
  deriving DecidableEq, Repr

/-- Settings of analysis by name.  Tokenizers and filters have parameters. -/
structure Analysis where
  analyzers : List (String × Analyzer)
  tokenizers : List (String × Entries)
  filters : List (String × Entries)

namespace Analyzer

/-- The form in an index body. -/
def toValue (a : Analyzer) : Value :=
  .dict [(.text "type", .text "custom"), (.text "tokenizer", .text a.tokenizer),
    (.text "filter", .list (a.filters.map .text))]

end Analyzer

namespace Analysis

/-- Cuts a text into its starts. -/
def startsOfText : Entries :=
  [(.text "type", .text "edge_ngram"), (.text "min_gram", .int 1), (.text "max_gram", .int 50)]

/-- The settings that the sub-fields of all modes refer to. -/
def standard : Analysis where
  analyzers := [
    (Tag.base.analyzer, ⟨"ac_edge_ngram", ["lowercase", "asciifolding"]⟩),
    (Tag.word.analyzer, ⟨"standard", ["lowercase", "asciifolding", "ac_edge_ngram"]⟩),
    (Tag.full.analyzer, ⟨"keyword", ["lowercase", "asciifolding", "ac_edge_ngram"]⟩),
    (SubField.searchAnalyzer, ⟨"keyword", ["lowercase", "asciifolding"]⟩)]
  tokenizers := [("ac_edge_ngram",
    startsOfText ++ [(.text "token_chars", .list [.text "letter", .text "digit"])])]
  filters := [("ac_edge_ngram", startsOfText)]

/-- Named settings in an index body. -/
def named {α : Type} (toValue : α → Value) (items : List (String × α)) : Value :=
  .dict (items.map fun e => (.text e.1, toValue e.2))

/-- The form in an index body. -/
def toValue (a : Analysis) : Value :=
  .dict [(.text "analysis", .dict [
    (.text "analyzer", named Analyzer.toValue a.analyzers),
    (.text "tokenizer", named .dict a.tokenizers),
    (.text "filter", named .dict a.filters)])]

end Analysis

end Typeahead
