import PhraseGrammar.Json.Decode
import PhraseGrammar.MatchOptions

/-! The JSON form of options. -/

namespace PhraseGrammar.MatchOptions

/-- One field of the options; the limits fit into 64 bits. -/
def setField (options : MatchOptions) (field : String) (value : Json) : Decoded MatchOptions :=
  match field with
  | "clean_stop_words" => do return { options with cleanStopWords := ← value.asBool }
  | "validate_boundaries" => do return { options with validateBoundaries := ← value.asBool }
  | "max_depth" => do return { options with maxDepth := ← value.asNatBelow UInt64.size }
  | _ => do return { options with maxSteps := ← value.asNatBelow UInt64.size }

/-- Options, of which none has to be stated. -/
def ofJson : Json → Decoded MatchOptions :=
  Json.asRecord ["clean_stop_words", "validate_boundaries", "max_depth", "max_steps"] [] {} setField

end PhraseGrammar.MatchOptions
