/-! The texts that the command line prints about itself. -/

namespace PhraseGrammar.CommandLine

/-- The version of the program. -/
def version : String :=
  "phrasegrammar 0.1.0\n"

/-- How the program is called. -/
def usage : String :=
  "Usage: phrasegrammar [-v] COMMAND\n\n" ++
  "  compile -i FILE -o FILE    check patterns and write them to an archive\n" ++
  "  extract -p FILE -s FILE [--stop-words FILE] [--config FILE] [--clean-stop-words]\n" ++
  "          [--no-boundaries] [-o FILE]    extract phrases from sentences\n" ++
  "  inspect -p FILE    describe patterns\n" ++
  "  help [COMMAND]    print this text\n"

end PhraseGrammar.CommandLine
