import PhraseGrammar.CommandLine.Command

/-! Arguments are a verb and named settings; a setting has a name, mostly a letter, and may take a value. -/

namespace PhraseGrammar.CommandLine

/-- What an argument can set. -/
inductive Setting where
  | help
  | version
  | verbose
  | input
  | output
  | patterns
  | sentences
  | stopWords
  | config
  | cleanStopWords
  | noBoundaries
deriving DecidableEq, Repr

namespace Setting

/-- The name, which follows two dashes. -/
def name : Setting → String
  | .help => "help"
  | .version => "version"
  | .verbose => "verbose"
  | .input => "input"
  | .output => "output"
  | .patterns => "patterns"
  | .sentences => "sentences"
  | .stopWords => "stop-words"
  | .config => "config"
  | .cleanStopWords => "clean-stop-words"
  | .noBoundaries => "no-boundaries"

/-- The letter, which follows one dash. -/
def letter? : Setting → Option Char
  | .help => some 'h'
  | .version => some 'V'
  | .verbose => some 'v'
  | .input => some 'i'
  | .output => some 'o'
  | .patterns => some 'p'
  | .sentences => some 's'
  | _ => none

/-- Whether a value belongs to the setting. -/
def takesValue : Setting → Bool
  | .input | .output | .patterns | .sentences | .stopWords | .config => true
  | _ => false

end Setting

/-- Why arguments name no work. -/
inductive Halt where
  /-- They ask for help. -/
  | help
  /-- They ask for the version. -/
  | version
  /-- They cannot be understood. -/
  | misuse
deriving DecidableEq, Repr

/-- The settings that have been given, the latest first, with their values. -/
abbrev Given := List (Setting × Option String)

namespace Given

/-- One more setting: help and the version end the reading, and only verbosity may be repeated. -/
def note (given : Given) (setting : Setting) (value : Option String) : Except Halt Given :=
  match setting with
  | .help => .error .help
  | .version => .error .version
  | .verbose => .ok given
  | _ =>
    if value = some "" || given.any (fun earlier => earlier.1 = setting) then .error .misuse
    else .ok ((setting, value) :: given)

/-- Whether a setting has been given. -/
def has (given : Given) (setting : Setting) : Bool :=
  (given.lookup setting).isSome

/-- The value that a setting has been given. -/
def value? (given : Given) (setting : Setting) : Option String :=
  (given.lookup setting).join

end Given

/-- The shapes of an argument. -/
inductive Shape where
  /-- No setting: a verb or a value. -/
  | plain
  /-- Two dashes alone, after which nothing is a setting. -/
  | separator
  /-- Two dashes and a name, with a value after an equals sign. -/
  | named (name : String) (value : Option String)
  /-- One dash and letters. -/
  | lettered (letters : List Char)
deriving DecidableEq, Repr

/-- The shape of an argument; a dash alone is plain. -/
def Shape.ofChars : List Char → Shape
  | ['-', '-'] => .separator
  | '-' :: '-' :: text =>
    let value := match text.dropWhile (· ≠ '=') with
      | [] => none
      | _ :: value => some (String.ofList value)
    .named (String.ofList (text.takeWhile (· ≠ '='))) value
  | '-' :: letter :: letters => .lettered (letter :: letters)
  | _ => .plain

/-- What a setting leaves behind: all that has been given, and the setting whose value comes next. -/
abbrev Noted := Given × Option Setting

/-- Reads a setting by its name. -/
def readNamed (known : List Setting) (given : Given) (name : String) (value : Option String) :
    Except Halt Noted :=
  match known.find? (fun setting => setting.name = name) with
  | none => .error .misuse
  | some setting =>
    match setting.takesValue, value with
    | true, none => .ok (given, some setting)
    | false, some _ => .error .misuse
    | _, _ => (given.note setting value).map (·, none)

/-- Reads letters: flags, and then one setting at most that takes the rest as its value. -/
def readLetters (known : List Setting) (given : Given) : List Char → Except Halt Noted
  | [] => .ok (given, none)
  | letter :: rest =>
    match known.find? (fun setting => setting.letter? = some letter) with
    | none => .error .misuse
    | some setting =>
      if setting.takesValue then
        match rest with
        | [] => .ok (given, some setting)
        -- An equals sign may stand between the letter and its value.
        | '=' :: value => (given.note setting (some (String.ofList value))).map (·, none)
        | value => (given.note setting (some (String.ofList value))).map (·, none)
      else
        match given.note setting none with
        | .error halt => .error halt
        | .ok noted => readLetters known noted rest

/-- Reads settings up to the first argument that is none; it and all that follow are left. -/
def readSettings (known : List Setting) (given : Given) :
    List String → Except Halt (Given × List String)
  | [] => .ok (given, [])
  | argument :: rest =>
    let read := match Shape.ofChars argument.toList with
      | .plain | .separator => none
      | .named name value => some (readNamed known given name value)
      | .lettered letters => some (readLetters known given letters)
    match read with
    | none => .ok (given, argument :: rest)
    | some (.error halt) => .error halt
    | some (.ok (noted, none)) => readSettings known noted rest
    | some (.ok (noted, some setting)) =>
      match rest with
      | [] => .error .misuse
      | value :: rest =>
        -- Another setting cannot be a value.
        if Shape.ofChars value.toList = .plain then
          match noted.note setting (some value) with
          | .error halt => .error halt
          | .ok noted => readSettings known noted rest
        else .error .misuse

/-- The kinds of work. -/
inductive Verb where
  | compile
  | extract
  | inspect
deriving DecidableEq, Repr

namespace Verb

/-- Every verb. -/
def all : List Verb :=
  [.compile, .extract, .inspect]

/-- The word for a verb. -/
def name : Verb → String
  | .compile => "compile"
  | .extract => "extract"
  | .inspect => "inspect"

/-- The settings that a verb knows. -/
def settings : Verb → List Setting
  | .compile => [.help, .verbose, .input, .output]
  | .extract => [.help, .verbose, .patterns, .sentences, .stopWords, .config, .cleanStopWords,
      .noBoundaries, .output]
  | .inspect => [.help, .verbose, .patterns]

/-- The work that a verb stands for, if nothing is missing. -/
def command? (verb : Verb) (given : Given) : Option Command :=
  match verb with
  | .compile => do
    return .compile (← given.value? .input) (← given.value? .output)
  | .extract => do
    return .extract {
      patterns := ← given.value? .patterns
      sentences := ← given.value? .sentences
      stopWords := given.value? .stopWords
      config := given.value? .config
      cleanStopWords := given.has .cleanStopWords
      noBoundaries := given.has .noBoundaries
      output := given.value? .output }
  | .inspect => do
    return .inspect (← given.value? .patterns)

end Verb

/-- What a request for help with a topic comes to. -/
def helpOn : List String → Halt
  | [] => .help
  | [topic] => if topic ∈ "help" :: Verb.all.map Verb.name then .help else .misuse
  | _ => .misuse

/-- The work that arguments ask for. -/
def Command.ofArguments (arguments : List String) : Except Halt Command := do
  let (_, rest) ← readSettings [.help, .version, .verbose] [] arguments
  match rest with
  | [] => .error .misuse
  | name :: rest =>
    if name = "help" then .error (helpOn rest)
    else
      match Verb.all.find? (fun verb => verb.name = name) with
      | none => .error .misuse
      | some verb =>
        let (given, excess) ← readSettings verb.settings [] rest
        if excess = [] || excess = ["--"] then
          match verb.command? given with
          | some command => return command
          | none => .error .misuse
        else .error .misuse

end PhraseGrammar.CommandLine
