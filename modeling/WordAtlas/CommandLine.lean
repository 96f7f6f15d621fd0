import WordAtlas.Catalog.Shipped
import WordAtlas.CommandLine.Arguments
import WordAtlas.Json.Writer
import WordAtlas.Overlay.Selection
import WordAtlas.Table.Build
import WordAtlas.Table.Listing

/-!
# The command line

The program writes the shipped table as JSON: its whole listing, or, if words are given, an entry
for each of them.  The overlays come from the arguments or, failing that, from the environment.
`run` says what the program does for an environment and some arguments, as a value: the exit code,
what goes to the two output streams, and the file that is written, if any.  Nothing is written but
by a run that succeeds.
-/

namespace WordAtlas.CommandLine

/-- The name of the program. -/
def programName : String :=
  "fr80-dump-decode-table"

/-- The name under which the building of the table logs. -/
def tableLog : String :=
  "fr80.decoding.decode_map"

/-- The name under which the program itself logs. -/
def programLog : String :=
  "fr80.tools.dump_decode_table"

/-- The summary of the arguments, in lines for a screen of eighty columns, as it stands in front of
a mistake and above the help. -/
def usage : String :=
  "usage: " ++ programName ++ " [-h] [--options OPTIONS] [-w WORD] [-o OUTPUT]\n" ++
    "                              [--pretty] [-v]\n"

/-- What is told to those who ask for help, in lines for a screen of eighty columns. -/
def helpText : String :=
  usage ++
    "\n" ++
    "Emit the FR decode table as JSON. Without ``--word`` the payload lists every\n" ++
    "applied definition and the runs of consecutive words that decode to each one.\n" ++
    "With ``--word`` only the definitions of the given instruction words are\n" ++
    "printed.\n" ++
    "\n" ++
    "options:\n" ++
    "  -h, --help            show this help message and exit\n" ++
    "  --options OPTIONS     Comma-separated overlays (stack, shift, dmov,\n" ++
    "                        specials, all, none). Defaults to FR80_DECODE_OPTIONS\n" ++
    "                        / FR80_OPT_* from the environment.\n" ++
    "  -w WORD, --word WORD  Instruction word to look up (repeatable), e.g. 0x9720.\n" ++
    "  -o OUTPUT, --output OUTPUT\n" ++
    "                        Path to write the JSON payload. Defaults to stdout.\n" ++
    "  --pretty              Pretty-print the JSON output for human inspection.\n" ++
    "  -v, --verbose         Debug logging.\n"

/-- What a run of the program does. -/
structure Effect where
  exitCode : Nat
  stdout : String := ""
  stderr : String := ""
  file : Option (String × String) := none
deriving DecidableEq, Repr

/-- A line of the log. -/
def logLine (level : Table.Level) (source message : String) : String :=
  level.name ++ " " ++ source ++ ": " ++ message ++ "\n"

/-- The log of a build; without `verbose`, errors only. -/
def buildLog (verbose : Bool) (events : List Table.Event) : String :=
  String.join ((events.filter fun event => verbose || event.level == .error).map fun event =>
    logLine event.level tableLog event.message)

/-- The overlays in force: those of the arguments, or else those of the environment. -/
def overlaysFor (environment : String → Option String) (request : Request) :
    Except OverlaySet.Unknown OverlaySet :=
  match request.options with
  | some text => OverlaySet.ofText text
  | none => OverlaySet.ofEnvironment environment

/-- What is told about a table: its listing, or an entry for each of the words asked for. -/
def payload (table : Table) (words : List Word) : Json Int :=
  match words with
  | [] => table.listing.toJson
  | words => .array (words.map fun w => (table.entry w).toJson)

/-- What is told to those who ask for a word and give none. -/
def missingWord : String :=
  "a word is missing"

/-- Writes a text to the file that a request names, or else to the standard output. -/
def deliver (request : Request) (log text : String) : Effect :=
  match request.output with
  | none => { exitCode := 0, stdout := text, stderr := log }
  | some path =>
      if path = "" then { exitCode := 0, stdout := text, stderr := log }
      else { exitCode := 0, stderr := log, file := some (path, text) }

/-- Carries out a request with the table of the given catalogs. -/
def fulfil (catalogs : Catalogs) (environment : String → Option String) (request : Request) :
    Effect :=
  match overlaysFor environment request with
  | .error unknown => { exitCode := 2, stderr := logLine .error programLog unknown.message }
  | .ok options =>
      let course := Table.course catalogs options
      let log := buildLog request.verbose course.events
      match course.result with
      | .error e => { exitCode := 1, stderr := log ++ e.message ++ "\n" }
      | .ok table =>
          if request.wordMissing then { exitCode := 1, stderr := log ++ missingWord ++ "\n" }
          else deliver request log ((payload table request.words).text request.pretty)

/-- What the program does for an environment and some arguments. -/
def run (environment : String → Option String) (arguments : List String) : Effect :=
  match Request.ofArguments arguments with
  | .error mistake =>
      { exitCode := 2, stderr := usage ++ programName ++ ": error: " ++ mistake.message ++ "\n" }
  | .ok request =>
      if request.help then { exitCode := 0, stdout := helpText }
      else fulfil .shipped environment request

end WordAtlas.CommandLine
