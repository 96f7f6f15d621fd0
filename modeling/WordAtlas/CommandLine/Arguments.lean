import WordAtlas.Numeral

/-!
# Command line arguments

An argument is an option, the value of the option before it, or out of place.  Long options may be
abbreviated as long as one of them only begins that way, and take a value after an equals sign or
from the next argument.  Short options of one letter may be joined; the first of them that takes a
value takes the rest of the argument, or the next argument if nothing is left.  The joined letters
may also stand behind an equals sign.  A text that looks like a negative number, or that holds a
space and begins like no option, is never an option, and neither is anything behind `--`.  Attached
to an option, `--` stands for no value at all: no overlays, no file, and a word that is missing.

All arguments are classified before the first of them is acted on, so an ambiguous abbreviation is
reported before any other mistake.  Then the options are carried out in order, and arguments out of
place are reported at the end.
-/

namespace WordAtlas.CommandLine

/-- The options of the command line. -/
inductive Switch
  | help
  | options
  | word
  | output
  | pretty
  | verbose
deriving DecidableEq, Repr

namespace Switch

/-- All options, in the order in which they are listed. -/
def all : List Switch :=
  [help, options, word, output, pretty, verbose]

/-- The short and long spellings of an option. -/
def spellings : Switch → List String
  | help => ["-h", "--help"]
  | options => ["--options"]
  | word => ["-w", "--word"]
  | output => ["-o", "--output"]
  | pretty => ["--pretty"]
  | verbose => ["-v", "--verbose"]

/-- Whether an option takes a value. -/
def takesValue : Switch → Bool
  | options => true
  | word => true
  | output => true
  | _ => false

/-- How messages refer to an option. -/
def label (switch : Switch) : String :=
  "/".intercalate switch.spellings

/-- Every spelling with its option, in the order in which they are listed. -/
def table : List (List Char × Switch) :=
  all.flatMap fun switch => switch.spellings.map fun spelling => (spelling.toList, switch)

/-- The option with the given spelling. -/
def ofSpelling? (spelling : List Char) : Option Switch :=
  table.lookup spelling

end Switch

/-- What an argument is. -/
inductive Role
  /-- A value, or out of place. -/
  | value
  /-- The mark behind which there are no options. -/
  | mark
  /-- An option in its short or long spelling, perhaps with a text attached. -/
  | switch (switch : Switch) (short : Bool) (attached : Option (List Char))
  /-- An option that there is not. -/
  | unknown
deriving DecidableEq, Repr

/-- A mistake in the arguments. -/
inductive Mistake
  /-- An abbreviation of several options. -/
  | ambiguous (argument : String) (candidates : List String)
  /-- An option without the value that it takes. -/
  | valueMissing (switch : Switch)
  /-- A value of an option that takes none. -/
  | valueIgnored (switch : Switch) (text : String)
  /-- A value that names no word. -/
  | misnamed (switch : Switch) (reason : Word.Misnamed)
  /-- Arguments out of place. -/
  | unrecognized (arguments : List String)
deriving DecidableEq, Repr

/-- The message about a mistake in the arguments. -/
def Mistake.message : Mistake → String
  | ambiguous argument candidates =>
      "ambiguous option: " ++ argument ++ " could match " ++ ", ".intercalate candidates
  | valueMissing switch => "argument " ++ switch.label ++ ": expected one argument"
  | valueIgnored switch text =>
      "argument " ++ switch.label ++ ": ignored explicit argument " ++ Text.Quoted.ofString text
  | misnamed switch reason => "argument " ++ switch.label ++ ": " ++ reason.message
  | unrecognized arguments => "unrecognized arguments: " ++ " ".intercalate arguments

/-- Whether a text is one or more decimal digits. -/
def isDigits (cs : List Char) : Bool :=
  !cs.isEmpty && cs.all fun c => (Text.decimalValue? c).isSome

/-- Whether a text is a minus sign and a decimal number, with or without a fraction; a line feed may
follow. -/
def isNegativeNumber (cs : List Char) : Bool :=
  let body := if cs.getLast? == some '\n' then cs.dropLast else cs
  match body with
  | '-' :: digits =>
      isDigits digits ||
        let whole := digits.takeWhile (· != '.')
        let decimals := (digits.dropWhile (· != '.')).drop 1
        digits.contains '.' && (whole.isEmpty || isDigits whole) && isDigits decimals
  | _ => false

/-- A text up to its first equals sign, and what stands behind that. -/
def cutAtEquals (cs : List Char) : List Char × Option (List Char) :=
  let before := cs.takeWhile (· != '=')
  if cs.contains '=' then (before, some (cs.drop (before.length + 1))) else (before, none)

/-- Whether a spelling is a short one, with a single dash. -/
def isShort (spelling : List Char) : Bool :=
  spelling.drop 1 |>.head? |>.any (· != '-')

/-- The options that an argument may mean which is no spelling, each with its spelling. -/
def candidates (cs : List Char) : List (List Char × Role) :=
  match cs with
  | '-' :: '-' :: _ =>
      let (name, text) := cutAtEquals cs
      (Switch.table.filter fun (spelling, _) => name.isPrefixOf spelling).map
        fun (spelling, switch) => (spelling, .switch switch (isShort spelling) text)
  | _ =>
      (Switch.table.filter fun (spelling, _) => spelling == cs.take 2).map
        fun (spelling, switch) => (spelling, .switch switch true (some (cs.drop 2)))

/-- What an argument in front of the mark is. -/
def roleOf (argument : String) : Except Mistake Role :=
  let cs := argument.toList
  match cs with
  | '-' :: _ :: _ =>
      match Switch.ofSpelling? cs with
      | some switch => .ok (.switch switch (isShort cs) none)
      | none =>
          let (name, text) := cutAtEquals cs
          match text, Switch.ofSpelling? name with
          | some text, some switch => .ok (.switch switch (isShort name) (some text))
          | _, _ =>
              match candidates cs with
              | [(_, role)] => .ok role
              | [] =>
                  if isNegativeNumber cs || cs.contains ' ' then .ok .value else .ok .unknown
              | several =>
                  .error (.ambiguous argument (several.map fun found => String.ofList found.1))
  | _ => .ok .value

/-- What each of the arguments is. -/
def roles : List String → Except Mistake (List (String × Role))
  | [] => .ok []
  | argument :: rest =>
      if argument = "--" then
        .ok ((argument, .mark) :: rest.map fun later => (later, .value))
      else do
        let role ← roleOf argument
        let others ← roles rest
        return (argument, role) :: others

/-- What a command line asks for. -/
structure Request where
  help : Bool := false
  options : Option String := none
  words : List Word := []
  /-- Whether an option for a word came without a value. -/
  wordMissing : Bool := false
  output : Option String := none
  pretty : Bool := false
  verbose : Bool := false
deriving DecidableEq, Repr

/-- The text that stands for no value when it is attached to an option. -/
def noValue : String :=
  "--"

/-- Carries out an option with its value. -/
def Request.apply (request : Request) (switch : Switch) (value : String) :
    Except Mistake Request :=
  match switch with
  | .help => .ok { request with help := true }
  | .options => .ok { request with options := some (if value = noValue then "" else value) }
  | .word =>
      if value = noValue then .ok { request with wordMissing := true }
      else match Word.ofText value with
        | .ok w => .ok { request with words := request.words ++ [w] }
        | .error reason => .error (.misnamed .word reason)
  | .output => .ok { request with output := some (if value = noValue then "" else value) }
  | .pretty => .ok { request with pretty := true }
  | .verbose => .ok { request with verbose := true }

/-- The options joined in one argument. -/
structure Cluster where
  /-- The options with the values that they have, in order. -/
  settled : List (Switch × String)
  /-- The last option, if it takes its value from the next argument. -/
  pending : Option Switch
deriving DecidableEq, Repr

/-- Puts an option without value in front of others. -/
def Cluster.push (switch : Switch) (cluster : Cluster) : Cluster :=
  { cluster with settled := (switch, "") :: cluster.settled }

/-- Takes apart what stands behind the letter of a short option: the value of the option, or the
letters of further ones. -/
def joined (switch : Switch) : List Char → Except Mistake Cluster
  | [] =>
      if switch.takesValue then .ok ⟨[], some switch⟩
      else .ok ⟨[(switch, "")], none⟩
  | letter :: rest =>
      if switch.takesValue then .ok ⟨[(switch, String.ofList (letter :: rest))], none⟩
      else match Switch.ofSpelling? ['-', letter] with
        | none => .error (.valueIgnored switch (String.ofList (letter :: rest)))
        | some next => (joined next rest).map (Cluster.push switch)

/-- The options of one argument, which begins with the given one. -/
def cluster (switch : Switch) (short : Bool) : Option (List Char) → Except Mistake Cluster
  | none => joined switch []
  | some text =>
      if switch.takesValue then .ok ⟨[(switch, String.ofList text)], none⟩
      else if short && !text.isEmpty then joined switch text
      else .error (.valueIgnored switch (String.ofList text))

/-- Carries out options in order, up to the first that asks for help. -/
def Request.applyAll (request : Request) : List (Switch × String) → Except Mistake Request
  | [] => .ok request
  | (switch, value) :: rest =>
      if request.help then .ok request
      else do
        let request ← request.apply switch value
        request.applyAll rest

/-- Carries out the arguments in order; `stray` are those out of place so far. -/
def carryOut (request : Request) (stray : List String) :
    List (String × Role) → Except Mistake Request
  | [] => if stray.isEmpty then .ok request else .error (.unrecognized stray)
  | (_, .switch switch short attached) :: rest => do
      let cluster ← cluster switch short attached
      match cluster.pending, rest with
      | none, rest =>
          let request ← request.applyAll cluster.settled
          if request.help then return request
          carryOut request stray rest
      | some last, (value, .value) :: rest =>
          let request ← request.applyAll (cluster.settled ++ [(last, value)])
          if request.help then return request
          carryOut request stray rest
      | some last, _ => .error (.valueMissing last)
  | (argument, _) :: rest => carryOut request (stray ++ [argument]) rest

/-- What the arguments of a command line ask for. -/
def Request.ofArguments (arguments : List String) : Except Mistake Request := do
  carryOut {} [] (← roles arguments)

end WordAtlas.CommandLine
