import CssSieve.Limits

/-!
# Command line arguments

Options may stand in any order and may be given once; `--` ends them. A value stands behind its
option or, for the long form, behind an equals sign. What cannot be understood is a usage error,
reported for the first argument that is wrong.
-/

namespace CssSieve.CommandLine

/-- What the JSON input holds. -/
inductive Format where
  | sheet
  | tokens
deriving DecidableEq, Repr

/-- What a run is asked to do. -/
structure Options where
  /-- The file to read; standard input if there is none. -/
  path : Option String := none
  format : Option Format := none
  extended : Bool := false
  json : Bool := false
  noLimits : Bool := false
  maxRules : Option Nat := none
deriving DecidableEq, Repr

/-- What the arguments ask for. -/
inductive Request where
  | run (options : Options)
  /-- Help, in full or as a summary. -/
  | help (full : Bool)
  | version
deriving DecidableEq, Repr

inductive UsageError where
  | unknown (argument : String)
  | repeated (option : String)
  | missingValue (option : String)
  | unexpectedValue (option : String)
  | badValue (option value : String)
deriving DecidableEq, Repr

def UsageError.message : UsageError → String
  | unknown argument => s!"unexpected argument '{argument}' found"
  | repeated option => s!"the argument '{option}' cannot be used multiple times"
  | missingValue option => s!"a value is required for '{option}' but none was supplied"
  | unexpectedValue option => s!"unexpected value for '{option}' found"
  | badValue option value => s!"invalid value '{value}' for '{option}'"

/-- A natural number of sixty-four bits, perhaps with a plus sign before its digits. -/
def natural? (s : String) : Option Nat :=
  let digits := match s.toList with
    | '+' :: ds => ds
    | ds => ds
  if digits.isEmpty || !digits.all Char.isDigit then none
  else
    let n := digits.foldl (fun n d => 10 * n + (d.toNat - 48)) 0
    if n < UInt64.size then some n else none

namespace Options

/-- Sets the format. -/
def withFormat (o : Options) (value : String) : Except UsageError Options :=
  if o.format.isSome then .error (.repeated "--input")
  else
    match value with
    | "ast" => .ok { o with format := some .sheet }
    | "tokens" => .ok { o with format := some .tokens }
    | _ => .error (.badValue "--input" value)

/-- Sets the greatest number of rules. -/
def withMaxRules (o : Options) (value : String) : Except UsageError Options :=
  if o.maxRules.isSome then .error (.repeated "--max-rules")
  else
    match natural? value with
    | some n => .ok { o with maxRules := some n }
    | none => .error (.badValue "--max-rules" value)

/-- Sets the file to read. There is room for one, and its name is not empty. -/
def withPath (o : Options) (value : String) : Except UsageError Options :=
  if o.path.isSome then .error (.unknown value)
  else if value.isEmpty then .error (.badValue "[FILE]" value)
  else .ok { o with path := some value }

def withExtended (o : Options) : Except UsageError Options :=
  if o.extended then .error (.repeated "--extended") else .ok { o with extended := true }

def withJson (o : Options) : Except UsageError Options :=
  if o.json then .error (.repeated "--json") else .ok { o with json := true }

def withNoLimits (o : Options) : Except UsageError Options :=
  if o.noLimits then .error (.repeated "--no-limits") else .ok { o with noLimits := true }

end Options

/-- What one argument is. -/
inductive Argument where
  /-- `--`. -/
  | endOfOptions
  /-- `--name`, perhaps with `=value`. -/
  | long (name : String) (value : Option String)
  /-- `-` with single letters. -/
  | short (letters : List Char)
  | plain (value : String)

def Argument.ofString (s : String) : Argument :=
  match s.toList with
  | ['-', '-'] => endOfOptions
  | '-' :: '-' :: cs =>
    let name := cs.takeWhile (· != '=')
    match cs.drop name.length with
    | _ :: value => long (String.ofList name) (some (String.ofList value))
    | [] => long (String.ofList name) none
  | '-' :: c :: cs => short (c :: cs)
  | _ => plain s

/-- Whether an argument can stand behind an option as its value. -/
def isValue (s : String) : Bool := !s.startsWith "-"

/-- Options as letters behind one dash. A request for help or the version ends the reading. -/
def readLetters (o : Options) : List Char → Except UsageError (Options ⊕ Request)
  | [] => .ok (.inl o)
  | 'e' :: cs => do readLetters (← o.withExtended) cs
  | 'h' :: _ => .ok (.inr (.help false))
  | 'V' :: _ => .ok (.inr .version)
  | c :: _ => .error (.unknown ("-" ++ c.toString))

/-- Reads what is left of the arguments. -/
def readFrom (o : Options) : List String → Except UsageError Request
  | [] => .ok (.run o)
  | arg :: args =>
    match Argument.ofString arg with
    | .endOfOptions => do return .run (← args.foldlM Options.withPath o)
    | .plain value => do readFrom (← o.withPath value) args
    | .short letters => do
      match ← readLetters o letters with
      | .inl o => readFrom o args
      | .inr request => return request
    | .long "input" (some value) => do readFrom (← o.withFormat value) args
    | .long "max-rules" (some value) => do readFrom (← o.withMaxRules value) args
    | .long "input" none =>
      match args with
      | value :: args =>
        if isValue value then do readFrom (← o.withFormat value) args
        else .error (.missingValue "--input")
      | [] => .error (.missingValue "--input")
    | .long "max-rules" none =>
      match args with
      | value :: args =>
        if isValue value then do readFrom (← o.withMaxRules value) args
        else .error (.missingValue "--max-rules")
      | [] => .error (.missingValue "--max-rules")
    | .long "extended" none => do readFrom (← o.withExtended) args
    | .long "json" none => do readFrom (← o.withJson) args
    | .long "no-limits" none => do readFrom (← o.withNoLimits) args
    | .long "help" none => .ok (.help true)
    | .long "version" none => .ok .version
    | .long name (some _) => .error (.unexpectedValue ("--" ++ name))
    | .long name none => .error (.unknown ("--" ++ name))

/-- What the arguments ask for. -/
def Request.ofArguments (args : List String) : Except UsageError Request := readFrom {} args

end CssSieve.CommandLine
