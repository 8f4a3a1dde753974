import CssSieve.CommandLine.Arguments
import CssSieve.CommandLine.Help
import CssSieve.Json.Reader
import CssSieve.Json.Text
import CssSieve.Policy.Json
import CssSieve.Policy.Options
import CssSieve.Sheet.Text
import CssSieve.Text.Blank
import CssSieve.Warning

/-!
# The command line

A run reads a JSON document, drops from the sheet what is not allowed, and writes what is left to
standard output and the reasons for the rest to standard error. It is a function of the arguments
and of what can be read.
-/

namespace CssSieve.CommandLine

/-- Where the document comes from. -/
inductive Source where
  | file (path : String)
  | standardInput
deriving DecidableEq, Repr

/-- What a run leaves behind. -/
structure Result where
  exitCode : Nat
  stdout : String := ""
  stderr : String := ""
deriving DecidableEq, Repr

/-! ## Styled text -/

def bold (s : String) : String := "\x1b[1m" ++ s ++ "\x1b[0m"

def dimmed (s : String) : String := "\x1b[2m" ++ s ++ "\x1b[0m"

def red (s : String) : String := "\x1b[31m" ++ s ++ "\x1b[39m"

def yellow (s : String) : String := "\x1b[33m" ++ s ++ "\x1b[39m"

def cyan (s : String) : String := "\x1b[36m" ++ s ++ "\x1b[39m"

/-- A diagnostic as a line of text, with its place at the end. -/
def diagnosticLine (d : Diagnostic) : String :=
  let label := match d.severity with
    | .error => bold (red d.label)
    | .note => cyan d.label
  label ++ ": " ++ d.message ++ " " ++ dimmed ("at " ++ d.location.text) ++ "\n"

def warningLine (w : Warning) : String :=
  yellow (s!"[Tessera {w.component}] ⚠ " ++ w.message) ++ "\n"

/-- A failure with its cause, if that is known. -/
def errorText (message : String) (cause : Option String) : String :=
  "Error: " ++ message
    ++ (match cause with
      | some why => "\n\nCaused by:\n    " ++ why
      | none => "")
    ++ "\n"

def failure (message : String) (cause : Option String) : Result :=
  { exitCode := 1, stderr := errorText message cause }

/-! ## Steps of a run -/

/-- The sheet that a document holds. -/
def sheetOf? (format : Format) (text : String) : Option Sheet := do
  let j ← Json.ofText? text
  match format with
  | .sheet => Sheet.ofJson? j
  | .tokens => Sheet.ofTokens <$> j.list? Token.ofJson?

/-- What a document that holds something else is not. -/
def formatName : Format → String
  | .sheet => "a JSON stylesheet"
  | .tokens => "a JSON token array"

def limitsOf (o : Options) : Limits :=
  match o.maxRules with
  | some n => { maxRules := n }
  | none => {}

/-- Holds a sheet against the limits, unless that is declined. -/
def checkLimits (o : Options) (s : Sheet) : Except LimitError Unit :=
  if o.noLimits then .ok () else (limitsOf o).check s

/-- What a sanitized sheet is written as. -/
def report (o : Options) (s : Sanitized) : Result :=
  if o.json then { exitCode := 0, stdout := s.toJson.pretty ++ "\n" }
  else
    let errors := Diagnostic.errorCount s.diagnostics
    { exitCode := 0
      stdout := s.sheet.css
      stderr := String.join (s.diagnostics.map diagnosticLine)
        ++ if errors = 0 then "" else bold s!"{errors} node(s) dropped" ++ "\n" }

/-- Works on a document that has been read. -/
def process (o : Options) (text : String) : Result :=
  let format := o.format.getD .sheet
  match sheetOf? format text with
  | none => failure ("input is not " ++ formatName format) (some "unexpected text or shape")
  | some sheet =>
    match checkLimits o sheet with
    | .error e => failure e.message none
    | .ok () => report o ((if o.extended then Policy.extended else .standard).sanitize sheet)

/-- The warning about a document without anything in it. -/
def emptyInput : Warning := ⟨"CLI", "empty input, nothing to sanitize"⟩

def Options.source (o : Options) : Source :=
  match o.path with
  | some path => .file path
  | none => .standardInput

def Source.describe : Source → String
  | file path => "reading " ++ path
  | standardInput => "reading stdin"

/-- Reads the document and works on it. Only standard input is warned about when it is blank. -/
def execute (o : Options) (read : Source → Option String) : Result :=
  match read o.source with
  | none => failure o.source.describe (some "the input cannot be read")
  | some text =>
    let result := process o text
    if o.path.isNone && Text.isBlank text then
      { result with stderr := warningLine emptyInput ++ result.stderr }
    else result

/-- A whole run. -/
def run (args : List String) (read : Source → Option String) : Result :=
  match Request.ofArguments args with
  | .error e => { exitCode := 2, stderr := "error: " ++ e.message ++ "\n" }
  | .ok (.help full) => { exitCode := 0, stdout := helpText full }
  | .ok .version => { exitCode := 0, stdout := versionText }
  | .ok (.run o) => execute o read

/-- What a run with the arguments is going to read. -/
def source? (args : List String) : Option Source :=
  match Request.ofArguments args with
  | .ok (.run o) => some o.source
  | _ => none

end CssSieve.CommandLine
