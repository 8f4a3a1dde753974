/-!
# Help

What is shown on request: a summary, or the same in full with a line for every explanation.
-/

namespace CssSieve.CommandLine

def aboutText : String := "Tessera: validate CSS against property value grammars\n"

def usageText : String := "Usage: tessera [OPTIONS] [FILE]\n"

def examplesText : String :=
  "EXAMPLES:\n"
    ++ "    # Sanitize a stylesheet AST\n"
    ++ "    tessera sheet.json\n\n"
    ++ "    # Read tokens from stdin, allow var() anywhere and modern properties\n"
    ++ "    tokenize style.css | tessera --input tokens --extended\n\n"
    ++ "    # Machine-readable output\n"
    ++ "    tessera --json sheet.json\n"

/-- Every option on a line of its own. -/
def summaryOptions : String :=
  "Arguments:\n"
    ++ "  [FILE]  JSON file to read; stdin when omitted\n\n"
    ++ "Options:\n"
    ++ "      --input <INPUT>          What the JSON input holds [default: ast] "
    ++ "[possible values: ast, tokens]\n"
    ++ "  -e, --extended               Use the extended property set and matcher factory\n"
    ++ "      --json                   Print the sanitized stylesheet and diagnostics as JSON\n"
    ++ "      --no-limits              Skip the rule count, value length, and depth checks\n"
    ++ "      --max-rules <MAX_RULES>  Maximum number of rules, counting nested rules "
    ++ "[default: 10000]\n"
    ++ "  -h, --help                   Print help (see more with '--help')\n"
    ++ "  -V, --version                Print version\n"

/-- A line that is empty but for its indentation. -/
def indentedBlank : String := "          \n"

/-- Every option with its explanation below it. -/
def fullOptions : String :=
  "Arguments:\n"
    ++ "  [FILE]\n          JSON file to read; stdin when omitted\n\n"
    ++ "Options:\n"
    ++ "      --input <INPUT>\n          What the JSON input holds\n\n"
    ++ "          Possible values:\n"
    ++ "          - ast:    A serialized `Stylesheet`\n"
    ++ "          - tokens: An array of tokens\n"
    ++ indentedBlank
    ++ "          [default: ast]\n\n"
    ++ "  -e, --extended\n          Use the extended property set and matcher factory\n\n"
    ++ "      --json\n          Print the sanitized stylesheet and diagnostics as JSON\n\n"
    ++ "      --no-limits\n          Skip the rule count, value length, and depth checks\n\n"
    ++ "      --max-rules <MAX_RULES>\n          Maximum number of rules, counting nested rules\n"
    ++ indentedBlank
    ++ "          [default: 10000]\n\n"
    ++ "  -h, --help\n          Print help (see a summary with '-h')\n\n"
    ++ "  -V, --version\n          Print version\n"

def helpText (full : Bool) : String :=
  aboutText ++ "\n" ++ usageText ++ "\n" ++ (if full then fullOptions else summaryOptions) ++ "\n"
    ++ examplesText

def versionText : String := "tessera 0.1.0\n"

end CssSieve.CommandLine
