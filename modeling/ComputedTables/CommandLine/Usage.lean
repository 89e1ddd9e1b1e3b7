import ComputedTables.CommandLine.Arguments

/-!
# What the program says about itself
-/

namespace ComputedTables.CommandLine

/-- What the program prints when asked for its version. -/
def versionText : String :=
  "tablemath 0.1.0\n"

/-- What the program says when it cannot understand its arguments. -/
def misuseText : String :=
  "error: the arguments cannot be understood\n\nFor more information, try '--help'."

/-- The help on a topic, line by line. -/
def Topic.lines : Topic → List String
  | .program =>
    ["Computed tables for markdown documents",
     "",
     "Usage: tablemath [OPTIONS] [COMMAND]",
     "",
     "Commands:",
     "  watch   Interactive watcher (default)",
     "  index   Index every document, then print the variable index as JSON",
     "  render  Print a document with its tables computed",
     "  eval    Evaluate one formula against the stored index",
     "  help    Print this message or the help of the given subcommand(s)",
     "",
     "Options:",
     "      --vault <VAULT>          Folder of markdown documents [default: .]",
     "      --precision <PRECISION>  Fraction digits for rendered numbers (0-10)",
     "      --locale <LOCALE>        Locale tag used for number formatting, e.g. de-DE",
     "  -v, --verbose                Log at debug level",
     "  -h, --help                   Print help",
     "  -V, --version                Print version"]
  | .watch =>
    ["Interactive watcher (default)",
     "",
     "Usage: tablemath watch",
     "",
     "Options:",
     "  -h, --help  Print help"]
  | .index =>
    ["Index every document, then print the variable index as JSON",
     "",
     "Usage: tablemath index",
     "",
     "Options:",
     "  -h, --help  Print help"]
  | .render =>
    ["Print a document with its tables computed",
     "",
     "Usage: tablemath render <DOCUMENT>",
     "",
     "Arguments:",
     "  <DOCUMENT>  Document name or path",
     "",
     "Options:",
     "  -h, --help  Print help"]
  | .eval =>
    ["Evaluate one formula against the stored index",
     "",
     "Usage: tablemath eval <FORMULA>",
     "",
     "Arguments:",
     "  <FORMULA>  ",
     "",
     "Options:",
     "  -h, --help  Print help"]
  | .help =>
    ["Print this message or the help of the given subcommand(s)",
     "",
     "Usage: tablemath help [COMMAND]...",
     "",
     "Arguments:",
     "  [COMMAND]...  Print help for the subcommand(s)"]

/-- The help on a topic. -/
def Topic.text (topic : Topic) : String :=
  Text.unlines topic.lines ++ "\n"

end ComputedTables.CommandLine
