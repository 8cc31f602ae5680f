import SpanIndex.Format

/-!
# Help and version texts
-/

namespace SpanIndex.CommandLine

/-- The lines about the options. -/
def optionLines : List String :=
  ["  -s, --src <PATH>           Source file to parse (an empty path is reported as a read failure) [default: \"\"]",
   "  -f, --format <FORMAT>      Output format: csv, tsv, jsonl (overrides config)",
   "  -t, --taxonomy <TAXONOMY>  Kind labels for const/var groups: detailed, legacy (overrides config)",
   "      --no-qualify-methods   Name methods by their own identifier instead of `Receiver.Method`",
   "  -l, --line <N>             Only print the declaration enclosing this 1-based line",
   "  -c, --config <FILE>        Extra TOML config file, layered above the project config",
   "  -q, --quiet                Quiet mode (errors only on stderr)",
   "  -v, --verbose              Verbose mode (debug logging on stderr)",
   "  -h, --help                 Print help",
   "  -V, --version              Print version"]

/-- The help text of a program that is called by a given name. -/
def helpText (program : List Char) : List Char :=
  Format.unlines (["Print a line-span index of the top-level declarations in a Go file".toList, [],
    "Usage: ".toList ++ program ++ " [OPTIONS]".toList, [],
    "Options:".toList] ++ optionLines.map String.toList)

/-- The version text. -/
def versionText : List Char := Format.unlines ["declmap 0.1.0".toList]

end SpanIndex.CommandLine
