import StableFormat.CommandLine.Options

/-!
# What the command line tells about itself
-/

namespace StableFormat.CommandLine

/-- The name of the program. -/
def programName : String := "padcell"

/-- The version of the program. -/
def programVersion : String := "0.1.0"

/-- The answer to a request for help. -/
def helpText : String :=
  "Enforce formatting step chains, tolerating and diagnosing non-idempotent steps\n\n" ++
  "Usage: " ++ programName ++ " [OPTIONS] <MODE> [PATH]...\n\n" ++
  "Arguments:\n" ++
  "  <MODE>     check: report violations; apply: fix them in place\n" ++
  "  [PATH]...  Files or directories to process (default: the root)\n\n" ++
  "Options:\n" ++
  "  -c, --config <FILE>            Use this config file instead of discovering padcell.toml\n" ++
  "      --root <DIR>               Project root (default: current directory)\n" ++
  "      --format <NAME>            Only run the named format (can be repeated)\n" ++
  "      --padded-cell              Tolerate misbehaving steps and dump their intermediate results\n" ++
  "      --max-iterations <NUM>     Applications of a format before it is considered divergent\n" ++
  "      --max-message-lines <NUM>  Diff lines shown across all files\n" ++
  "      --max-files-to-list <NUM>  Files shown with a diff before falling back to names\n" ++
  "      --diagnose-dir <DIR>       Where padded-cell mode writes intermediate results\n" ++
  "  -e, --exclude <PATTERN>        Exclude files/directories matching pattern (can be repeated)\n" ++
  "  -j, --jobs <NUM>               Number of parallel jobs (0=auto, 1=sequential)\n" ++
  "  -D, --debug                    Enable debug output\n" ++
  "  -v, --verbose                  Enable informational output\n" ++
  "  -S, --silent                   Silent mode (no report, exit code only)\n" ++
  "  -h, --help                     Print help\n" ++
  "  -V, --version                  Print version\n"

/-- What is wrong with a command line. -/
def UsageError.message (e : UsageError) : String :=
  let reason :=
    match e with
    | missingMode => "the following required arguments were not provided: <MODE>"
    | invalidValue => "invalid or missing value for an argument"
    | notANumber => "invalid number for an option"
    | unknownOption => "unexpected argument found"
    | repeatedOption => "an option cannot be used multiple times"
    | unexpectedValue => "unexpected value for a flag"
    | helpRequested => "help requested"
    | versionRequested => "version requested"
  "error: " ++ reason ++ "\n\nFor more information, try '--help'.\n"

end StableFormat.CommandLine
