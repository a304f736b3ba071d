import BatchFetch.CommandLine.Basic

namespace BatchFetch

def programVersion : String := "0.1.0"

def usage : String :=
  "Usage: haul [OPTIONS] [URL]...

Arguments:
  [URL]...  URLs to process

Options:
  -i, --input-file <FILE>         Read URLs and directives from FILE, standard input for -
  -o, --option <OPT=VALUE>        Set a configuration option, section.key=value
  -d, --destination <PATH>        Directory in which downloads are stored
  -f, --filename <FORMAT>         File name template, /O for the name on the server
      --abort <N>                 Abort a target after N skipped files in a row
      --terminate <N>             Abort a target and those inside it after N skipped files in a row
  -g, --get-urls                  Print URLs instead of downloading, once more for each level
  -c, --config <FILE>             Load a configuration file as well
      --ignore-config             Do not load the default configuration files
      --write-unsupported <FILE>  Append the targets that no handler accepts to FILE
  -l, --log-level <LEVEL>         Show messages up to off, error, warn, info, debug or trace
  -v, --verbose                   Show messages up to debug
  -q, --quiet                     Show errors only
  -h, --help                      Print help
  -V, --version                   Print the version
"

namespace Refusal

/-- What is wrong with a command line, if anything is. -/
def complaint? : Refusal → Option String
  | missingTargets => some "neither a URL nor an input file is given"
  | unknownOption => some "an option is not known"
  | badValue => some "the value of an option is missing or not allowed"
  | unreadableValue => some "the value of an option cannot be read"
  | conflict => some "options exclude each other, or an option is given twice"
  | unwantedValue => some "an option that takes no value is given one"
  | help | version => none

def answer : Refusal → String
  | help => usage
  | version => s!"{programName} {programVersion}\n"
  | _ => ""

end Refusal
end BatchFetch
