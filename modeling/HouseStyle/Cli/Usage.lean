import HouseStyle.Text.Basic

/-! What the command line tells about itself. -/

namespace HouseStyle.Cli.Usage

/-- How the program is invoked. -/
def mainUsage : List Text :=
  ["usage: stylescanner [-h] [--version] \x7bcheck,fix,init,list-rules\x7d ..."].map Text.ofString

/-- What there is to say about the program. -/
def mainDetails : List Text :=
  ["",
    "Rule-based style linter and formatter for Swift-like source code.",
    "",
    "positional arguments:",
    "  \x7bcheck,fix,init,list-rules\x7d",
    "                        Available commands",
    "    check               Check code for style issues",
    "    fix                 Apply automatic fixes",
    "    init                Create a configuration file",
    "    list-rules          List available rules",
    "",
    "options:",
    "  -h, --help            show this help message and exit",
    "  --version             show program's version number and exit",
    "",
    "Examples:",
    "  stylescanner check ./Sources                    # Check a directory",
    "  stylescanner check View.swift                   # Check a single file",
    "  stylescanner check . --format json              # Output as JSON",
    "  stylescanner check . --format sarif -o out      # SARIF output to file",
    "  stylescanner check . --severity warning         # Only warnings and errors",
    "  stylescanner fix ./Sources --dry-run            # Show fixes without applying",
    "  stylescanner init                               # Create config file",
    "        "].map Text.ofString

/-- How checking is invoked. -/
def checkUsage : List Text :=
  ["usage: stylescanner check [-h] [-c CONFIG] [--include INCLUDE]",
    "                          [--exclude EXCLUDE] [--enable RULE] [--disable RULE]",
    "                          [-j JOBS] [-v] [--no-color] [-f \x7btext,json,sarif\x7d]",
    "                          [-o OUTPUT] [-s \x7berror,warning,info\x7d]",
    "                          [--show-suppressed] [--fix]",
    "                          [target]"].map Text.ofString

/-- What there is to say about checking. -/
def checkDetails : List Text :=
  ["",
    "positional arguments:",
    "  target                Target file or directory (default: current directory)",
    "",
    "options:",
    "  -h, --help            show this help message and exit",
    "  -c CONFIG, --config CONFIG",
    "                        Path to configuration file",
    "  --include INCLUDE     Include patterns (can be specified multiple times)",
    "  --exclude EXCLUDE     Exclude patterns (can be specified multiple times)",
    "  --enable RULE         Enable a rule (can be specified multiple times)",
    "  --disable RULE        Disable a rule (can be specified multiple times)",
    "  -j JOBS, --jobs JOBS  Number of parallel file workers (default: 4)",
    "  -v, --verbose         Verbose output and debug logging",
    "  --no-color            Disable colored output",
    "  -f \x7btext,json,sarif\x7d, --format \x7btext,json,sarif\x7d",
    "                        Output format (default: text)",
    "  -o OUTPUT, --output OUTPUT",
    "                        Output file (default: stdout)",
    "  -s \x7berror,warning,info\x7d, --severity \x7berror,warning,info\x7d",
    "                        Minimum severity to report (default: info)",
    "  --show-suppressed     Show suppressed findings",
    "  --fix                 Apply automatic fixes and report what remains"].map Text.ofString

/-- How fixing is invoked. -/
def fixUsage : List Text :=
  ["usage: stylescanner fix [-h] [-c CONFIG] [--include INCLUDE]",
    "                        [--exclude EXCLUDE] [--enable RULE] [--disable RULE]",
    "                        [-j JOBS] [-v] [--no-color] [--dry-run] [--no-backup]",
    "                        [target]"].map Text.ofString

/-- What there is to say about fixing. -/
def fixDetails : List Text :=
  ["",
    "positional arguments:",
    "  target                Target file or directory (default: current directory)",
    "",
    "options:",
    "  -h, --help            show this help message and exit",
    "  -c CONFIG, --config CONFIG",
    "                        Path to configuration file",
    "  --include INCLUDE     Include patterns (can be specified multiple times)",
    "  --exclude EXCLUDE     Exclude patterns (can be specified multiple times)",
    "  --enable RULE         Enable a rule (can be specified multiple times)",
    "  --disable RULE        Disable a rule (can be specified multiple times)",
    "  -j JOBS, --jobs JOBS  Number of parallel file workers (default: 4)",
    "  -v, --verbose         Verbose output and debug logging",
    "  --no-color            Disable colored output",
    "  --dry-run             Show fixes without applying them",
    "  --no-backup           Don't create backup files"].map Text.ofString

/-- How writing a configuration file is invoked. -/
def initUsage : List Text :=
  ["usage: stylescanner init [-h] [-f]"].map Text.ofString

/-- What there is to say about writing a configuration file. -/
def initDetails : List Text :=
  ["",
    "options:",
    "  -h, --help   show this help message and exit",
    "  -f, --force  Overwrite existing config file"].map Text.ofString

/-- How listing the rules is invoked. -/
def listRulesUsage : List Text :=
  ["usage: stylescanner list-rules [-h] [--fixable]"].map Text.ofString

/-- What there is to say about listing the rules. -/
def listRulesDetails : List Text :=
  ["",
    "options:",
    "  -h, --help  show this help message and exit",
    "  --fixable   Only list rules with automatic fixes"].map Text.ofString

/-- Lines, each followed by a line feed. -/
def shown (lines : List Text) : Text := lines.flatMap (· ++ [.char '\n'])

end HouseStyle.Cli.Usage
