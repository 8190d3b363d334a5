import HouseStyle.Text.Basic

/-! The configuration file that a new project starts from. It says what holds without it, so that
every setting has a place to change it. -/

namespace HouseStyle.Config

def templateLines : List Text :=
  ["scan:",
    "  extensions:",
    "  - .swift",
    "  exclude:",
    "  - .git/**",
    "  - .build/**",
    "  - build/**",
    "  - Pods/**",
    "  - Carthage/**",
    "  - DerivedData/**",
    "  max_file_size: 10485760",
    "  max_workers: 4",
    "  rule_workers: 1",
    "severity_threshold: info",
    "terminator: ;",
    "lookahead: 3",
    "rules:",
    "  preset: standard",
    "  statement-termination:",
    "    severity: warning",
    "  comment-markers:",
    "    markers:",
    "    - DEBUG",
    "    - TODO",
    "    - DEPRECATED",
    "    - LOCALIZE",
    "    - STAT",
    "    - FEATURE",
    "  self-prefix:",
    "    enabled: false",
    "  method-grouping:",
    "    enabled: false",
    "output:",
    "  format: text",
    "  verbose: false",
    "  color: true",
    "  show_suppressed: false",
    "remediation:",
    "  auto_fix: false",
    "  dry_run: false",
    "  backup: true"].map Text.ofString

/-- The text of the file. -/
def template : Text := templateLines.flatMap (· ++ [.char '\n'])

end HouseStyle.Config
