/-!
# Texts of the command line
-/

namespace AccessRules.Command

/-- The version of the program. -/
def version : String := "0.1.0"

/-- What the program can do. -/
def help : String := "ARA-M rules - Encode, decode and verify ARA-M access rule scripts

Usage: ara-m [options] <command> [arguments]

Commands:
  encode <script>      Replay a restore script, print canonical rule data (hex)
  decode <hex>         Print the restore script for canonical rule data
  verify <script>      Check that the script survives export and re-import
  dump <hex>           Show ARA-M data objects as a tree

Options:
  -h, --help           Show this help message
  -v, --version        Show version number
  -f, --format <type>  Output format: text, json (default: text)
  --verbose            Show detailed output
  -t, --target <label> Target label for generated scripts (default: ADF.ARA-M)

Examples:
  ara-m encode rules.script          Print the rules as canonical hex
  ara-m decode e2...                 Turn canonical hex back into a script
  ara-m verify rules.script          Round-trip a script through a fresh store
  ara-m dump ff4000                  Inspect a GET DATA [All] response
"

end AccessRules.Command
