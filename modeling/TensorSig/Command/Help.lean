/-!
# Help

The texts that the command prints about itself.
-/

namespace TensorSig.Command

/-- The lines that say how the command is used. -/
def usageLines : List String :=
  ["usage: nativesig [-h] [-e TEXT]",
    "                 [--start " ++
      "\x7bfunction,identifier,type,default_value,param,params,returns\x7d]",
    "                 [--dump]",
    "                 [paths ...]"]

/-- The lines that explain the arguments. -/
def helpLines : List String :=
  usageLines ++
    ["",
      "Parse native function signatures (one per line) and report failures",
      "",
      "positional arguments:",
      "  paths                 signature listings, one declaration per line ('-' or",
      "                        nothing reads stdin)",
      "",
      "options:",
      "  -h, --help            show this help message and exit",
      "  -e TEXT, --expr TEXT  parse TEXT instead of reading files (repeatable)",
      "  --start \x7bfunction,identifier,type,default_value,param,params,returns\x7d",
      "                        grammar component to run (default: function)",
      "  --dump                print the parsed AST for every successful line"]

/-- Lines as one text, each with a line feed at its end. -/
def linesText (lines : List String) : String := String.join (lines.map fun line => line ++ "\n")

end TensorSig.Command
