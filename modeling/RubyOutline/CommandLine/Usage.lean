namespace RubyOutline.Usage

/-- The name under which the command runs. -/
def command : String := "featmap"

def usage : List String :=
  ["usage: featmap [-h] [-da] [-cp] [-o \x7bshort,json\x7d] [-O DIR] [--public-only]",
    "               [--strict]",
    "               input_path"]

def help : List String :=
  usage ++
    ["",
      "Extract class and method feature trees from Ruby code",
      "",
      "positional arguments:",
      "  input_path            Input Ruby source file or directory",
      "",
      "options:",
      "  -h, --help            show this help message and exit",
      "  -da, --dump-ast       Dump tree-sitter AST and syntax tree",
      "  -cp, --check-parser   Check parser: validate all files parse correctly",
      "  -o \x7bshort,json\x7d, --output \x7bshort,json\x7d",
      "                        Output format",
      "  -O DIR, --output-dir DIR",
      "                        Save results to a file in DIR",
      "  --public-only         Omit protected and private methods",
      "  --strict              Exit with status 1 if any declaration could not be",
      "                        extracted"]

end RubyOutline.Usage
