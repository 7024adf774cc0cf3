import LiveLayout.Text.Quoted
/-!
The help of the command line: what the command does, how it is called, and what each of its arguments is
for, with one line for each argument.
-/
namespace LiveLayout.Command

/-- How an argument is written, and what it is for. -/
structure Entry where
  form : String
  purpose : String

namespace Help

def about : String := "Render a brickie layout and print the resulting tree"

def arguments : List Entry := [⟨"<LAYOUT>", "Layout file (a JSON brick or array of bricks)"⟩]

def options : List Entry := [
  ⟨"    --scope <SCOPE>", "JSON object with the initial variables"⟩,
  ⟨"    --config <CONFIG>", "JSON file with renderer settings (key_prefix, class_attribute, ...)"⟩,
  ⟨"    --set <NAME=VALUE>", "Set a variable after mounting; VALUE is JSON, or a plain string"⟩,
  ⟨"    --dispatch <KEY:PROP[=ARGS]>",
    "Call a handler prop on a rendered element; ARGS is a JSON array"⟩,
  ⟨"    --json", "Print the tree as JSON instead of an outline"⟩,
  ⟨"    --debug", "Per-node render tracing"⟩,
  ⟨"    --timeout-ms <TIMEOUT_MS>",
    "How long to wait for fetch bricks, in milliseconds [default: 10000]"⟩,
  ⟨"-h, --help", "Print help"⟩,
  ⟨"-V, --version", "Print version"⟩]

def spaces (n : Nat) : String := String.ofList (List.replicate n ' ')

/-- The line of an entry, where all purposes start two blanks after the longest form. -/
def entryLine (longest : Nat) (e : Entry) : String :=
  "  " ++ e.form ++ spaces (longest + 2 - e.form.length) ++ e.purpose

def entryLines (es : List Entry) : List String :=
  es.map (entryLine ((es.map (·.form.length)).foldl max 0))

/-- How the program of the given name is called. -/
def usage (program : String) : String := "Usage: " ++ program ++ " [OPTIONS] <LAYOUT>"

def text (program : String) : String :=
  "\n".intercalate ([about, "", usage program, "", "Arguments:"] ++ entryLines arguments ++
    ["", "Options:"] ++ entryLines options) ++ "\n"

def version (program : String) : String := program ++ " 0.1.0\n"

end Help
end LiveLayout.Command
