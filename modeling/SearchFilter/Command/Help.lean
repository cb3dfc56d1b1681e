import SearchFilter.Command.Arguments

/-! Help texts. The short form gives an option one line, the long form a paragraph. -/

namespace SearchFilter.Command

structure Item where
  label : String
  summary : String
  /-- The lines of the long form if it says more than the short one; none is a line without margin. -/
  paragraph : List (Option String) := []
  deriving Repr, Inhabited

namespace Item

def short (width : Nat) (item : Item) : String :=
  "  " ++ item.label.pushn ' ' (width - item.label.length) ++ "  " ++ item.summary ++ "\n"

def long (item : Item) : String :=
  let lines := if item.paragraph.isEmpty then [some item.summary] else item.paragraph
  "  " ++ item.label ++ "\n" ++ String.join (lines.map line)
where
  line : Option String → String
    | some text => "          " ++ text ++ "\n"
    | none => "\n"

def list (isLong : Bool) (title : String) (items : List Item) : String :=
  let width := (items.map (·.label.length)).foldl max 0
  let body := if isLong then "\n".intercalate (items.map long)
    else String.join (items.map (short width))
  title ++ ":\n" ++ body

end Item

def verboseItem : Item where
  label := "-v, --verbose..."
  summary := "Increase log verbosity (-v info, -vv debug, -vvv trace); QSQL_LOG overrides"

def colorItem : Item where
  label := "    --color <COLOR>"
  summary := "When to use colors [default: auto] [possible values: auto, always, never]"
  paragraph := [some "When to use colors", none, some "Possible values:",
    some "- auto:   Color when stdout is a terminal and `NO_COLOR` is unset",
    some "- always: Always color", some "- never:  Never color", some "", some "[default: auto]"]

def columnItem : Item where
  label := "    --column <COLUMN>"
  summary := "Column every LIKE predicate tests [default: column_name]"

def maxDepthItem : Item where
  label := "    --max-depth <MAX_DEPTH>"
  summary := "Maximum group nesting depth [default: 128]"

def noConfigItem : Item where
  label := "    --no-config"
  summary := "Ignore .qsql.toml files"

def jsonItem : Item where
  label := "    --json"
  summary := "Output \x7b\"sql\": ..., \"params\": [...]\x7d as JSON"

def helpItem (isLong : Bool) : Item where
  label := "-h, --help"
  summary := if isLong then "Print help (see a summary with '-h')"
    else "Print help (see more with '--help')"

def versionItem : Item where
  label := "-V, --version"
  summary := "Print version"

def optionItems (isLong : Bool) : List Item :=
  [verboseItem, colorItem, columnItem, maxDepthItem, noConfigItem, helpItem isLong]

def Topic.about : Topic → String
  | program => "Compile boolean search queries into parameterized SQL filters"
  | command .compile => "Compile a query to a SQL fragment and its parameters"
  | command .explain => "Show every compilation stage for a query"
  | command .config => "Show effective configuration settings"
  | help => "Print this message or the help of the given subcommand(s)"

def commandItems : List Item :=
  [.compile, .explain, .config].map (fun c => ⟨c.name, (Topic.command c).about, []⟩) ++
    [⟨"help", Topic.help.about, []⟩]

def queryItem (verb : String) : Item where
  label := "[QUERY]"
  summary := "Query to " ++ verb ++ "; read from stdin when absent or '-'"

def querySyntax : String :=
  "QUERY SYNTAX:
  word              One LIKE predicate; the word is bound as-is
  \"two words\"       Quoted word, double or single quotes; \\ escapes the next char
  a b               Either word (whitespace alone means OR)
  a or b            Either word
  a and b           Both words; binds tighter than OR
  (a or b) and c    Grouping

  Keywords are lowercase. Quote a word to use 'or' or 'and' literally.

EXAMPLES:
  qsql compile 'rust async'
  qsql compile '(rust or golang) and \"error handling\"'
  echo 'title and draft' | qsql compile --json
  qsql --column docs.title explain 'a b and c'
"

def Topic.usage : Topic → String
  | program => "Usage: qsql [OPTIONS] <COMMAND>\n"
  | command .config => "Usage: qsql config [OPTIONS]\n"
  | command c => "Usage: qsql " ++ c.name ++ " [OPTIONS] [QUERY]\n"
  | help => "Usage: qsql help [COMMAND]...\n"

def Topic.sections (isLong : Bool) : Topic → List String
  | program =>
    [Item.list false "Commands" commandItems,
      Item.list isLong "Options" (optionItems isLong ++ [versionItem])]
  | command .compile =>
    [Item.list isLong "Arguments" [queryItem "compile"],
      Item.list isLong "Options" (jsonItem :: optionItems isLong), querySyntax]
  | command .explain =>
    [Item.list isLong "Arguments" [queryItem "explain"],
      Item.list isLong "Options" (optionItems isLong), querySyntax]
  | command .config => [Item.list isLong "Options" (optionItems isLong)]
  | help =>
    [Item.list false "Arguments" [⟨"[COMMAND]...", "Print help for the subcommand(s)", []⟩]]

def Topic.text (isLong : Bool) (topic : Topic) : String :=
  "\n".intercalate ((topic.about ++ "\n") :: topic.usage :: topic.sections isLong)

def versionText : String := "qsql 0.1.0\n"

end SearchFilter.Command
