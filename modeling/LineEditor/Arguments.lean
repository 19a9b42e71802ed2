import LineEditor.Command

/-!
# Arguments

The arguments of the command: a configuration file in one of several forms, no colours, and the
options that print a text and end the run. A variable of the environment names a configuration file
where no argument does.
-/

namespace LineEditor.Command

/-- what is asked for -/
inductive Request
  | run (options : Options)
  | version
  | help
  /-- the arguments make no sense -/
  | misuse
deriving DecidableEq

/-! ## Options -/

/-- the options with a configuration file, unless the path is empty or one is named already; the
rest of the arguments goes on from there -/
def withConfig (o : Options) (path : Text) (next : Options → Request) : Request :=
  if path = [] ∨ o.config.isSome then .misuse else next { o with config := some path }

/-- a value that stands in one argument with its short option, with or without an equals sign -/
def attachedValue : Text → Text
  | '=' :: s => s
  | s => s

/-- whether an argument can be the value of an option -/
def isValue (a : Text) : Bool := a.head? != some '-' || a = ['-']

/-- what arguments ask for, given the options that stand before them -/
def parse (o : Options) : List Text → Request
  | [] => .run o
  | a :: as =>
    if a = "--plain".toList then if o.plain then .misuse else parse { o with plain := true } as
    else if a = "--version".toList then .version
    else if a = "--help".toList then .help
    else if a = "--".toList then if as.isEmpty then .run o else .misuse
    else if a = "--config".toList ∨ a = "-c".toList then
      match as with
      | v :: bs => if isValue v then withConfig o v fun p => parse p bs else .misuse
      | [] => .misuse
    else if "--config=".toList.isPrefixOf a then withConfig o (a.drop 9) fun p => parse p as
    else
      match a with
      | '-' :: 'c' :: v => withConfig o (attachedValue v) fun p => parse p as
      | '-' :: 'V' :: _ => .version
      | '-' :: 'h' :: _ => .help
      | _ => .misuse

/-- the variable that names a configuration file where no argument does -/
def configVariable : String := "CODE_WINDOW_CONFIG"

/-- what the arguments and the environment ask for -/
def request (environment : String → Option Text) (args : List Text) : Request :=
  match parse ⟨none, false⟩ args with
  | .run ⟨none, plain⟩ =>
    match environment configVariable with
    | some path => if path = [] then .misuse else .run ⟨some path, plain⟩
    | none => .run ⟨none, plain⟩
  | r => r

/-! ## What is printed at once -/

/-- the text that `--version` prints -/
def versionText : Text := "code-window 0.1.0\n".toList

/-- the text that `--help` prints -/
def helpText (environment : String → Option Text) : Text :=
  "Type stdin into a simulated Python editor and print it highlighted\n\n".toList ++
    "Usage: code-window [OPTIONS]\n\nOptions:\n".toList ++
    "  -c, --config <CONFIG>  JSON configuration file [env: CODE_WINDOW_CONFIG=".toList ++
    (environment configVariable).getD [] ++ "]\n".toList ++
    "      --plain            Print without ANSI colors\n".toList ++
    "  -h, --help             Print help\n".toList ++
    "  -V, --version          Print version\n".toList

/-- the arguments of the command -/
def arguments : ArgumentParser := fun environment args =>
  match request environment args with
  | .run o => .ok o
  | .version => .error ⟨0, versionText, none⟩
  | .help => .error ⟨0, helpText environment, none⟩
  | .misuse => .error ⟨2, [], none⟩

end LineEditor.Command
