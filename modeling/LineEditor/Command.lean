import LineEditor.Config.Load
import LineEditor.Session

/-!
# The command

The command types its input into an editor, one key for each character, and prints the window. Its
arguments name a configuration file and switch the colours off; how they are written is left to
whoever understands them. No host measures the lines here, so an observer reports the estimated
height behind every key.
-/

namespace LineEditor.Command

/-! ## Keys -/

/-- the key that types a character of the input -/
def keyOf? (c : Char) : Option KeyPress :=
  if c = '\n' then some (.bare .enter)
  else if c = '\t' then some (.bare .tab)
  else if c = '\x08' ∨ c = '\x7f' then some (.bare .backspace)
  else if c = '\r' then none
  else some (.bare (.char c))

/-- the session after a key and the report of the height behind it -/
def typeKey (o : Observer) (s : Session) (p : KeyPress) : Session :=
  let t := (s.handle (.key p)).2
  match t.window with
  | none => t
  | some w => (t.report o w.estimate).2.processPending.2

/-- the window after all characters of the input are typed -/
def typeAll (w : Window) (input : Text) : Option Window :=
  match (Session.start w).attach? with
  | none => none
  | some (o, s) => ((input.filterMap keyOf?).foldl (typeKey o) s).window

/-! ## Running -/

/-- how a run ends -/
structure Outcome where
  exitCode : Nat
  output : Text
  /-- the first line of the report of an error -/
  report : Option Text
deriving DecidableEq

/-- what the arguments of a run say -/
structure Options where
  /-- the path of the configuration file -/
  config : Option Text
  /-- whether to print without colours -/
  plain : Bool
deriving DecidableEq

/-- a way to understand arguments, with the environment at hand: what they say, or how the run ends
at once -/
abbrev ArgumentParser := (String → Option Text) → List Text → Except Outcome Options

/-- a run that ends with an error, of which only the first line is kept -/
def failed (what : Text) : Outcome :=
  ⟨1, [], some (("Error: ".toList ++ what).takeWhile (· ≠ '\n'))⟩

section
variable (L : Json.Library) (read : Text → Except ReadFailure Text)
  (environment : String → Option Text)

/-- the configuration in the file, if one is named -/
def baseConfig : Option Text → Except Text Config
  | none => .ok .default
  | some path =>
    match Config.load L read path with
    | .ok c => .ok c
    | .error _ => .error ("loading ".toList ++ path)

/-- the configuration of a run, with what the environment gives -/
def configure (path : Option Text) : Except Text Config :=
  match baseConfig L read path with
  | .error e => .error e
  | .ok c =>
    match c.override environment with
    | .ok d => .ok d
    | .error f => .error f.message

/-- the page after the input is typed into an editor -/
def page (c : Config) (plain : Bool) (input : Text) : Text :=
  match typeAll (.ofConfig c) input with
  | some w => w.snapshot.render (if plain then none else some .dark)
  | none => []

/-- a run, by its files, its environment, its arguments and the bytes of its input -/
def run (understand : ArgumentParser) (args : List Text) (input : ByteArray) : Outcome :=
  match understand environment args with
  | .error outcome => outcome
  | .ok o =>
    match configure L read environment o.config with
    | .error e => failed e
    | .ok c =>
      match decode? input with
      | none => failed "reading stdin".toList
      | some s => ⟨0, page c o.plain s, none⟩

end

end LineEditor.Command
