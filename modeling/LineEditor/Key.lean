import LineEditor.Text.Numeral

/-!
# Keys

A host reports a key by a name and the modifiers that are held. A name of one character is that
character; the names of the other keys are listed here, with the spellings that hosts use.
-/

namespace LineEditor

/-- a key -/
inductive Key
  /-- a key that stands for a character, with shift taken into account -/
  | char (c : Char)
  | backspace
  | delete
  | enter
  | tab
  | escape
  | left
  | right
  | up
  | down
  | home
  | endKey
  | pageUp
  | pageDown
  | insert
  /-- one of the function keys, 1 to 24 -/
  | function (n : Nat)
  /-- a modifier key pressed on its own -/
  | modifier
deriving DecidableEq

namespace Key

/-- the keys that have names, under each of their names -/
def named : List (String × Key) :=
  [("Backspace", backspace),
    ("Delete", delete), ("Del", delete),
    ("Enter", enter), ("Return", enter),
    ("Tab", tab),
    ("Escape", escape), ("Esc", escape),
    ("ArrowLeft", left), ("Left", left),
    ("ArrowRight", right), ("Right", right),
    ("ArrowUp", up), ("Up", up),
    ("ArrowDown", down), ("Down", down),
    ("Home", home), ("End", endKey),
    ("PageUp", pageUp), ("PageDown", pageDown),
    ("Insert", insert),
    ("Shift", modifier), ("Control", modifier), ("Alt", modifier), ("Meta", modifier),
    ("CapsLock", modifier), ("AltGraph", modifier),
    ("Spacebar", char ' ')]

/-- the function key called `F` and a number -/
def functionKey? : Text → Option Key
  | 'F' :: ds => ((readNumeral? 24 ds).filter (1 ≤ ·)).map function
  | _ => none

/-- the key that a host calls `w` -/
def ofName? (w : Text) : Option Key :=
  match w with
  | [c] => some (char c)
  | _ =>
    match named.find? fun e => e.1.toList = w with
    | some e => some e.2
    | none => functionKey? w

end Key

/-- the modifiers held while a key is pressed -/
structure Modifiers where
  shift : Bool
  ctrl : Bool
  alt : Bool
  /-- the command or system key -/
  system : Bool
deriving DecidableEq

namespace Modifiers

/-- no modifier -/
def none : Modifiers := ⟨false, false, false, false⟩

/-- whether no modifier is held -/
def isNone (m : Modifiers) : Bool := m = .none

/-- whether a modifier is held that turns a character into a command -/
def isCommand (m : Modifiers) : Bool := m.ctrl || m.alt || m.system

end Modifiers

/-- a key pressed under some modifiers -/
structure KeyPress where
  key : Key
  modifiers : Modifiers
deriving DecidableEq

namespace KeyPress

/-- a key pressed without modifiers -/
def bare (key : Key) : KeyPress := ⟨key, .none⟩

/-- the press of the key that a host calls `w` -/
def ofName? (w : Text) (modifiers : Modifiers) : Option KeyPress :=
  (Key.ofName? w).map fun key => ⟨key, modifiers⟩

/-- the character that a press types: one that is no control character, without a command
modifier -/
def typed? (p : KeyPress) : Option Char :=
  match p.key with
  | .char c => if isControl c || p.modifiers.isCommand then none else some c
  | _ => none

/-- whether a press types a character -/
def isPrintable (p : KeyPress) : Bool := p.typed?.isSome

end KeyPress

end LineEditor
