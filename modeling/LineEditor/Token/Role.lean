import LineEditor.Tag
import LineEditor.Token.Lexeme
import LineEditor.Vocabulary

/-!
# Roles of words

A word in a line gets its role from the vocabulary and from what stands before it: the last word
may have announced a name, and the last character that is not blank may be a dot. Blanks and
comments leave this context alone; any other lexeme that is not a word ends an announcement.
-/

namespace LineEditor

/-- what a word is -/
inductive Role
  /-- a name behind a word that announces a type -/
  | declaredType
  /-- a name behind a word that announces something to call -/
  | callable
  | selfRef
  | keyword
  | builtin
  /-- a name between double underscores -/
  | dunder
  /-- a name behind a dot -/
  | member
  /-- a name that starts with a capital letter -/
  | typeLike
  | plain
deriving DecidableEq

/-- the tag of a role -/
def Role.tag : Role → Tag
  | declaredType => .typeName
  | callable => .functionName
  | selfRef => .selfRef
  | keyword => .keyword
  | builtin => .builtin
  | dunder => .dunder
  | member => .member
  | typeLike => .typeName
  | plain => .default

namespace Token

/-- whether a word has double underscores at both ends and something between them -/
def isDunder (w : Text) : Bool :=
  5 ≤ w.length && ['_', '_'].isPrefixOf w && ['_', '_'].isSuffixOf w

/-! ## Context -/

/-- what the lexemes before a word tell about it -/
structure Context where
  /-- the kind of name that the last word has announced -/
  announced : Option Announced
  /-- the last character that is not blank -/
  last : Option Char
deriving DecidableEq

/-- the context at the start of a line -/
def Context.start : Context := ⟨none, none⟩

/-- the role of the word `w` -/
def Context.role (v : Vocabulary) (ctx : Context) (w : Text) : Role :=
  match ctx.announced with
  | some .type => .declaredType
  | some .callable => .callable
  | none =>
    if w = v.selfToken then .selfRef
    else if v.keywords.contains w then .keyword
    else if v.builtins.contains w then .builtin
    else if isDunder w then .dunder
    else if ctx.last = some '.' then .member
    else if w.head?.any Char.isUpper then .typeLike
    else .plain

/-- the context behind a lexeme: only a keyword announces a name -/
def Context.next (v : Vocabulary) (ctx : Context) (l : Lexeme) : Context :=
  match l.shape with
  | .blank | .comment => ctx
  | .word => ⟨if ctx.role v l.text = .keyword then v.announces l.text else none, l.text.getLast?⟩
  | _ => ⟨none, l.text.getLast?⟩

end Token

end LineEditor
