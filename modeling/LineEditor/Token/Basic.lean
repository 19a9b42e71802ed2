import LineEditor.Token.Role

/-!
# Tokens

A token is a lexeme whose shape is known in full: for a word, with its role. The tokens of a line
are its lexemes in order, each word judged in the context of the lexemes before it.
-/

namespace LineEditor

/-- the shape of a token, with the role of a word -/
inductive Kind
  | blank
  | comment
  | string
  | number
  | word (role : Role)
  | decorator
  | operator
  | punctuation
deriving DecidableEq

namespace Kind

/-- the tag under which a token is shown -/
def tag : Kind → Tag
  | blank => .default
  | comment => .comment
  | string => .string
  | number => .number
  | word role => role.tag
  | decorator => .decorator
  | operator => .default
  | punctuation => .default

/-- blanks, operators and punctuation: what stands between the parts that carry meaning -/
def isGap : Kind → Bool
  | blank | operator | punctuation => true
  | _ => false

/-- the kind without the role -/
def shape : Kind → Shape
  | blank => .blank
  | comment => .comment
  | string => .string
  | number => .number
  | word _ => .word
  | decorator => .decorator
  | operator => .operator
  | punctuation => .punctuation

end Kind

/-- a piece of a line and its kind -/
structure Token where
  kind : Kind
  text : Text
deriving DecidableEq

namespace Token

/-! ## From lexemes to tokens -/

/-- the kind of a lexeme in its context -/
def kindOf (v : Vocabulary) (ctx : Context) (l : Lexeme) : Kind :=
  match l.shape with
  | .blank => .blank
  | .comment => .comment
  | .string => .string
  | .number => .number
  | .word => .word (ctx.role v l.text)
  | .decorator => .decorator
  | .operator => .operator
  | .punctuation => .punctuation

/-- the tokens of a row of lexemes, from a context on -/
def ofLexemes (v : Vocabulary) : Context → List Lexeme → List Token
  | _, [] => []
  | ctx, l :: ls => ⟨kindOf v ctx l, l.text⟩ :: ofLexemes v (ctx.next v l) ls

theorem shape_kindOf (v : Vocabulary) (ctx : Context) (l : Lexeme) :
    (kindOf v ctx l).shape = l.shape := by
  unfold kindOf
  cases h : l.shape <;> rfl

theorem ofLexemes_nil (v : Vocabulary) (ctx : Context) : ofLexemes v ctx [] = [] := rfl

theorem ofLexemes_cons (v : Vocabulary) (ctx : Context) (l : Lexeme) (ls : List Lexeme) :
    ofLexemes v ctx (l :: ls) =
      ⟨kindOf v ctx l, l.text⟩ :: ofLexemes v (ctx.next v l) ls := rfl

/-- the tokens of a line -/
def tokens (v : Vocabulary) (line : Text) : List Token := ofLexemes v .start (lexemes line)

theorem flatMap_text_ofLexemes (v : Vocabulary) (ctx : Context) (ls : List Lexeme) :
    (ofLexemes v ctx ls).flatMap Token.text = ls.flatMap Lexeme.text := by
  induction ls generalizing ctx with
  | nil => rfl
  | cons l ls ih => rw [ofLexemes_cons, List.flatMap_cons, List.flatMap_cons, ih]

/-- the tokens of a line, one behind the other, are the line -/
theorem flatMap_text_tokens (v : Vocabulary) (line : Text) :
    (tokens v line).flatMap Token.text = line :=
  (flatMap_text_ofLexemes v .start (lexemes line)).trans (flatMap_text_lexemes line)

/-! ## Places in the line -/

/-- the places of tokens that follow each other from `start` on: where each starts and where it
ends, in bytes -/
def spans (start : Nat) : List Token → List (Nat × Nat)
  | [] => []
  | t :: ts => (start, start + t.text.utf8Size) :: spans (start + t.text.utf8Size) ts

end Token

end LineEditor
