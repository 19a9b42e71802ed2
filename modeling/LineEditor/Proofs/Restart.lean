import LineEditor.Proofs.Partition

/-!
# The cut knows no context

Where a line is cut depends on the characters behind the cut alone: neither on the vocabulary nor on
what stands before.  A scan that starts at a border between two tokens, with whatever vocabulary,
finds the tokens that are left, in their places and up to the roles of words.

* `map_outline_placed`   the outlines of tokens are those of the lexemes;
* `lexemes_drop`         the cut of what is left of a line is what is left of its cut;
* `next_at_border`       the token at a border is the first lexeme of what is left;
* `scan_restarts`        the scan of the rest of a line.
-/

namespace LineEditor.Token
open Text

/-! ## Outlines -/

/-- what a token shows apart from the role of a word: its shape, its text and its place -/
structure Outline where
  shape : Shape
  text : Text
  start : Nat
  stop : Nat
deriving DecidableEq

/-- the outline of a token -/
def Placed.outline (p : Placed) : Outline := ⟨p.token.kind.shape, p.token.text, p.start, p.stop⟩

/-- the outline `n` bytes further behind -/
def Outline.shift (n : Nat) (o : Outline) : Outline :=
  { o with start := n + o.start, stop := n + o.stop }

/-- the outlines of lexemes that follow each other from `start` on -/
def outlines (start : Nat) : List Lexeme → List Outline
  | [] => []
  | l :: ls => ⟨l.shape, l.text, start, start + l.text.utf8Size⟩ ::
      outlines (start + l.text.utf8Size) ls

/-- the index behind the last of some tokens that follow each other from `start` on -/
def border (start : Nat) (ps : List Placed) : Nat := (ps.getLast?.map Placed.stop).getD start

section
variable (v : Vocabulary) (ctx : Context) (start n k : Nat) (ls : List Lexeme)

theorem outlines_cons (l : Lexeme) :
    outlines start (l :: ls) = ⟨l.shape, l.text, start, start + l.text.utf8Size⟩ ::
      outlines (start + l.text.utf8Size) ls := rfl

/-- no vocabulary and no context shows in an outline -/
theorem map_outline_placed :
    (placed start (ofLexemes v ctx ls)).map Placed.outline = outlines start ls := by
  induction ls generalizing ctx start with
  | nil => rfl
  | cons l ls ih =>
    have hl : Placed.outline ⟨⟨kindOf v ctx l, l.text⟩, start, start + l.text.utf8Size⟩
        = ⟨l.shape, l.text, start, start + l.text.utf8Size⟩ := by
      unfold Placed.outline
      rw [shape_kindOf]
    rw [ofLexemes_cons, placed_cons, List.map_cons, hl, ih, outlines_cons]

theorem map_shift_outlines :
    (outlines start ls).map (Outline.shift n) = outlines (n + start) ls := by
  induction ls generalizing start with
  | nil => rfl
  | cons l ls ih =>
    rw [outlines_cons, List.map_cons, ih, outlines_cons, Nat.add_assoc]
    rfl

theorem drop_outlines :
    (outlines start ls).drop k
      = outlines (start + utf8Size ((ls.take k).flatMap Lexeme.text)) (ls.drop k) := by
  induction ls generalizing start k with
  | nil => simp [outlines]
  | cons l ls ih =>
    cases k with
    | zero => rfl
    | succ k =>
      rw [outlines_cons, List.drop_succ_cons, List.take_succ_cons, List.drop_succ_cons, ih,
        List.flatMap_cons, utf8Size_append, Nat.add_assoc]

theorem border_cons (p : Placed) (ps : List Placed) : border start (p :: ps) = border p.stop ps := by
  unfold border
  rw [List.getLast?_cons]
  cases ps.getLast? with
  | none => rfl
  | some q => rfl

/-- the border behind the first tokens lies behind their texts -/
theorem border_take_placed :
    border start ((placed start (ofLexemes v ctx ls)).take k)
      = start + utf8Size ((ls.take k).flatMap Lexeme.text) := by
  induction ls generalizing ctx start k with
  | nil => cases k <;> rfl
  | cons l ls ih =>
    cases k with
    | zero => rfl
    | succ k =>
      rw [ofLexemes_cons, placed_cons, List.take_succ_cons, border_cons, ih, List.take_succ_cons,
        List.flatMap_cons, utf8Size_append, Nat.add_assoc]

end

/-! ## The rest of a cut -/

/-- what is left of a cut is the cut of what is left -/
theorem lexemes_drop (s : Text) (k : Nat) :
    lexemes (((lexemes s).drop k).flatMap Lexeme.text) = (lexemes s).drop k := by
  fun_induction lexemes s generalizing k with
  | case1 =>
    rw [List.drop_nil]
    exact lexemes_nil
  | case2 c s m ih =>
    cases k with
    | zero =>
      have h := flatMap_text_lexemes (c :: s)
      rw [lexemes_cons] at h
      rw [List.drop_zero, h, lexemes_cons]
    | succ k =>
      rw [List.drop_succ_cons]
      exact ih k

/-- the first tokens of a line end where the rest of its lexemes starts -/
theorem restAt_border (v : Vocabulary) (line : Text) (k : Nat) :
    RestAt line (border 0 ((placed 0 (tokens v line)).take k))
      (((lexemes line).drop k).flatMap Lexeme.text) := by
  have hborder := border_take_placed v .start 0 k (lexemes line)
  rw [Nat.zero_add] at hborder
  refine ⟨((lexemes line).take k).flatMap Lexeme.text, ?_, hborder.symm⟩
  rw [← List.flatMap_append, List.take_append_drop, flatMap_text_lexemes]

/-! ## The token at a border -/

/-- the token that a scan finds at a place, with `s` behind it: the first lexeme of `s`, if any -/
inductive Next (start : Nat) : Text → Option Placed → Prop
  | nothing : Next start [] none
  | token {c : Char} {s : Text} {p : Placed} (hstart : p.start = start)
      (htext : p.token.text = (c :: s).take (munch c s).2)
      (hshape : p.token.kind.shape = (munch c s).1) : Next start (c :: s) (some p)

theorem Next.start_eq {start : Nat} {s : Text} {p : Placed} (h : Next start s (some p)) :
    p.start = start := by
  cases h with
  | token hstart htext hshape => exact hstart

theorem getElem?_placed_ofLexemes (v : Vocabulary) (ctx : Context) (start k : Nat)
    (ls : List Lexeme) :
    ∃ ctx' : Context, (placed start (ofLexemes v ctx ls))[k]? =
      ls[k]?.map fun l =>
        let i := border start ((placed start (ofLexemes v ctx ls)).take k)
        ⟨⟨kindOf v ctx' l, l.text⟩, i, i + l.text.utf8Size⟩ := by
  induction ls generalizing ctx start k with
  | nil => exact ⟨ctx, rfl⟩
  | cons l ls ih =>
    rw [ofLexemes_cons, placed_cons]
    cases k with
    | zero => exact ⟨ctx, rfl⟩
    | succ k =>
      obtain ⟨ctx', h⟩ := ih (ctx.next v l) (start + l.text.utf8Size) k
      refine ⟨ctx', ?_⟩
      rw [List.getElem?_cons_succ, List.getElem?_cons_succ, List.take_succ_cons, border_cons]
      exact h

/-- what a scan finds at its borders -/
theorem next_at_border (v : Vocabulary) (line : Text) (k : Nat) :
    ∃ rest : Text, line.dropBytes (border 0 ((placed 0 (tokens v line)).take k)) = some rest ∧
      Next (border 0 ((placed 0 (tokens v line)).take k)) rest (placed 0 (tokens v line))[k]? := by
  refine ⟨_, (restAt_border v line k).dropBytes, ?_⟩
  obtain ⟨ctx, htoken⟩ := getElem?_placed_ofLexemes v .start 0 k (lexemes line)
  have hcut := lexemes_drop line k
  rw [tokens, htoken]
  generalize hrest : ((lexemes line).drop k).flatMap Lexeme.text = rest at hcut ⊢
  have hhead : (lexemes rest)[0]? = (lexemes line)[k]? := by
    rw [hcut, List.getElem?_drop, Nat.add_zero]
  rw [← hhead]
  cases rest with
  | nil =>
    rw [lexemes_nil]
    exact .nothing
  | cons c s =>
    rw [lexemes_cons]
    exact .token rfl rfl (shape_kindOf v ctx _)

/-- `f` tells which lexemes have the shape `shape`, and how long they are -/
structure Decides (shape : Shape) (f : Text → Nat) : Prop where
  nil : f [] = 0
  munch_eq {c : Char} {s : Text} (h : 0 < f (c :: s)) : munch c s = (shape, f (c :: s))
  pos {c : Char} {s : Text} (h : (munch c s).1 = shape) : 0 < f (c :: s)

namespace Decides
variable {shape : Shape} {f : Text → Nat} {start : Nat} {s : Text} {p : Placed}

theorem shape_eq_iff (hf : Decides shape f) (h : Next start s (some p)) :
    p.token.kind.shape = shape ↔ 0 < f s := by
  cases h with
  | token hstart htext hshape =>
    rw [hshape]
    exact ⟨hf.pos, fun hpos => congrArg Prod.fst (hf.munch_eq hpos)⟩

theorem text_eq (hf : Decides shape f) (h : Next start s (some p)) (hpos : 0 < f s) :
    p.token.text = s.take (f s) := by
  cases h with
  | token hstart htext hshape => rw [htext, hf.munch_eq hpos]

/-- a token of the shape stands at a place if and only if `f` finds something there -/
theorem exists_iff (hf : Decides shape f) {o : Option Placed} (h : Next start s o) :
    (∃ p, o = some p ∧ p.token.kind.shape = shape) ↔ 0 < f s := by
  cases h with
  | nothing =>
    rw [hf.nil]
    exact ⟨fun ⟨_, hp, _⟩ => (nomatch hp), fun h => absurd h (Nat.lt_irrefl 0)⟩
  | @token c s p hstart htext hshape =>
    have hiff := hf.shape_eq_iff (.token hstart htext hshape)
    rw [← hiff]
    exact ⟨fun ⟨q, hq, hs⟩ => Option.some.inj hq ▸ hs, fun hs => ⟨p, rfl, hs⟩⟩

end Decides

/-! ## The scan of what is left -/

/-- **The cut knows no context.**  At every border between two tokens, and at both ends of the line,
a scan of the rest of the line finds the tokens that are left, with any vocabulary: the same shapes
and the same texts in the same places. -/
theorem scan_restarts (v w : Vocabulary) (line : Text) :
    ∃ ps : List Placed, scan v line = .ok ps ∧ ∀ k : Nat, ∃ (rest : Text) (qs : List Placed),
      line.dropBytes (border 0 (ps.take k)) = some rest ∧ scan w rest = .ok qs ∧
        (ps.drop k).map Placed.outline
          = qs.map fun q => q.outline.shift (border 0 (ps.take k)) := by
  refine ⟨placed 0 (tokens v line), scan_eq v line, fun k => ?_⟩
  let before := (lexemes line).take k
  let after := (lexemes line).drop k
  have hborder : border 0 ((placed 0 (tokens v line)).take k)
      = utf8Size (before.flatMap Lexeme.text) :=
    (border_take_placed v .start 0 k (lexemes line)).trans (Nat.zero_add _)
  have hline : line = before.flatMap Lexeme.text ++ after.flatMap Lexeme.text := by
    rw [← List.flatMap_append, List.take_append_drop, flatMap_text_lexemes]
  have hrest : RestAt line (utf8Size (before.flatMap Lexeme.text)) (after.flatMap Lexeme.text) :=
    ⟨_, hline, rfl⟩
  have hafter : lexemes (after.flatMap Lexeme.text) = after := lexemes_drop line k
  rw [hborder]
  refine ⟨_, _, hrest.dropBytes, scan_eq w _, ?_⟩
  calc ((placed 0 (tokens v line)).drop k).map Placed.outline
      = (outlines 0 (lexemes line)).drop k := by rw [List.map_drop, tokens, map_outline_placed]
    _ = outlines (utf8Size (before.flatMap Lexeme.text)) after := by
        rw [drop_outlines, Nat.zero_add]
    _ = (outlines 0 after).map (Outline.shift (utf8Size (before.flatMap Lexeme.text))) := by
        rw [map_shift_outlines, Nat.add_zero]
    _ = _ := by
        rw [tokens, hafter, ← map_outline_placed w .start, List.map_map]
        rfl

end LineEditor.Token
