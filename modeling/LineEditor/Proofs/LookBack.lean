import LineEditor.Proofs.Lookahead
import Mathlib.Data.List.Basic
import Mathlib.Data.List.Induction

/-!
# The role of a word by looking back

The context that is handed from lexeme to lexeme holds nothing but what can be read off the tokens
before a word: `roleBehind` looks for the nearest one that is no blank and at the text in front of
the word, and keeps no state.

* `ends_of_munch`     a lexeme with something behind it is a blank or ends in no space;
* `Reads.next`        what one lexeme does to the context;
* `reads_foldl`       what a row of lexemes does;
* `role_eq_behind`    the role of every word of a line.
-/

namespace LineEditor.Token
open Text

/-! ## Looking back -/

/-- the nearest of the tokens before that is no blank -/
def lookBack (before : List Token) : Option Token :=
  before.reverse.find? fun t => t.kind ≠ .blank

/-- what a token announces: only a keyword announces a name -/
def announces (v : Vocabulary) (t : Token) : Option Announced :=
  if t.kind = .word .keyword then v.announces t.text else none

/-- the last character of a text that is no space and no tab -/
def lastSolid (s : Text) : Option Char := (s.reverse.dropWhile isSpace).head?

/-- the rules for a word that nothing announces; the first that applies gives the role -/
def ownRules (v : Vocabulary) (front w : Text) : List (Bool × Role) :=
  [(w = v.selfToken, .selfRef), (v.keywords.contains w, .keyword), (v.builtins.contains w, .builtin),
    (isDunder w, .dunder), (lastSolid front = some '.', .member), (w.head?.any Char.isUpper, .typeLike)]

/-- the role of the word `w` behind some tokens, which are the text `front` -/
def roleBehind (v : Vocabulary) (before : List Token) (front w : Text) : Role :=
  match (lookBack before).bind (announces v) with
  | some .type => .declaredType
  | some .callable => .callable
  | none => (((ownRules v front w).find? Prod.fst).map Prod.snd).getD .plain

section
variable {s t u w : Text} {c x : Char} {before : List Token} {tok : Token} {v : Vocabulary}

theorem lookBack_concat_blank (h : tok.kind = .blank) :
    lookBack (before ++ [tok]) = lookBack before := by
  simp [lookBack, h]

theorem lookBack_concat (h : tok.kind ≠ .blank) : lookBack (before ++ [tok]) = some tok := by
  simp [lookBack, h]

theorem lastSolid_append_spaces (h : ∀ x ∈ t, isSpace x = true) :
    lastSolid (s ++ t) = lastSolid s := by
  unfold lastSolid
  rw [List.reverse_append, List.dropWhile_append_of_pos fun x hx => h x (List.mem_reverse.mp hx)]

/-- a text that ends in a character which is no space -/
def IsSolid (s : Text) : Prop := ∃ u x, s = u ++ [x] ∧ isSpace x = false

theorem IsSolid.lastSolid_append (h : IsSolid t) : lastSolid (s ++ t) = t.getLast? := by
  obtain ⟨u, x, rfl, hx⟩ := h
  have hrev : (s ++ (u ++ [x])).reverse = x :: (s ++ u).reverse := by simp
  unfold lastSolid
  rw [hrev, List.dropWhile_cons, hx, List.getLast?_concat]
  rfl

theorem isSolid_of_forall (hne : s ≠ []) (h : ∀ x ∈ s, isSpace x = false) : IsSolid s := by
  obtain ⟨u, x, rfl⟩ := (List.eq_nil_or_concat' s).resolve_left hne
  exact ⟨u, x, rfl, h x (by simp)⟩

theorem IsSolid.of_suffix (h : IsSolid t) (hs : t <:+ s) : IsSolid s := by
  obtain ⟨u, x, rfl, hx⟩ := h
  obtain ⟨w, rfl⟩ := hs
  exact ⟨w ++ u, x, by rw [List.append_assoc], hx⟩

/-! ## The end of a lexeme -/

/-- a class of characters without the space and the tab -/
def IsDense (p : Char → Bool) : Prop := p ' ' = false ∧ p '\t' = false

theorem IsDense.isSpace_eq_false {p : Char → Bool} (hp : IsDense p) (h : p c = true) :
    isSpace c = false := by
  refine Bool.eq_false_iff.mpr fun hc => ?_
  have hcases : c = ' ' ∨ c = '\t' := by simpa [isSpace] using hc
  rcases hcases with rfl | rfl
  · rw [hp.1] at h
    cases h
  · rw [hp.2] at h
    cases h

theorem isDense_radixDigit? {mark : Char} {digit : Char → Bool}
    (h : radixDigit? mark = some digit) : IsDense digit := by
  unfold radixDigit? at h
  split at h
  · cases h
    exact ⟨by decide, by decide⟩
  · cases h
    exact ⟨by decide, by decide⟩
  · cases h
    exact ⟨by decide, by decide⟩
  · cases h

theorem isDense_mark : IsDense fun c => (radixDigit? c).isSome := ⟨by decide, by decide⟩

/-- a scanner whose matches hold no space -/
def Spaceless (f : Text → Nat) : Prop := ∀ s : Text, ∀ x ∈ s.take (f s), isSpace x = false

theorem Spaceless.max {f g : Text → Nat} (hf : Spaceless f) (hg : Spaceless g) :
    Spaceless fun s => max (f s) (g s) := by
  intro s x hx
  replace hx : x ∈ s.take (Max.max (f s) (g s)) := hx
  rcases Nat.le_total (f s) (g s) with h | h
  · rw [Nat.max_eq_right h] at hx
    exact hg s x hx
  · rw [Nat.max_eq_left h] at hx
    exact hf s x hx

theorem spaceless_takeWhile {p : Char → Bool} (hp : IsDense p) :
    Spaceless fun s => (s.takeWhile p).length := by
  intro s x hx
  rw [← List.prefix_iff_eq_take.mp (List.takeWhile_prefix p)] at hx
  exact hp.isSpace_eq_false (List.all_eq_true.mp List.all_takeWhile x hx)

/-- a match that goes on with another one -/
theorem spaceless_add {m n : Nat} (hm : ∀ x ∈ s.take m, isSpace x = false)
    (hn : ∀ x ∈ (s.drop m).take n, isSpace x = false) : ∀ x ∈ s.take (m + n), isSpace x = false := by
  intro x hx
  rw [List.take_add] at hx
  rcases List.mem_append.mp hx with hx | hx
  · exact hm x hx
  · exact hn x hx

theorem spaceless_cons {n : Nat} (hc : isSpace c = false) (h : ∀ x ∈ s.take n, isSpace x = false) :
    ∀ x ∈ (c :: s).take (1 + n), isSpace x = false := by
  intro x hx
  rw [Nat.add_comm, List.take_succ_cons] at hx
  rcases List.mem_cons.mp hx with rfl | hx
  · exact hc
  · exact h x hx

theorem spaceless_digitRun : Spaceless digitRun := by
  intro s
  cases s with
  | nil => simp
  | cons c s =>
    rw [digitRun]
    by_cases hc : c.isDigit = true
    · have hdigit : IsDense Char.isDigit := ⟨by decide, by decide⟩
      rw [if_pos hc]
      exact spaceless_cons (hdigit.isSpace_eq_false hc)
        (spaceless_takeWhile ⟨by decide, by decide⟩ s)
    · rw [if_neg hc]
      simp

theorem spaceless_radixNumber : Spaceless radixNumber := by
  intro s
  match s with
  | [] => simp
  | [z] => simp [radixNumber]
  | z :: mark :: s =>
    by_cases hz : z = '0'
    · subst hz
      cases hd : radixDigit? mark with
      | none => simp [radixNumber_of_none hd]
      | some digit =>
        have hmark : isSpace mark = false := isDense_mark.isSpace_eq_false (by simp [hd])
        rw [radixNumber_of_some hd]
        split
        · simp
        · rw [show 2 + (s.takeWhile digit).length = 1 + (1 + (s.takeWhile digit).length) by omega]
          exact spaceless_cons (by decide)
            (spaceless_cons hmark (spaceless_takeWhile (isDense_radixDigit? hd) s))
    · simp [radixNumber_of_ne hz]

theorem spaceless_mantissa : Spaceless mantissa := by
  intro s
  by_cases hp : ∃ t, s.drop (digitRun s) = '.' :: t
  · obtain ⟨t, ht⟩ := hp
    rw [mantissa_point ht]
    split
    · simp
    · rw [Nat.add_assoc]
      refine spaceless_add (spaceless_digitRun s) ?_
      rw [ht]
      exact spaceless_cons (by decide) (spaceless_digitRun t)
  · rw [mantissa_of_ne fun t ht => hp ⟨t, ht⟩]
    exact spaceless_digitRun s

theorem spaceless_sign : Spaceless sign := by
  intro s
  cases s with
  | nil => simp
  | cons c s =>
    have hsign : IsDense fun c => c = '+' || c = '-' := ⟨by decide, by decide⟩
    rw [sign]
    split
    · rename_i hc
      simpa using hsign.isSpace_eq_false (c := c) (by simpa using hc)
    · simp

theorem spaceless_exponent : Spaceless exponent := by
  intro s
  cases s with
  | nil => simp
  | cons e s =>
    have hmark : IsDense fun c => c.toLower = 'e' := ⟨by decide, by decide⟩
    rw [exponent]
    split
    · rename_i he
      rw [Nat.add_assoc]
      exact spaceless_cons (hmark.isSpace_eq_false (by simpa using he.1))
        (spaceless_add (spaceless_sign s) (spaceless_digitRun _))
    · simp

theorem spaceless_decimalNumber : Spaceless decimalNumber := by
  intro s
  unfold decimalNumber
  split
  · simp
  · exact spaceless_add (spaceless_mantissa s) (spaceless_exponent _)

theorem spaceless_number : Spaceless number := spaceless_radixNumber.max spaceless_decimalNumber

theorem spaceless_of_mem_operators :
    ∀ o ∈ operators, (o.toList.all fun x => !isSpace x) = true := by decide

theorem spaceless_operator : Spaceless operator := by
  intro s x hx
  unfold operator at hx
  cases e : operators.find? fun o => o.toList.isPrefixOf s with
  | none =>
    rw [e] at hx
    cases hx
  | some o =>
    rw [e] at hx
    have hfits : o.toList.isPrefixOf s = true :=
      List.find?_some (p := fun o : String => o.toList.isPrefixOf s) e
    have hp : o.toList <+: s := List.isPrefixOf_iff_prefix.mp hfits
    have hall := spaceless_of_mem_operators o (List.mem_of_find?_eq_some e)
    rw [show s.take o.toList.length = o.toList from (List.prefix_iff_eq_take.mp hp).symm] at hx
    simpa using List.all_eq_true.mp hall x hx

/-- a literal that something follows ends in its quote -/
theorem isSolid_literal (hpos : 0 < literal s) (h : literal s < s.length) :
    IsSolid (s.take (literal s)) := by
  by_cases hs : ∃ w q t, s = w ++ q :: t ∧ isLiteralPrefix w = true ∧ isQuote q = true
  · obtain ⟨w, q, t, rfl, hw, hq⟩ := hs
    have hopen := isPrefix_opener q t
    rw [literal_append hw hq, List.length_append] at h
    have hbody : opener q t <:+ ((q :: t).drop (opener q t).length).take
        (literalBody (isRaw w) (opener q t) false ((q :: t).drop (opener q t).length)) :=
      suffix_take_literalBody (by rw [List.length_drop]; omega)
    have hclose : opener q t <:+ (w ++ q :: t).take (literal (w ++ q :: t)) := by
      rw [literal_append hw hq, Nat.add_assoc, List.take_length_add_append, List.take_add]
      exact hbody.trans ((List.suffix_append _ _).trans (List.suffix_append w _))
    obtain ⟨u, x, hu⟩ := (List.eq_nil_or_concat' (opener q t)).resolve_left
      (List.length_pos_iff.mp (opener_length_pos q t))
    have hx : x = q := mem_opener (t := t) (by rw [hu]; simp)
    have hquote : IsDense isQuote := ⟨by decide, by decide⟩
    exact IsSolid.of_suffix ⟨u, x, hu, hquote.isSpace_eq_false (hx ▸ hq)⟩ hclose
  · have hzero : literal s = 0 := literal_eq_zero fun w q t e hw =>
      Bool.eq_false_iff.mpr fun hq => hs ⟨w, q, t, e, hw, hq⟩
    omega

/-- what a lexeme is like that has something behind it -/
structure Ends (l : Lexeme) : Prop where
  /-- a comment goes to the end of the line -/
  not_comment : l.shape ≠ .comment
  spaces : l.shape = .blank → ∀ x ∈ l.text, isSpace x = true
  solid : l.shape ≠ .blank → IsSolid l.text

theorem Ends.of_isSolid {shape : Shape} (h : IsSolid t) (hb : shape ≠ .blank)
    (hc : shape ≠ .comment) : Ends ⟨shape, t⟩ :=
  ⟨hc, fun e => absurd e hb, fun _ => h⟩

theorem Ends.of_spaceless {shape : Shape} {n : Nat} (hn : 0 < n) (hne : s ≠ [])
    (h : ∀ x ∈ s.take n, isSpace x = false) (hb : shape ≠ .blank) (hc : shape ≠ .comment) :
    Ends ⟨shape, s.take n⟩ := by
  refine .of_isSolid (isSolid_of_forall ?_ h) hb hc
  rw [← List.length_pos_iff] at hne ⊢
  rw [List.length_take]
  omega

theorem ends_of_munch (h : (munch c s).2 < (c :: s).length) :
    Ends ⟨(munch c s).1, (c :: s).take (munch c s).2⟩ := by
  have hne : c :: s ≠ [] := List.cons_ne_nil c s
  have hrun {p : Char → Bool} (hc : isSpace c = false) (hp : IsDense p) :
      ∀ x ∈ (c :: s).take (run p s), isSpace x = false :=
    spaceless_cons hc (spaceless_takeWhile hp s)
  unfold munch at h ⊢
  by_cases h1 : isSpace c = true
  · rw [if_pos h1]
    refine ⟨nofun, fun _ x hx => ?_, fun hb => absurd rfl hb⟩
    replace hx : x ∈ (c :: s).take (1 + (s.takeWhile isSpace).length) := hx
    rw [Nat.add_comm, List.take_succ_cons,
      ← List.prefix_iff_eq_take.mp (List.takeWhile_prefix isSpace)] at hx
    rcases List.mem_cons.mp hx with rfl | hx
    · exact h1
    · exact List.all_eq_true.mp List.all_takeWhile x hx
  have hc : isSpace c = false := Bool.eq_false_iff.mpr h1
  rw [if_neg h1] at h ⊢
  by_cases h2 : c = '#'
  · rw [if_pos h2, List.length_cons] at h
    exact absurd h (by omega)
  rw [if_neg h2] at h ⊢
  by_cases h3 : 0 < literal (c :: s)
  · rw [if_pos h3] at h ⊢
    exact .of_isSolid (isSolid_literal h3 h) nofun nofun
  rw [if_neg h3]
  by_cases h4 : 0 < number (c :: s)
  · rw [if_pos h4]
    exact .of_spaceless h4 hne (spaceless_number _) nofun nofun
  rw [if_neg h4]
  by_cases h5 : isWordStart c = true
  · rw [if_pos h5]
    exact .of_spaceless (run_pos _ s) hne (hrun hc ⟨by decide, by decide⟩) nofun nofun
  rw [if_neg h5]
  by_cases h6 : c = '@'
  · rw [if_pos h6]
    exact .of_spaceless (run_pos _ s) hne (hrun hc ⟨by decide, by decide⟩) nofun nofun
  rw [if_neg h6]
  by_cases h7 : 0 < operator (c :: s)
  · rw [if_pos h7]
    exact .of_spaceless h7 hne (spaceless_operator _) nofun nofun
  rw [if_neg h7]
  exact .of_spaceless Nat.one_pos hne (by simpa using hc) nofun nofun

/-- all lexemes of a line but the last have something behind them -/
theorem ends_of_mem_dropLast {l : Lexeme} (h : l ∈ (lexemes s).dropLast) : Ends l := by
  fun_induction lexemes s with
  | case1 => cases h
  | case2 c s m ih =>
    cases e : (c :: s).drop m.2 with
    | nil =>
      rw [e, lexemes_nil] at h
      cases h
    | cons d r =>
      have hlt : m.2 < (c :: s).length := by
        have hlen := congrArg List.length e
        rw [List.length_drop, List.length_cons (a := d)] at hlen
        omega
      rw [List.dropLast_cons_of_ne_nil (by rw [e, lexemes_cons]; exact List.cons_ne_nil _ _)] at h
      rcases List.mem_cons.mp h with rfl | h
      · exact ends_of_munch hlt
      · exact ih h

/-! ## The context -/

/-- the context that the tokens before account for -/
structure Reads (v : Vocabulary) (ctx : Context) (before : List Token) : Prop where
  announced : ctx.announced = (lookBack before).bind (announces v)
  last : ctx.last = lastSolid (before.flatMap Token.text)

theorem reads_start (v : Vocabulary) : Reads v .start [] := ⟨rfl, rfl⟩

variable {ctx : Context} {l : Lexeme}

theorem Reads.role_eq (h : Reads v ctx before) (w : Text) :
    ctx.role v w = roleBehind v before (before.flatMap Token.text) w := by
  unfold Context.role roleBehind ownRules
  rw [← h.announced, ← h.last]
  cases ctx.announced with
  | some a => cases a <;> rfl
  | none =>
    simp only [List.find?_cons, List.find?_nil]
    by_cases h1 : w = v.selfToken
    · simp [h1]
    by_cases h2 : v.keywords.contains w = true
    · simp [h1, h2]
    by_cases h3 : v.builtins.contains w = true
    · simp [h1, h2, h3]
    by_cases h4 : isDunder w = true
    · simp [h1, h2, h3, h4]
    by_cases h5 : ctx.last = some '.'
    · simp [h1, h2, h3, h4, h5]
    by_cases h6 : w.head?.any Char.isUpper = true
    · simp [h1, h2, h3, h4, h5, h6]
    · simp [h1, h2, h3, h4, h5, h6]

/-- what one lexeme does to the context -/
theorem Reads.next (h : Reads v ctx before) (hl : Ends l) :
    Reads v (ctx.next v l) (before ++ [⟨kindOf v ctx l, l.text⟩]) := by
  have htext : (before ++ [(⟨kindOf v ctx l, l.text⟩ : Token)]).flatMap Token.text
      = before.flatMap Token.text ++ l.text := by simp
  have hshape : (kindOf v ctx l).shape = l.shape := shape_kindOf v ctx l
  by_cases hb : l.shape = .blank
  · have hk : kindOf v ctx l = .blank := by rw [kindOf, hb]
    have hnext : ctx.next v l = ctx := by rw [Context.next, hb]
    refine ⟨?_, ?_⟩
    · rw [hnext, lookBack_concat_blank hk, h.announced]
    · rw [hnext, htext, lastSolid_append_spaces (hl.spaces hb), h.last]
  · have hk : kindOf v ctx l ≠ .blank := fun hk => hb (by rw [← hshape, hk]; rfl)
    refine ⟨?_, ?_⟩
    · have hback : lookBack (before ++ [⟨kindOf v ctx l, l.text⟩])
          = some ⟨kindOf v ctx l, l.text⟩ := lookBack_concat hk
      rw [hback]
      show (ctx.next v l).announced
        = if kindOf v ctx l = .word .keyword then v.announces l.text else none
      by_cases hw : l.shape = .word
      · simp only [Context.next, kindOf, hw, Kind.word.injEq]
      · have hn : kindOf v ctx l ≠ .word .keyword := fun hk => hw (by rw [← hshape, hk]; rfl)
        rw [if_neg hn]
        unfold Context.next
        split
        · contradiction
        · exact absurd ‹_› hl.not_comment
        · contradiction
        · rfl
    · rw [htext, (hl.solid hb).lastSolid_append]
      unfold Context.next
      split
      · contradiction
      · exact absurd ‹_› hl.not_comment
      · rfl
      · rfl

theorem ofLexemes_append (v : Vocabulary) (ctx : Context) (ls ks : List Lexeme) :
    ofLexemes v ctx (ls ++ ks)
      = ofLexemes v ctx ls ++ ofLexemes v (ls.foldl (Context.next v) ctx) ks := by
  induction ls generalizing ctx with
  | nil => rfl
  | cons l ls ih =>
    rw [List.cons_append, ofLexemes_cons, ofLexemes_cons, List.cons_append, ih, List.foldl_cons]

/-- what a row of lexemes does to the context -/
theorem reads_foldl {ls : List Lexeme} (h : ∀ l ∈ ls, Ends l) :
    Reads v (ls.foldl (Context.next v) .start) (ofLexemes v .start ls) := by
  induction ls using List.reverseRecOn with
  | nil => exact reads_start v
  | append_singleton ls l ih =>
    rw [List.foldl_append, ofLexemes_append]
    exact (ih fun k hk => h k (List.mem_append_left _ hk)).next (h l (by simp))

/-! ## The words of a line -/

theorem role_of_kindOf {role : Role} (h : kindOf v ctx l = .word role) : ctx.role v l.text = role := by
  have hw : l.shape = .word := by
    rw [← shape_kindOf v ctx l, h]
    rfl
  simpa only [kindOf, hw, Kind.word.injEq] using h

/-- the lexemes of which some tokens were made -/
theorem exists_lexemes_of_split {ls : List Lexeme} {bs as : List Token}
    (h : ofLexemes v ctx ls = bs ++ tok :: as) :
    ∃ ks l js, ls = ks ++ l :: js ∧ bs = ofLexemes v ctx ks ∧
      tok = ⟨kindOf v (ks.foldl (Context.next v) ctx) l, l.text⟩ := by
  induction bs generalizing ctx ls with
  | nil =>
    cases ls with
    | nil => cases h
    | cons l js =>
      rw [ofLexemes_cons] at h
      exact ⟨[], l, js, rfl, rfl, (List.cons.inj h).1.symm⟩
  | cons b bs ih =>
    cases ls with
    | nil => cases h
    | cons k ls =>
      rw [ofLexemes_cons, List.cons_append] at h
      obtain ⟨hb, hrest⟩ := List.cons.inj h
      obtain ⟨ks, l, js, rfl, rfl, ht⟩ := ih hrest
      exact ⟨k :: ks, l, js, rfl, by rw [ofLexemes_cons, hb], ht⟩

/-- a token starts behind the texts of those before it -/
theorem start_of_split {i : Nat} {ts : List Token} {bs as : List Placed} {p : Placed}
    (h : placed i ts = bs ++ p :: as) :
    p.start = i + utf8Size ((bs.map Placed.token).flatMap Token.text) := by
  induction bs generalizing i ts with
  | nil =>
    cases ts with
    | nil => cases h
    | cons t ts =>
      rw [placed_cons] at h
      rw [← (List.cons.inj h).1]
      rfl
  | cons b bs ih =>
    cases ts with
    | nil => cases h
    | cons t ts =>
      rw [placed_cons, List.cons_append] at h
      obtain ⟨rfl, hrest⟩ := List.cons.inj h
      rw [ih hrest, List.map_cons, List.flatMap_cons, utf8Size_append, Nat.add_assoc]

theorem roleBehind_of_not_announced {front : Text}
    (h : (lookBack before).bind (announces v) = none) :
    roleBehind v before front w ≠ .declaredType ∧ roleBehind v before front w ≠ .callable := by
  unfold roleBehind
  rw [h]
  cases e : (ownRules v front w).find? Prod.fst with
  | none =>
    constructor
    · intro hrole
      cases hrole
    · intro hrole
      cases hrole
  | some r =>
    have hr := List.mem_of_find?_eq_some e
    simp only [ownRules, List.mem_cons, List.not_mem_nil, or_false] at hr
    rcases hr with rfl | rfl | rfl | rfl | rfl | rfl
    all_goals
      constructor
      · intro hrole
        cases hrole
      · intro hrole
        cases hrole

/-- **Roles by looking back.**  The role of a word is a function of the nearest token before it that
is no blank, of the text in front of it and of the word itself.  So a word that is no keyword, be it
a declared name or the word for the own object, announces nothing. -/
theorem role_eq_behind (v : Vocabulary) (line : Text) :
    ∃ ps : List Placed, scan v line = .ok ps ∧
      ∀ (bs : List Placed) (p : Placed) (as : List Placed), ps = bs ++ p :: as →
        ∀ role : Role, p.token.kind = .word role →
          (∃ front : Text, line.takeBytes p.start = some front ∧
            role = roleBehind v (bs.map Placed.token) front p.token.text) ∧
          ∀ q ∈ lookBack (bs.map Placed.token), q.kind ≠ .word .keyword →
            role ≠ .declaredType ∧ role ≠ .callable := by
  refine ⟨placed 0 (tokens v line), scan_eq v line, fun bs p as hsplit role hrole => ?_⟩
  have hstart := start_of_split hsplit
  have htokens : tokens v line = bs.map Placed.token ++ p.token :: as.map Placed.token := by
    rw [← map_token_placed 0 (tokens v line), hsplit, List.map_append, List.map_cons]
  have hline : line = (bs.map Placed.token).flatMap Token.text ++
      (p.token :: as.map Placed.token).flatMap Token.text := by
    rw [← List.flatMap_append, ← htokens, flatMap_text_tokens]
  obtain ⟨ks, l, js, hls, hbs, hp⟩ := exists_lexemes_of_split htokens
  have hends : ∀ k ∈ ks, Ends k := by
    intro k hk
    refine ends_of_mem_dropLast (s := line) ?_
    rw [hls, List.dropLast_append_cons]
    exact List.mem_append_left _ hk
  have hreads := reads_foldl (v := v) hends
  rw [← hbs] at hreads
  rw [hp] at hrole
  have heq : role = roleBehind v (bs.map Placed.token)
      ((bs.map Placed.token).flatMap Token.text) p.token.text := by
    rw [← role_of_kindOf hrole, hreads.role_eq, hp]
  refine ⟨⟨_, ?_, heq⟩, fun q hq hn => ?_⟩
  · rw [hstart, Nat.zero_add]
    conv_lhs => rw [hline]
    exact takeBytes_append _ _
  · rw [heq]
    refine roleBehind_of_not_announced ?_
    rw [Option.mem_def.mp hq]
    exact if_neg hn

end

/-- behind `class`, a name is the declared type -/
theorem role_behind_class :
    let v : Vocabulary := ⟨.ofList ["class".toList], .empty, [], .ofList ["class".toList], .empty⟩
    ∃ (ps bs as : List Placed) (p : Placed), scan v "class A".toList = .ok ps ∧
      ps = bs ++ p :: as ∧ p.token.kind = .word .declaredType ∧
      ∃ front : Text, Text.takeBytes "class A".toList p.start = some front ∧
        Role.declaredType = roleBehind v (bs.map Placed.token) front p.token.text := by
  intro v
  obtain ⟨ps, hps, h⟩ := role_eq_behind v "class A".toList
  have htokens : tokens v "class A".toList = [⟨.word .keyword, "class".toList⟩,
      ⟨.blank, " ".toList⟩, ⟨.word .declaredType, "A".toList⟩] := by
    decide +kernel
  have hscan := scan_eq v "class A".toList
  rw [htokens] at hscan
  rw [hscan] at hps
  obtain rfl := (Except.ok.inj hps).symm
  exact ⟨_, [_, _], [], _, hscan, rfl, rfl, (h [_, _] _ [] rfl _ rfl).1⟩

end LineEditor.Token
