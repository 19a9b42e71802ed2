import LineEditor.Highlight
import LineEditor.Proofs.Partition
import Mathlib.Data.List.Chain

/-!
# The segments of a line are the groups of its tokens

`Grouped ts gs` cuts a row of tokens into groups: a word, literal, comment or decorator stands
alone; a keyword takes the blank behind it along; what is left of blanks, operators and punctuation
forms maximal runs.  There is exactly one such cut, and the segments of a line are its groups.

* `isChain_tokens`        no two blanks are neighbours, since each is a maximal run of characters;
* `gather_grouped`        the one pass over the tokens finds the groups;
* `highlight_groups`      the segments of a line, and what follows for them.
-/

namespace LineEditor

/-! ## Groups -/

/-- the cut of a row of tokens into groups -/
inductive Grouped : List Token → List (List Token) → Prop
  | nil : Grouped [] []
  | lone {t : Token} {ts : List Token} {gs : List (List Token)} (hg : t.kind.isGap = false)
      (hk : t.kind ≠ .word .keyword) (h : Grouped ts gs) : Grouped (t :: ts) ([t] :: gs)
  /-- no blank stands behind the keyword -/
  | keyword {t : Token} {ts : List Token} {gs : List (List Token)} (hk : t.kind = .word .keyword)
      (hn : ∀ b ∈ ts.head?, b.kind ≠ .blank) (h : Grouped ts gs) : Grouped (t :: ts) ([t] :: gs)
  | keywordBlank {t b : Token} {ts : List Token} {gs : List (List Token)}
      (hk : t.kind = .word .keyword) (hb : b.kind = .blank) (h : Grouped ts gs) :
      Grouped (t :: b :: ts) ([t, b] :: gs)
  /-- the run is as long as it can be -/
  | gap {ts run rest : List Token} {gs : List (List Token)} (e : ts = run ++ rest) (hne : run ≠ [])
      (hrun : ∀ t ∈ run, t.kind.isGap = true) (hmax : ∀ t ∈ rest.head?, t.kind.isGap = false)
      (h : Grouped rest gs) : Grouped ts (run :: gs)

/-- a run of blanks, operators and punctuation -/
def IsGapRun (g : List Token) : Prop := g ≠ [] ∧ ∀ t ∈ g, t.kind.isGap = true

/-- the segment for a group: its text, under the tag of its first token -/
def segmentOf (g : List Token) : Segment :=
  ⟨g.flatMap Token.text, (g.head?.map fun t => t.kind.tag).getD .default⟩

theorem isGap_keyword {k : Kind} (h : k = .word .keyword) : k.isGap = false := by
  rw [h]
  rfl

section
variable {ts : List Token} {gs hs : List (List Token)}

theorem Grouped.flatten (h : Grouped ts gs) : gs.flatten = ts := by
  induction h with
  | nil => rfl
  | lone hg hk h ih => rw [List.flatten_cons, ih]; rfl
  | keyword hk hn h ih => rw [List.flatten_cons, ih]; rfl
  | keywordBlank hk hb h ih => rw [List.flatten_cons, ih]; rfl
  | gap e hne hrun hmax h ih => rw [List.flatten_cons, ih, e]

theorem Grouped.ne_nil (h : Grouped ts gs) : ∀ g ∈ gs, g ≠ [] := by
  induction h with
  | nil => simp
  | lone hg hk h ih => simpa using ih
  | keyword hk hn h ih => simpa using ih
  | keywordBlank hk hb h ih => simpa using ih
  | gap e hne hrun hmax h ih => simpa using ⟨hne, ih⟩

/-- the first group starts with the first token -/
theorem Grouped.head (h : Grouped ts gs) : ∀ g ∈ gs.head?, ∃ t ∈ ts.head?, t ∈ g := by
  cases h with
  | nil => simp
  | lone hg hk h => simp
  | keyword hk hn h => simp
  | keywordBlank hk hb h => simp
  | gap e hne hrun hmax h =>
    obtain ⟨t, run, rfl⟩ := List.exists_cons_of_ne_nil hne
    simp [e]

/-- two runs are never neighbours -/
theorem Grouped.isChain (h : Grouped ts gs) : gs.IsChain fun g k => ¬ (IsGapRun g ∧ IsGapRun k) := by
  have hword {t : Token} {g : List Token} (ht : t.kind.isGap = false) : ¬ IsGapRun (t :: g) := by
    intro hg
    rw [hg.2 t List.mem_cons_self] at ht
    cases ht
  induction h with
  | nil => exact .nil
  | lone hg hk h ih => exact ih.cons fun k _ hgk => hword hg hgk.1
  | keyword hk hn h ih => exact ih.cons fun k _ hgk => hword (isGap_keyword hk) hgk.1
  | keywordBlank hk hb h ih => exact ih.cons fun k _ hgk => hword (isGap_keyword hk) hgk.1
  | gap e hne hrun hmax h ih =>
    refine ih.cons fun k hk hgk => ?_
    obtain ⟨t, ht, htk⟩ := h.head k hk
    have h1 := hgk.2.2 t htk
    rw [hmax t ht] at h1
    cases h1

/-! ## There is exactly one cut -/

theorem append_gap_inj {run rest run' rest' : List Token} (e : run ++ rest = run' ++ rest')
    (hrun : ∀ t ∈ run, t.kind.isGap = true) (hrun' : ∀ t ∈ run', t.kind.isGap = true)
    (hmax : ∀ t ∈ rest.head?, t.kind.isGap = false)
    (hmax' : ∀ t ∈ rest'.head?, t.kind.isGap = false) : run = run' ∧ rest = rest' := by
  have htake {r s : List Token} (hr : ∀ t ∈ r, t.kind.isGap = true)
      (hs : ∀ t ∈ s.head?, t.kind.isGap = false) :
      (r ++ s).takeWhile (fun t => t.kind.isGap) = r := by
    rw [List.takeWhile_append_of_pos hr]
    cases s with
    | nil => simp
    | cons t s => simp [hs t rfl]
  have h1 : run = run' := by
    rw [← htake hrun hmax, e, htake hrun' hmax']
  rw [h1] at e
  exact ⟨h1, List.append_cancel_left e⟩

theorem Grouped.unique (h : Grouped ts gs) (h' : Grouped ts hs) : gs = hs := by
  have hgap {t : Token} {ts run rest : List Token} (ht : t.kind.isGap = false)
      (e : t :: ts = run ++ rest) (hne : run ≠ []) (hrun : ∀ t ∈ run, t.kind.isGap = true) :
      False := by
    obtain ⟨r, run, rfl⟩ := List.exists_cons_of_ne_nil hne
    rw [List.cons_append] at e
    have h1 := hrun r List.mem_cons_self
    rw [← (List.cons.inj e).1, ht] at h1
    cases h1
  induction h generalizing hs with
  | nil =>
    cases h' with
    | nil => rfl
    | gap e hne hrun hmax h' => exact absurd (List.append_eq_nil_iff.mp e.symm).1 hne
  | lone hg hk h ih =>
    cases h' with
    | lone _ _ h' => rw [ih h']
    | keyword hk' hn h' => exact absurd hk' hk
    | keywordBlank hk' hb h' => exact absurd hk' hk
    | gap e hne hrun hmax h' => exact (hgap hg e hne hrun).elim
  | keyword hk hn h ih =>
    cases h' with
    | lone hg hk' h' => exact absurd hk hk'
    | keyword hk' hn' h' => rw [ih h']
    | keywordBlank hk' hb h' => exact absurd hb (hn _ rfl)
    | gap e hne hrun hmax h' => exact (hgap (isGap_keyword hk) e hne hrun).elim
  | keywordBlank hk hb h ih =>
    cases h' with
    | lone hg hk' h' => exact absurd hk hk'
    | keyword hk' hn' h' => exact absurd hb (hn' _ rfl)
    | keywordBlank hk' hb' h' => rw [ih h']
    | gap e hne hrun hmax h' => exact (hgap (isGap_keyword hk) e hne hrun).elim
  | gap e hne hrun hmax h ih =>
    cases h' with
    | nil => exact absurd (List.append_eq_nil_iff.mp e.symm).1 hne
    | lone hg hk' h' => exact (hgap hg e hne hrun).elim
    | keyword hk' hn' h' => exact (hgap (isGap_keyword hk') e hne hrun).elim
    | keywordBlank hk' hb' h' => exact (hgap (isGap_keyword hk') e hne hrun).elim
    | gap e' hne' hrun' hmax' h' =>
      obtain ⟨rfl, rfl⟩ := append_gap_inj (e.symm.trans e') hrun hrun' hmax hmax'
      rw [ih h']

theorem exists_grouped (ts : List Token) : ∃ gs, Grouped ts gs := by
  generalize hn : ts.length = n
  induction n using Nat.strongRecOn generalizing ts with
  | ind n ih =>
    cases ts with
    | nil => exact ⟨[], .nil⟩
    | cons t ts =>
      rw [List.length_cons] at hn
      by_cases hg : t.kind.isGap = true
      · let p : Token → Bool := fun t => t.kind.isGap
        have hl : (ts.dropWhile p).length ≤ ts.length := (List.dropWhile_sublist p).length_le
        obtain ⟨gs, h⟩ := ih (ts.dropWhile p).length (by omega) (ts.dropWhile p) rfl
        have hrun : ∀ u ∈ t :: ts.takeWhile p, u.kind.isGap = true := by
          intro u hu
          rcases List.mem_cons.mp hu with rfl | hu
          · exact hg
          · exact List.all_eq_true.mp List.all_takeWhile u hu
        have hmax : ∀ u ∈ (ts.dropWhile p).head?, u.kind.isGap = false := by
          intro u hu
          have h1 := List.head?_dropWhile_not p ts
          rw [Option.mem_def.mp hu] at h1
          exact h1
        refine ⟨_, .gap ?_ (List.cons_ne_nil t _) hrun hmax h⟩
        rw [List.cons_append, List.takeWhile_append_dropWhile]
      · have hg' : t.kind.isGap = false := Bool.eq_false_iff.mpr hg
        by_cases hk : t.kind = .word .keyword
        · cases ts with
          | nil => exact ⟨_, .keyword hk (by simp) .nil⟩
          | cons b ts =>
            by_cases hb : b.kind = .blank
            · obtain ⟨gs, h⟩ := ih ts.length (by rw [← hn, List.length_cons]; omega) ts rfl
              exact ⟨_, .keywordBlank hk hb h⟩
            · obtain ⟨gs, h⟩ := ih (b :: ts).length (by omega) (b :: ts) rfl
              exact ⟨_, .keyword hk (by simpa using hb) h⟩
        · obtain ⟨gs, h⟩ := ih ts.length (by omega) ts rfl
          exact ⟨_, .lone hg' hk h⟩

end

/-! ## Blanks are maximal -/

section
variable {c : Char} {s : Text}

theorem Token.munch_of_isSpace (h : isSpace c = true) : munch c s = (.blank, run isSpace s) := by
  rw [munch, if_pos h]

theorem Token.isSpace_of_munch (h : (munch c s).1 = .blank) : isSpace c = true := by
  by_contra hc
  rw [munch, if_neg hc] at h
  split_ifs at h

theorem Token.isChain_lexemes (line : Text) :
    (lexemes line).IsChain fun l k => ¬ (l.shape = .blank ∧ k.shape = .blank) := by
  fun_induction lexemes line with
  | case1 => exact .nil
  | case2 c s m ih =>
    refine ih.cons fun k hk hb => ?_
    have hc : isSpace c = true := isSpace_of_munch hb.1
    have hrest : (c :: s).drop m.2 = s.dropWhile isSpace := by
      show (c :: s).drop (munch c s).2 = _
      rw [munch_of_isSpace hc, run, Nat.add_comm, List.drop_succ_cons]
      calc s.drop (s.takeWhile isSpace).length
          = (s.takeWhile isSpace ++ s.dropWhile isSpace).drop (s.takeWhile isSpace).length := by
            rw [List.takeWhile_append_dropWhile]
        _ = s.dropWhile isSpace := List.drop_left
    rw [hrest] at hk
    have hd := List.head?_dropWhile_not isSpace s
    cases e : s.dropWhile isSpace with
    | nil =>
      rw [e, lexemes_nil] at hk
      cases hk
    | cons d t =>
      rw [e, lexemes_cons] at hk
      rw [e] at hd
      cases hk
      have h1 : isSpace d = true := isSpace_of_munch hb.2
      simp [h1] at hd

theorem Token.shape_of_kindOf {v : Vocabulary} {ctx : Context} {l : Lexeme}
    (h : kindOf v ctx l = .blank) : l.shape = .blank := by
  rw [← shape_kindOf v ctx l, h]
  rfl

theorem Token.isChain_ofLexemes (v : Vocabulary) (ctx : Context) {ls : List Lexeme}
    (h : ls.IsChain fun l k => ¬ (l.shape = .blank ∧ k.shape = .blank)) :
    (ofLexemes v ctx ls).IsChain fun t u => ¬ (t.kind = .blank ∧ u.kind = .blank) := by
  induction ls generalizing ctx with
  | nil => exact .nil
  | cons l ls ih =>
    rw [ofLexemes_cons]
    refine (ih (ctx.next v l) h.tail).cons fun u hu hb => ?_
    cases ls with
    | nil => cases hu
    | cons k ls =>
      cases hu
      exact h.rel_head? rfl ⟨shape_of_kindOf hb.1, shape_of_kindOf hb.2⟩

/-- no two blanks are neighbours -/
theorem Token.isChain_tokens (v : Vocabulary) (line : Text) :
    (tokens v line).IsChain fun t u => ¬ (t.kind = .blank ∧ u.kind = .blank) :=
  isChain_ofLexemes v .start (isChain_lexemes line)

end

/-! ## The pass over the tokens -/

section
variable {t : Token} {ts run : List Token} {gs : List (List Token)} {tail : Tail}

theorem gather_cons_closed (t : Token) (ts : List Token) :
    gather .closed (t :: ts)
      = ([], ⟨t.text ++ (gather t.kind.tail ts).1, t.kind.tag⟩ :: (gather t.kind.tail ts).2) := rfl

theorem gather_of_takes (h : tail.takes t.kind = true) :
    gather tail (t :: ts) = (t.text ++ (gather tail ts).1, (gather tail ts).2) := by
  rw [gather, if_pos h]

/-- where nothing can be taken up, the open segment is closed -/
theorem gather_of_not_takes (h : ∀ t ∈ ts.head?, tail.takes t.kind = false) :
    gather tail ts = gather .closed ts := by
  cases ts with
  | nil => rw [gather_nil, gather_nil]
  | cons t ts => rw [gather, if_neg (Bool.eq_false_iff.mp (h t rfl)), gather_cons_closed]

theorem gather_gap (hrun : ∀ t ∈ run, t.kind.isGap = true) :
    gather .gap (run ++ ts) = (run.flatMap Token.text ++ (gather .gap ts).1, (gather .gap ts).2) := by
  induction run with
  | nil => rfl
  | cons t run ih =>
    have htakes : Tail.gap.takes t.kind = true := hrun t List.mem_cons_self
    rw [List.cons_append, gather_of_takes htakes,
      ih fun u hu => hrun u (List.mem_cons_of_mem t hu), List.flatMap_cons, List.append_assoc]

theorem Kind.tail_of_isGap {k : Kind} (h : k.isGap = true) : k.tail = .gap := by
  have hk : k ≠ .word .keyword := by
    rintro rfl
    cases h
  rw [Kind.tail, if_neg hk, if_pos h]

theorem gather_grouped (h : Grouped ts gs)
    (hb : ts.IsChain fun t u => ¬ (t.kind = .blank ∧ u.kind = .blank)) :
    gather .closed ts = ([], gs.map segmentOf) := by
  induction h with
  | nil => rfl
  | @lone t ts gs hg hk h ih =>
    have htail : t.kind.tail = .closed := by
      rw [Kind.tail, if_neg hk, hg]
      rfl
    rw [gather_cons_closed, htail, ih hb.tail, List.map_cons]
    rfl
  | @keyword t ts gs hk hn h ih =>
    have htail : t.kind.tail = .keyword := by rw [Kind.tail, if_pos hk]
    have hclosed : gather .keyword ts = gather .closed ts :=
      gather_of_not_takes fun b hbs => decide_eq_false (hn b hbs)
    rw [gather_cons_closed, htail, hclosed, ih hb.tail, List.map_cons]
    rfl
  | @keywordBlank t b ts gs hk hbl h ih =>
    have htail : t.kind.tail = .keyword := by rw [Kind.tail, if_pos hk]
    have hclosed : gather .keyword ts = gather .closed ts :=
      gather_of_not_takes fun u hu =>
        decide_eq_false fun hub => hb.tail.rel_head? hu ⟨hbl, hub⟩
    have htakes : Tail.keyword.takes b.kind = true := decide_eq_true hbl
    rw [gather_cons_closed, htail, gather_of_takes htakes, hclosed, ih hb.tail.tail, List.map_cons]
    rfl
  | @gap ts run rest gs e hne hrun hmax h ih =>
    obtain ⟨t, run, rfl⟩ := List.exists_cons_of_ne_nil hne
    have ht : t.kind.isGap = true := hrun t List.mem_cons_self
    have hclosed : gather .gap rest = gather .closed rest := gather_of_not_takes hmax
    subst e
    rw [List.cons_append, gather_cons_closed, Kind.tail_of_isGap ht,
      gather_gap fun u hu => hrun u (List.mem_cons_of_mem t hu), hclosed, ih hb.right_of_append,
      List.map_cons, List.append_nil]
    rfl

end

theorem segmentOf_text_ne_nil {g : List Token} (hg : g ≠ []) (h : ∀ t ∈ g, t.text ≠ []) :
    (segmentOf g).text ≠ [] := by
  obtain ⟨t, g, rfl⟩ := List.exists_cons_of_ne_nil hg
  exact List.append_ne_nil_of_left_ne_nil (h t List.mem_cons_self) _

/-- **The segments of a line are the groups of its tokens.**  There is one way to group the tokens;
each group is shown as one segment, none of them is empty, together they are the line, and no two
runs of blanks, operators and punctuation are neighbours. -/
theorem highlight_groups (v : Vocabulary) (line : Text) :
    ∃ gs : List (List Token), Grouped (Token.tokens v line) gs ∧
      (∀ hs, Grouped (Token.tokens v line) hs → hs = gs) ∧
      gs.flatten = Token.tokens v line ∧ highlight v line = gs.map segmentOf ∧
      textOf (highlight v line) = line ∧ (∀ s ∈ highlight v line, s.text ≠ []) ∧
      gs.IsChain fun g k => ¬ (IsGapRun g ∧ IsGapRun k) := by
  obtain ⟨gs, h⟩ := exists_grouped (Token.tokens v line)
  have hs : highlight v line = gs.map segmentOf := by
    rw [highlight, gather_grouped h (Token.isChain_tokens v line)]
  refine ⟨gs, h, fun hs h' => h'.unique h, h.flatten, hs, textOf_highlight v line, ?_, h.isChain⟩
  intro s hm
  rw [hs] at hm
  obtain ⟨g, hg, rfl⟩ := List.mem_map.mp hm
  refine segmentOf_text_ne_nil (h.ne_nil g hg) fun t ht => ?_
  have htl : t ∈ Token.tokens v line := by
    rw [← h.flatten]
    exact List.mem_flatten_of_mem hg ht
  exact Token.text_ne_nil_of_mem_tokens htl

end LineEditor
