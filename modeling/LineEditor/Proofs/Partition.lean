import LineEditor.Proofs.Scan

/-!
# The tokens partition the line

The scan of bytes ends without a fault on every line and with every vocabulary, its tokens are
those of the cut into characters, and they lie one behind the other from the first byte of the line
to the last.

* `scan_eq`           the scan as a whole;
* `scan_partitions`   the tokens cover the line, and every border between them is a character
                      boundary.
-/

namespace LineEditor.Token
open Text

/-! ## The scan as a whole -/

/-- tokens that follow each other from `start` on, at their places -/
def placed (start : Nat) (ts : List Token) : List Placed :=
  List.zipWith (fun t r => ⟨t, r.1, r.2⟩) ts (spans start ts)

theorem placed_cons (start : Nat) (t : Token) (ts : List Token) :
    placed start (t :: ts)
      = ⟨t, start, start + t.text.utf8Size⟩ :: placed (start + t.text.utf8Size) ts := rfl

theorem scanFrom_eq (v : Vocabulary) (line : Text) (s : Text) (ctx : Context) (i : Nat)
    (h : RestAt line i s) :
    scanFrom v line line.encode ctx i = .ok (placed i (ofLexemes v ctx (lexemes s))) := by
  fun_induction lexemes s generalizing ctx i with
  | case1 =>
    rw [scanFrom, dif_neg (Nat.not_lt.mpr (Nat.le_of_eq h.size_of_nil))]
    rfl
  | case2 c s m ih =>
    obtain ⟨b, bs, eb, hb⟩ := first_byte h
    rw [Array.getElem?_eq_getElem h.lt_size, Option.some.injEq] at hb
    have hfirst : ∀ p, IsAscii p → p (Char.ofUInt8 b) = p c := fun p hp => hp.head eb
    obtain ⟨stop, hs, hr⟩ := scanLexeme_eq h hfirst
    have hsplit : RestAt line i ((c :: s).take m.2 ++ (c :: s).drop m.2) := by
      rwa [List.take_append_drop]
    have hstop : stop = i + utf8Size ((c :: s).take m.2) := hr.eq hsplit.add
    have hlt : i < stop := by
      have hm : 0 < m.2 := munch_pos c s
      have hl := length_le_utf8Size ((c :: s).take m.2)
      rw [List.length_take, List.length_cons] at hl
      omega
    rw [scanFrom, dif_pos h.lt_size, hb, hs]
    simp only [hsplit.slice hr, hlt, if_true, ih _ stop hr]
    rw [ofLexemes_cons, placed_cons, ← hstop]
    rfl

/-- the scan of bytes finds the tokens of the line, and it meets no fault -/
theorem scan_eq (v : Vocabulary) (line : Text) :
    scan v line = .ok (placed 0 (tokens v line)) :=
  scanFrom_eq v line line .start 0 (restAt_zero line)

/-! ## The partition -/

/-- an index at which no character is cut in two -/
def IsBoundary (line : Text) (i : Nat) : Prop := ∃ u t : Text, line = u ++ t ∧ u.encode.size = i

/-- tokens that lie one behind the other from `i` to `j`, none of them empty -/
def Covers : Nat → List Placed → Nat → Prop
  | i, [], j => i = j
  | i, p :: ps, j => p.start = i ∧ p.start < p.stop ∧ Covers p.stop ps j

theorem map_token_placed (start : Nat) (ts : List Token) :
    (placed start ts).map Placed.token = ts := by
  induction ts generalizing start with
  | nil => rfl
  | cons t ts ih => rw [placed_cons, List.map_cons, ih]

theorem text_ne_nil_of_mem_ofLexemes {v : Vocabulary} {ctx : Context} {ls : List Lexeme} {t : Token}
    (hl : ∀ l ∈ ls, l.text ≠ []) (h : t ∈ ofLexemes v ctx ls) : t.text ≠ [] := by
  induction ls generalizing ctx with
  | nil => cases h
  | cons l ls ih =>
    rcases List.mem_cons.mp h with rfl | h
    · exact hl l List.mem_cons_self
    · exact ih (fun k hk => hl k (List.mem_cons_of_mem l hk)) h

theorem text_ne_nil_of_mem_tokens {v : Vocabulary} {line : Text} {t : Token}
    (h : t ∈ tokens v line) : t.text ≠ [] :=
  text_ne_nil_of_mem_ofLexemes (fun _ => text_ne_nil_of_mem_lexemes) h

theorem covers_placed (start : Nat) (ts : List Token) (h : ∀ t ∈ ts, t.text ≠ []) :
    Covers start (placed start ts) (start + utf8Size (ts.flatMap Token.text)) := by
  induction ts generalizing start with
  | nil => rfl
  | cons t ts ih =>
    have ht : 0 < t.text.utf8Size := by
      have h1 := length_le_utf8Size t.text
      have h2 := List.length_pos_iff.mpr (h t List.mem_cons_self)
      omega
    refine ⟨rfl, Nat.lt_add_of_pos_right ht, ?_⟩
    rw [List.flatMap_cons, utf8Size_append, ← Nat.add_assoc]
    exact ih _ fun t' h' => h t' (List.mem_cons_of_mem t h')

theorem RestAt.isBoundary {line : Text} {i : Nat} {s : Text} (h : RestAt line i s) :
    IsBoundary line i := by
  obtain ⟨u, e, hu⟩ := h
  exact ⟨u, s, e, (size_encode u).trans hu⟩

/-- each token lies between two boundaries, and its text is what lies between them -/
theorem slice_of_mem_placed {line : Text} {start : Nat} {ts : List Token} {p : Placed}
    (h : RestAt line start (ts.flatMap Token.text)) (hp : p ∈ placed start ts) :
    IsBoundary line p.start ∧ IsBoundary line p.stop ∧
      line.slice p.start p.stop = some p.token.text := by
  induction ts generalizing start with
  | nil => cases hp
  | cons t ts ih =>
    rw [List.flatMap_cons] at h
    rcases List.mem_cons.mp hp with rfl | hp
    · exact ⟨RestAt.isBoundary h, RestAt.isBoundary h.add, h.slice h.add⟩
    · exact ih h.add hp

/-- **The tokens partition the line.**  The scan ends without a fault; its tokens are not empty and
cover the bytes of the line without a gap, and every slice that they name lies between character
boundaries. -/
theorem scan_partitions (v : Vocabulary) (line : Text) :
    ∃ ps : List Placed, scan v line = .ok ps ∧ ps.map Placed.token = tokens v line ∧
      Covers 0 ps line.encode.size ∧
      ∀ p ∈ ps, IsBoundary line p.start ∧ IsBoundary line p.stop ∧
        line.slice p.start p.stop = some p.token.text := by
  have htext : (tokens v line).flatMap Token.text = line := flatMap_text_tokens v line
  refine ⟨placed 0 (tokens v line), scan_eq v line, map_token_placed 0 _, ?_, ?_⟩
  · have h := covers_placed 0 (tokens v line) fun _ => text_ne_nil_of_mem_tokens
    rwa [htext, Nat.zero_add, ← size_encode] at h
  · intro p hp
    refine slice_of_mem_placed ?_ hp
    rw [htext]
    exact restAt_zero line

end LineEditor.Token
