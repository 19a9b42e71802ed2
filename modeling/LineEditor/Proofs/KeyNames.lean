import LineEditor.Key
import LineEditor.Proofs.Digits

/-!
# The names of keys

A name means a key exactly if it is one character, one of the listed spellings of the key, or an `F`
and the number of a function key (`ofName?_eq_some_iff`).  The number may stand behind one plus sign
and behind any number of zeros: `F+1` and `F001` mean the key `F1`, though no host spells it so.

* `Key.spellings`, `Spells`   the names of each key, listed by key and not by name;
* **`ofName?_spells`**         which names mean a character, a function key, another key, or none.
-/

namespace LineEditor.Key

/-! ## Spellings -/

/-- the names of a key that are words -/
def spellings : Key → List String
  | char c => if c = ' ' then ["Spacebar"] else []
  | backspace => ["Backspace"]
  | delete => ["Delete", "Del"]
  | enter => ["Enter", "Return"]
  | tab => ["Tab"]
  | escape => ["Escape", "Esc"]
  | left => ["ArrowLeft", "Left"]
  | right => ["ArrowRight", "Right"]
  | up => ["ArrowUp", "Up"]
  | down => ["ArrowDown", "Down"]
  | home => ["Home"]
  | endKey => ["End"]
  | pageUp => ["PageUp"]
  | pageDown => ["PageDown"]
  | insert => ["Insert"]
  | function _ => []
  | modifier => ["Shift", "Control", "Alt", "Meta", "CapsLock", "AltGraph"]

/-- what may stand between the `F` and the numeral of a function key -/
def Filler (s : Text) : Prop := ∃ z, s = zeros z ∨ s = '+' :: zeros z

/-- the names of keys -/
inductive Spells : Text → Key → Prop
  | single (c : Char) : Spells [c] (char c)
  | word {k : Key} {s : String} (h : s ∈ k.spellings) : Spells s.toList k
  | numbered {n : Nat} {s : Text} (hlow : 1 ≤ n) (hhigh : n ≤ 24) (hs : Filler s) :
      Spells ('F' :: (s ++ numeral n)) (function n)

theorem mem_spellings_of_mem_named : ∀ e ∈ named, e.1 ∈ e.2.spellings := by decide

theorem head?_of_mem_named : ∀ e ∈ named, e.1.toList.head? ≠ some 'F' := by decide

theorem ofName?_of_mem_spellings {k : Key} {s : String} (h : s ∈ k.spellings) :
    ofName? s.toList = some k := by
  cases k with
  | char c =>
    by_cases hc : c = ' '
    · subst hc
      rw [List.mem_singleton.mp h]
      rfl
    · simp only [spellings, if_neg hc, List.not_mem_nil] at h
  | function n => cases h
  | _ =>
    simp only [spellings, List.mem_cons, List.not_mem_nil, or_false] at h
    rcases h with rfl | rfl | rfl | rfl | rfl | rfl <;> rfl

/-! ## Function keys -/

theorem readNumeral?_filler {limit n : Nat} {s : Text} :
    readNumeral? limit s = some n ↔ n ≤ limit ∧ ∃ f, Filler f ∧ s = f ++ numeral n := by
  rw [readNumeral?_eq_some_iff]
  constructor
  · rintro ⟨hle, ds, hs, hne, hds, rfl⟩
    obtain ⟨z, hz⟩ := exists_zeros_numeral hds hne
    refine ⟨hle, ?_⟩
    obtain rfl | rfl := hs
    · exact ⟨zeros z, ⟨z, .inl rfl⟩, hz⟩
    · exact ⟨'+' :: zeros z, ⟨z, .inr rfl⟩, congrArg _ hz⟩
  · rintro ⟨hle, f, ⟨z, hz⟩, rfl⟩
    have hvalue : digitsValue (zeros z ++ numeral n) = n := by
      show continued 0 (zeros z ++ numeral n) = n
      rw [continued_append, continued_zeros, Nat.zero_mul, continued_numeral]
    have hdigits : AllDigits (zeros z ++ numeral n) :=
      (allDigits_zeros z).append (allDigits_numeral n)
    refine ⟨hle, zeros z ++ numeral n, ?_, ?_, hdigits, hvalue⟩
    · obtain rfl | rfl := hz
      · exact .inl rfl
      · exact .inr rfl
    · exact fun hnil => numeral_ne_nil n (List.append_eq_nil_iff.mp hnil).2

theorem functionKey?_eq_some_iff {w : Text} {k : Key} :
    functionKey? w = some k ↔
      ∃ n f, 1 ≤ n ∧ n ≤ 24 ∧ Filler f ∧ w = 'F' :: (f ++ numeral n) ∧ k = function n := by
  constructor
  · intro h
    unfold functionKey? at h
    split at h
    · obtain ⟨n, hn, rfl⟩ := Option.map_eq_some_iff.mp h
      obtain ⟨hread, hlow⟩ := Option.filter_eq_some_iff.mp hn
      obtain ⟨hhigh, f, hf, rfl⟩ := readNumeral?_filler.mp hread
      exact ⟨n, f, of_decide_eq_true hlow, hhigh, hf, rfl, rfl⟩
    · cases h
  · rintro ⟨n, f, hlow, hhigh, hf, rfl, rfl⟩
    have hread := readNumeral?_filler.mpr ⟨hhigh, f, hf, rfl⟩
    show ((readNumeral? 24 (f ++ numeral n)).filter (1 ≤ ·)).map function = some (function n)
    rw [hread, Option.filter_some, if_pos (decide_eq_true hlow), Option.map_some]

/-! ## All names -/

theorem ofName?_eq_some_iff {w : Text} {k : Key} : ofName? w = some k ↔ Spells w k := by
  constructor
  · intro h
    unfold ofName? at h
    split at h
    · cases h
      exact .single _
    · split at h
      · rename_i e he
        cases h
        have hfound := List.find?_some he
        rw [← of_decide_eq_true hfound]
        exact .word (mem_spellings_of_mem_named e (List.mem_of_find?_eq_some he))
      · obtain ⟨n, f, hlow, hhigh, hf, rfl, rfl⟩ := functionKey?_eq_some_iff.mp h
        exact .numbered hlow hhigh hf
  · intro h
    cases h with
    | single c => rfl
    | word hs => exact ofName?_of_mem_spellings hs
    | @numbered n s hlow hhigh hs =>
      unfold ofName?
      split
      · rename_i heq
        have hnil := (List.cons.inj heq).2
        exact absurd (List.append_eq_nil_iff.mp hnil).2 (numeral_ne_nil n)
      · split
        · rename_i e he
          have hfound := List.find?_some he
          have hhead := head?_of_mem_named e (List.mem_of_find?_eq_some he)
          rw [of_decide_eq_true hfound] at hhead
          exact absurd rfl hhead
        · exact functionKey?_eq_some_iff.mpr ⟨n, s, hlow, hhigh, hs, rfl, rfl⟩

/-- Which names mean a character, which a function key, which another key, and which no key. -/
theorem ofName?_spells (w : Text) :
    (∀ c, ofName? w = some (char c) ↔ w = [c] ∨ (w = "Spacebar".toList ∧ c = ' ')) ∧
    (∀ n, ofName? w = some (function n) ↔
      1 ≤ n ∧ n ≤ 24 ∧ ∃ f, Filler f ∧ w = 'F' :: (f ++ numeral n)) ∧
    (∀ k, (∀ c, k ≠ char c) → (∀ n, k ≠ function n) →
      (ofName? w = some k ↔ ∃ s ∈ k.spellings, w = s.toList)) ∧
    (ofName? w = none ↔ ∀ k, ¬ Spells w k) := by
  refine ⟨?_, ?_, ?_, ?_⟩
  · intro c
    rw [ofName?_eq_some_iff]
    constructor
    · intro h
      cases h with
      | single => exact .inl rfl
      | word hs =>
        by_cases hc : c = ' '
        · subst hc
          rw [List.mem_singleton.mp hs]
          exact .inr ⟨rfl, rfl⟩
        · simp only [spellings, if_neg hc, List.not_mem_nil] at hs
    · rintro (rfl | ⟨rfl, rfl⟩)
      · exact .single c
      · exact .word (List.mem_singleton_self "Spacebar")
  · intro n
    rw [ofName?_eq_some_iff]
    constructor
    · intro h
      cases h with
      | word hs => cases hs
      | numbered hlow hhigh hs => exact ⟨hlow, hhigh, _, hs, rfl⟩
    · rintro ⟨hlow, hhigh, f, hf, rfl⟩
      exact .numbered hlow hhigh hf
  · intro k hchar hfunction
    rw [ofName?_eq_some_iff]
    constructor
    · intro h
      cases h with
      | single c => exact absurd rfl (hchar c)
      | word hs => exact ⟨_, hs, rfl⟩
      | numbered => exact absurd rfl (hfunction _)
    · rintro ⟨s, hs, rfl⟩
      exact .word hs
  · rw [Option.eq_none_iff_forall_ne_some]
    exact forall_congr' fun k => not_congr ofName?_eq_some_iff

/-- It is not so that only an `F` with a numeral behind it means a function key: `F+1` does too. -/
theorem ofName?_not_canonical :
    ¬ ∀ w n, ofName? w = some (function n) ↔ 1 ≤ n ∧ n ≤ 24 ∧ w = 'F' :: numeral n := by
  intro h
  have hplus : ofName? "F+1".toList = some (function 1) := rfl
  exact absurd ((h _ 1).mp hplus).2.2 (by decide)

end LineEditor.Key
