import CallFlow.Proofs.Json.Reading

/-!
# The beginning of a text

The tokens of a text begin with the tokens of its beginning, except perhaps for the last of these: a
number, a word or a string literal may not have come to its end yet. A bracket always has.

## Main statements

- `CallFlow.Json.StringLit.scan_append`, `CallFlow.Json.Number.scan_append` — a lexeme with something
  after it stays as it is when the text goes on
- `CallFlow.Json.Token.all_append` — the tokens of a text and of its beginning
-/

namespace CallFlow.Json

/-! ## Lexemes -/

theorem ne_nil_of_length_le {cs rest : List Char} (h : rest.length ≤ cs.length)
    (hrest : rest ≠ []) : cs ≠ [] :=
  List.length_pos_iff.mp (Nat.lt_of_lt_of_le (List.length_pos_iff.mpr hrest) h)

theorem digits_append {cs rest : List Char} {ns : List (Fin 10)} (h : digits cs = (ns, rest))
    (hrest : rest ≠ []) (ds : List Char) : digits (cs ++ ds) = (ns, rest ++ ds) := by
  fun_induction digits cs generalizing ns with
  | case1 =>
    cases h
    exact absurd rfl hrest
  | case2 c cs hc =>
    cases h
    rw [List.cons_append, digits, hc]
  | case3 c cs d hd ih =>
    cases h
    rw [List.cons_append, digits, hd, ih rfl]

namespace Number

variable {cs rest : List Char}

theorem scanFraction_append {fraction : List (Fin 10)} (h : scanFraction cs = .ok (fraction, rest))
    (hrest : rest ≠ []) (ds : List Char) :
    scanFraction (cs ++ ds) = .ok (fraction, rest ++ ds) := by
  unfold scanFraction at h
  split at h
  · rename_i cs
    split at h
    · cases h
    · rename_i hne hdigits
      cases h
      rw [List.cons_append, scanFraction, digits_append hdigits hrest]
      obtain ⟨d, fraction, rfl⟩ := List.exists_cons_of_ne_nil hne
      rfl
  · rename_i hpoint
    cases h
    obtain ⟨c, cs, rfl⟩ := List.exists_cons_of_ne_nil hrest
    rw [List.cons_append, scanFraction]
    intro cs' heq
    cases heq
    exact hpoint cs rfl

theorem scanSign_append (hcs : cs ≠ []) (ds : List Char) :
    scanSign (cs ++ ds) = ((scanSign cs).1, (scanSign cs).2 ++ ds) := by
  obtain ⟨c, cs, rfl⟩ := List.exists_cons_of_ne_nil hcs
  rw [List.cons_append, scanSign.eq_def, scanSign.eq_def (c :: cs)]
  split <;> simp_all

theorem scanPower_append {e : Int} (h : scanPower cs = .ok (e, rest)) (hrest : rest ≠ [])
    (ds : List Char) : scanPower (cs ++ ds) = .ok (e, rest ++ ds) := by
  have hcs : cs ≠ [] := by
    rintro rfl
    cases h
  unfold scanPower at h ⊢
  rw [scanSign_append hcs]
  split at h
  · cases h
  · rename_i hne hdigits
    cases h
    dsimp only
    rw [digits_append hdigits hrest]
    obtain ⟨d, power, rfl⟩ := List.exists_cons_of_ne_nil hne
    rfl

theorem scanExponent_append {e : Option Int} (h : scanExponent cs = .ok (e, rest))
    (hrest : rest ≠ []) (ds : List Char) :
    scanExponent (cs ++ ds) = .ok (e, rest ++ ds) := by
  have hpower : ∀ cs : List Char,
      (scanPower cs).map (fun p => (some p.1, p.2)) = .ok (e, rest) →
        (scanPower (cs ++ ds)).map (fun p => (some p.1, p.2)) = .ok (e, rest ++ ds) := by
    intro cs hmap
    cases hp : scanPower cs with
    | error d => rw [hp] at hmap; cases hmap
    | ok p =>
      rw [hp] at hmap
      cases hmap
      rw [scanPower_append hp hrest]
      rfl
  unfold scanExponent at h
  split at h
  · exact hpower _ h
  · exact hpower _ h
  · rename_i hlower hupper
    cases h
    obtain ⟨c, cs, rfl⟩ := List.exists_cons_of_ne_nil hrest
    rw [List.cons_append, scanExponent]
    · rintro cs' heq
      cases heq
      exact hlower cs rfl
    · rintro cs' heq
      cases heq
      exact hupper cs rfl

/-- A number with something after it stays as it is. -/
theorem scan_append {negative : Bool} {n : Number} (h : scan negative cs = .ok (n, rest))
    (hrest : rest ≠ []) (ds : List Char) :
    scan negative (cs ++ ds) = .ok (n, rest ++ ds) := by
  unfold scan at h
  split at h
  · cases h
  · rename_i d whole afterWhole hdigits
    split at h
    · cases h
    · rename_i hzero
      cases hfraction : scanFraction afterWhole with
      | error => rw [hfraction] at h; cases h
      | ok f =>
        rw [hfraction] at h
        cases hexponent : scanExponent f.2 with
        | error => simp [bind, Except.bind, hexponent] at h
        | ok e =>
          simp only [bind, Except.bind, hexponent, pure, Except.pure] at h
          cases h
          -- Something is left at the end, so something was left after every part.
          have hne₂ : f.2 ≠ [] := ne_nil_of_length_le (scanExponent_length_le hexponent) hrest
          have hne₁ : afterWhole ≠ [] := ne_nil_of_length_le (scanFraction_length_le hfraction) hne₂
          rw [scan, digits_append hdigits hne₁]
          simp only [if_neg hzero, scanFraction_append hfraction hne₂,
            scanExponent_append hexponent hrest, bind, Except.bind, pure, Except.pure]

end Number

namespace StringLit

theorem scan_escape {c e : Char} (he : escaped? c = some e) (cs : List Char) :
    scan ('\\' :: c :: cs) = push (.char e) (scan cs) := by
  have hc : c ≠ 'u' := by
    rintro rfl
    cases he
  rw [scan, he]
  · rintro a b c d cs rfl
    contradiction
  · exact hc

/-- Nothing is left after a literal without its closing quote, so one with something after it is
    closed. -/
theorem scan_append {cs : List Char} (h : (scan cs).2 ≠ []) (ds : List Char) :
    scan (cs ++ ds) = ((scan cs).1, (scan cs).2 ++ ds) := by
  fun_induction scan cs with
  | case1 => exact absurd rfl h
  | case2 cs => rfl
  | case3 a b c d cs n hn ih =>
    simp [scan, hn, ih h, push]
  | case4 => exact absurd rfl h
  | case5 => exact absurd rfl h
  | case6 => exact absurd rfl h
  | case7 c cs _ _ e he ih =>
    rw [List.cons_append, List.cons_append, scan_escape he, ih h]
    rfl
  | case8 => exact absurd rfl h
  | case9 => exact absurd rfl h
  | case10 c cs hquote _ _ hlast hmore hc ih =>
    have hback : c ≠ '\\' := by
      rintro rfl
      cases cs with
      | nil => exact hlast rfl rfl
      | cons c cs => exact hmore c cs rfl rfl
    rw [List.cons_append, scan_plain hquote hback hc, ih h]
    rfl

end StringLit

namespace Token

theorem scanWord_append {ws cs rest : List Char} (h : scanWord ws cs = .ok rest) (ds : List Char) :
    scanWord ws (cs ++ ds) = .ok (rest ++ ds) := by
  fun_induction scanWord ws cs with
  | case1 cs => cases h; rfl
  | case2 => cases h
  | case3 w ws cs ih => rw [List.cons_append, scanWord, if_pos rfl, ih h]
  | case4 => cases h

theorem word_append (t : Token) {letters cs : List Char} (h : (word t letters cs).2 ≠ [])
    (ds : List Char) :
    word t letters (cs ++ ds) = ((word t letters cs).1, (word t letters cs).2 ++ ds) := by
  unfold word at h ⊢
  split at h
  · rename_i rest hscan
    rw [scanWord_append hscan]
  · exact absurd rfl h

theorem numeral_append {negative : Bool} {cs : List Char} (h : (numeral negative cs).2 ≠ [])
    (ds : List Char) :
    numeral negative (cs ++ ds) = ((numeral negative cs).1, (numeral negative cs).2 ++ ds) := by
  unfold numeral at h ⊢
  split at h
  · rename_i n rest hscan
    rw [Number.scan_append hscan h]
  · exact absurd rfl h

/-! ## Tokens -/

/-- How much deeper a token leads. -/
def weight : Token → Int
  | openArray => 1
  | closeArray => -1
  | openObject => 1
  | closeObject => -1
  | _ => 0

theorem weight_word {t : Token} (ht : t.weight = 0) (letters cs : List Char) :
    (word t letters cs).1.weight = 0 := by
  unfold word
  split
  · exact ht
  · rfl

theorem weight_numeral (negative : Bool) (cs : List Char) :
    (numeral negative cs).1.weight = 0 := by
  unfold numeral
  split <;> rfl

/-- The token `now` is the token `later` when the text goes on with `ds`, or it is the last one and
    no bracket. -/
def KeptOrLast (ds : List Char) (now later : Token × List Char) : Prop :=
  later = (now.1, now.2 ++ ds) ∨ now.2 = [] ∧ now.1.weight = 0

theorem KeptOrLast.of_append {ds : List Char} {now later : Token × List Char}
    (happend : now.2 ≠ [] → later = (now.1, now.2 ++ ds)) (hweight : now.1.weight = 0) :
    KeptOrLast ds now later := by
  by_cases hrest : now.2 = []
  · exact .inr ⟨hrest, hweight⟩
  · exact .inl (happend hrest)

theorem keptOrLast_start (c : Char) (cs ds : List Char) :
    KeptOrLast ds (start c cs) (start c (cs ++ ds)) := by
  unfold start
  split
  case h_7 =>
    refine .of_append (fun h => ?_) rfl
    rw [StringLit.scan_append h]
  case h_8 => exact .of_append (word_append _ · ds) (weight_word rfl _ cs)
  case h_9 => exact .of_append (word_append _ · ds) (weight_word rfl _ cs)
  case h_10 => exact .of_append (word_append _ · ds) (weight_word rfl _ cs)
  case h_11 => exact .of_append (numeral_append · ds) (weight_numeral true cs)
  case h_12 =>
    split
    · exact .of_append (numeral_append · ds) (weight_numeral false _)
    · exact .inr ⟨rfl, rfl⟩
  -- Brackets, commas and colons are one character long.
  all_goals exact .inl rfl

/-- The tokens of a beginning are the first tokens of the text. Only in the place of the last one may
    there be another token, and then that one is no bracket. -/
theorem all_append (cs ds : List Char) :
    all (cs ++ ds) = all cs ++ all ds ∨
      ∃ ts t u us, all cs = ts ++ [t] ∧ t.weight = 0 ∧ all (cs ++ ds) = ts ++ u :: us := by
  match cs with
  | [] =>
    rw [all_nil]
    exact .inl rfl
  | c :: cs =>
    rw [List.cons_append]
    cases hc : isSpace c with
    | true =>
      rw [all_space hc, all_space hc]
      exact all_append cs ds
    | false =>
      rw [all_start hc, all_start hc]
      rcases keptOrLast_start c cs ds with hkept | ⟨hrest, hweight⟩
      · rw [hkept]
        rcases all_append (start c cs).2 ds with hall | ⟨ts, t, u, us, hts, ht, hus⟩
        · exact .inl (by rw [hall, List.cons_append])
        · exact .inr ⟨(start c cs).1 :: ts, t, u, us, by rw [hts, List.cons_append], ht,
            by rw [hus, List.cons_append]⟩
      · -- Nothing follows the token yet, and another one may begin in its place.
        rw [hrest, all_nil]
        exact .inr ⟨[], (start c cs).1, _, _, rfl, hweight, rfl⟩
termination_by cs.length
decreasing_by
  · exact Nat.lt_succ_of_le (start_length_le c cs)
  · exact Nat.lt_succ_self _

theorem all_ne_nil_of_mem {c : Char} {cs : List Char} (hmem : c ∈ cs) (hc : isSpace c = false) :
    all cs ≠ [] := by
  induction cs with
  | nil => cases hmem
  | cons first cs ih =>
    cases hfirst : isSpace first with
    | false =>
      rw [all_start hfirst]
      exact List.cons_ne_nil _ _
    | true =>
      rw [all_space hfirst]
      rcases List.mem_cons.mp hmem with rfl | hmem
      · rw [hc] at hfirst
        cases hfirst
      · exact ih hmem

end Token

end CallFlow.Json
