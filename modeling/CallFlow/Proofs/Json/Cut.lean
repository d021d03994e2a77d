import CallFlow.Proofs.Json.Beginning

/-!
# Texts that are cut short

The text of an object that is cut short anywhere is not read as an object that is complete. The
brackets tell: what is read as a complete object has as many closing brackets as opening ones, but
within the text of an object more of them have been opened than closed, up to the last character.

## Main definitions

- `CallFlow.Json.depth` — how many brackets are open after a list of tokens

## Main statements

- `CallFlow.Json.endsAt_tokens` — the brackets of a value
- `CallFlow.Json.readValue_spends` — the brackets of what is read
- `CallFlow.Json.ofText_ne_of_cut` — the text of an object that is cut short
-/

namespace CallFlow.Json

/-! ## The brackets of a value -/

/-- How many brackets are open after the tokens, counted from where they begin. -/
def depth : List Token → Int
  | [] => 0
  | t :: ts => t.weight + depth ts

@[simp] theorem depth_nil : depth [] = 0 :=
  rfl

@[simp] theorem depth_cons (t : Token) (ts : List Token) : depth (t :: ts) = t.weight + depth ts :=
  rfl

@[simp] theorem depth_append (ts us : List Token) : depth (ts ++ us) = depth ts + depth us := by
  induction ts with
  | nil => rw [List.nil_append, depth_nil, Int.zero_add]
  | cons t ts ih => rw [List.cons_append, depth_cons, depth_cons, ih, Int.add_assoc]

/-- The tokens end at the depth `d`, and do not go below their beginning before the last one. -/
structure EndsAt (d : Int) (ts : List Token) : Prop where
  depth_eq : depth ts = d
  above : ∀ front rest, ts = front ++ rest → rest ≠ [] → 0 ≤ depth front

namespace EndsAt

variable {d : Int} {t : Token} {ts us : List Token}

theorem single (t : Token) : EndsAt t.weight [t] where
  depth_eq := by simp
  above := by
    intro front rest h hrest
    rcases List.append_eq_singleton_iff.mp h.symm with ⟨rfl, -⟩ | ⟨-, rfl⟩
    · exact Int.le_refl 0
    · exact absurd rfl hrest

theorem append (hts : EndsAt 0 ts) (hus : EndsAt d us) : EndsAt d (ts ++ us) where
  depth_eq := by rw [depth_append, hts.depth_eq, hus.depth_eq, Int.zero_add]
  above := by
    intro front rest h hrest
    rcases List.append_eq_append_iff.mp h with ⟨middle, rfl, hmiddle⟩ | ⟨middle, rfl, hmiddle⟩
    · rw [depth_append, hts.depth_eq, Int.zero_add]
      exact hus.above middle rest hmiddle hrest
    · cases middle with
      | nil =>
        rw [List.append_nil] at hts
        exact Int.le_of_eq hts.depth_eq.symm
      | cons u middle => exact hts.above front (u :: middle) rfl (List.cons_ne_nil _ _)

/-- After an opening bracket and before the closing one, something is open. -/
theorem pos_of_open (ht : t.weight = 1) (h : EndsAt (-1) ts) {front rest : List Token}
    (heq : t :: ts = front ++ rest) (hfront : front ≠ []) (hrest : rest ≠ []) :
    0 < depth front := by
  obtain ⟨first, front, rfl⟩ := List.exists_cons_of_ne_nil hfront
  obtain ⟨rfl, rfl⟩ := List.cons.inj heq
  have habove := h.above front rest rfl hrest
  rw [depth_cons, ht]
  omega

theorem brackets (ht : t.weight = 1) (h : EndsAt (-1) ts) : EndsAt 0 (t :: ts) where
  depth_eq := by rw [depth_cons, ht, h.depth_eq]; rfl
  above := by
    intro front rest heq hrest
    by_cases hfront : front = []
    · exact Int.le_of_eq (by rw [hfront, depth_nil])
    · exact Int.le_of_lt (pos_of_open ht h heq hfront hrest)

end EndsAt

mutual

/-- The tokens of a value close every bracket that they open. -/
theorem endsAt_tokens (j : Json) : EndsAt 0 j.tokens := by
  match j with
  | null => exact .single .null
  | bool b => exact .single (.bool b)
  | number n => exact .single (.number n)
  | string s => exact .single (.string (.ofString s))
  | array [] =>
    rw [tokens]
    exact .brackets rfl (.single .closeArray)
  | array (j :: js) =>
    rw [tokens]
    exact .brackets rfl (.append (endsAt_tokens j) (endsAt_itemTokens js))
  | object ms =>
    obtain ⟨body, hbody, hends⟩ := exists_body_tokens ms
    rw [hbody]
    exact .brackets rfl hends
termination_by sizeOf j

theorem endsAt_itemTokens (js : List Json) : EndsAt (-1) (itemTokens js) := by
  match js with
  | [] =>
    rw [itemTokens]
    exact .single .closeArray
  | j :: js =>
    rw [itemTokens]
    exact .append (.single .comma) (.append (endsAt_tokens j) (endsAt_itemTokens js))
termination_by sizeOf js

theorem exists_body_tokens (ms : List (String × Json)) :
    ∃ body, (object ms).tokens = .openObject :: body ∧ EndsAt (-1) body := by
  match ms with
  | [] => exact ⟨_, by rw [tokens], .single .closeObject⟩
  | (k, v) :: ms =>
    refine ⟨_, by rw [tokens], ?_⟩
    exact .append (.single (.string (.ofString k)))
      (.append (.single .colon) (.append (endsAt_tokens v) (endsAt_memberTokens ms)))
termination_by sizeOf ms

theorem endsAt_memberTokens (ms : List (String × Json)) : EndsAt (-1) (memberTokens ms) := by
  match ms with
  | [] =>
    rw [memberTokens]
    exact .single .closeObject
  | (k, v) :: ms =>
    rw [memberTokens]
    exact .append (.single .comma) (.append (.single (.string (.ofString k)))
      (.append (.single .colon) (.append (endsAt_tokens v) (endsAt_memberTokens ms))))
termination_by sizeOf ms

end

/-! ## The brackets of what is read -/

/-- What is read from the token `t` on, up to `rest`, changes the depth by `d`. -/
def Spends (d : Int) (t : Token) (ts rest : List Token) : Prop :=
  ∃ used, ts = used ++ rest ∧ depth (t :: used) = d

theorem spends_single (t : Token) (ts : List Token) : Spends t.weight t ts ts :=
  ⟨[], rfl, by simp⟩

theorem Spends.trans {d d' : Int} {t u : Token} {ts us rest : List Token}
    (h : Spends d t ts (u :: us)) (h' : Spends d' u us rest) : Spends (d + d') t ts rest := by
  obtain ⟨used, rfl, rfl⟩ := h
  obtain ⟨used', rfl, rfl⟩ := h'
  refine ⟨used ++ u :: used', by simp, ?_⟩
  rw [← List.cons_append, depth_append]

open Draft

mutual

/-- What is read as a value closes all brackets that it opens, unless the tokens come to an end
    before it does. -/
theorem readValue_spends (t : Token) (ts : List Token) :
    Spends 0 t ts (readValue t ts).rest ∨
      (readValue t ts).rest = [] ∧ ∀ members, (readValue t ts).got ≠ .object members .closed := by
  rw [readValue.eq_def]
  split
  -- Brackets are closed at once, or by the reader of what is between them.
  case h_7 us => exact .inl (.trans (spends_single .openArray _) (spends_single .closeArray us))
  case h_8 u us _ =>
    rcases readItems_spends u us with ⟨-, h⟩ | ⟨h, -⟩
    · exact .inl (.trans (spends_single .openArray _) h)
    · exact .inr ⟨h, fun _ => Draft.noConfusion⟩
  case h_10 us => exact .inl (.trans (spends_single .openObject _) (spends_single .closeObject us))
  case h_11 u us _ =>
    rcases readMembers_spends u us with ⟨-, h⟩ | ⟨h, hstop⟩
    · exact .inl (.trans (spends_single .openObject _) h)
    · exact .inr ⟨h, fun _ hgot => hstop (Draft.object.inj hgot).2⟩
  -- The tokens end after an opening bracket, or they begin with none that a value begins with.
  case h_6 => exact .inr ⟨rfl, by simp⟩
  case h_9 => exact .inr ⟨rfl, by simp⟩
  case h_12 => exact .inr ⟨rfl, by simp⟩
  all_goals exact .inl (spends_single _ _)
termination_by 2 * ts.length

theorem readItems_spends (t : Token) (ts : List Token) :
    (readItems t ts).got.2 = .closed ∧ Spends (-1) t ts (readItems t ts).rest ∨
      (readItems t ts).rest = [] ∧ (readItems t ts).got.2 ≠ .closed := by
  -- Where tokens are left, the value has come to its end.
  have hvalue : (readValue t ts).rest ≠ [] → Spends 0 t ts (readValue t ts).rest := by
    intro hrest
    exact (readValue_spends t ts).resolve_right (hrest ·.1)
  rw [readItems.eq_def t ts]
  dsimp only
  split
  case h_2 us hr =>
    rw [hr] at hvalue
    exact .inl ⟨rfl, .trans (hvalue (List.cons_ne_nil _ _)) (spends_single .closeArray us)⟩
  case h_5 u us _ hr =>
    have hus : us.length + 2 ≤ ts.length := (readValue t ts).le_of_rest hr
    rw [hr] at hvalue
    have hcomma : Spends 0 t ts (u :: us) :=
      .trans (hvalue (List.cons_ne_nil _ _)) (spends_single .comma (u :: us))
    rcases readItems_spends u us with ⟨hstop, h⟩ | hcut
    · exact .inl ⟨hstop, hcomma.trans h⟩
    · exact .inr hcut
  all_goals exact .inr ⟨rfl, by simp⟩
termination_by 2 * ts.length + 1

theorem readMembers_spends (t : Token) (ts : List Token) :
    (readMembers t ts).got.2 = .closed ∧ Spends (-1) t ts (readMembers t ts).rest ∨
      (readMembers t ts).rest = [] ∧ (readMembers t ts).got.2 ≠ .closed := by
  rw [readMembers.eq_def t ts]
  dsimp only
  split
  case h_3 k v vs =>
    have hvalue : (readValue v vs).rest ≠ [] →
        Spends 0 (.string k) (.colon :: v :: vs) (readValue v vs).rest := by
      intro hrest
      exact .trans (.trans (spends_single (.string k) _) (spends_single .colon _))
        ((readValue_spends v vs).resolve_right (hrest ·.1))
    split
    case h_2 us hr =>
      rw [hr] at hvalue
      exact .inl ⟨rfl, .trans (hvalue (List.cons_ne_nil _ _)) (spends_single .closeObject us)⟩
    case h_5 u us _ hr =>
      have hus : us.length + 2 ≤ vs.length := (readValue v vs).le_of_rest hr
      rw [hr] at hvalue
      have hcomma : Spends 0 (.string k) (.colon :: v :: vs) (u :: us) :=
        .trans (hvalue (List.cons_ne_nil _ _)) (spends_single .comma (u :: us))
      rcases readMembers_spends u us with ⟨hstop, h⟩ | hcut
      · exact .inl ⟨hstop, hcomma.trans h⟩
      · exact .inr hcut
    all_goals exact .inr ⟨rfl, by simp⟩
  all_goals exact .inr ⟨rfl, by simp⟩
termination_by 2 * ts.length + 1
decreasing_by
  all_goals
    subst_vars
    simp only [List.length_cons]
    omega

end

/-! ## Cut texts -/

/-- Every beginning of the tokens but the empty one leaves something open. -/
def Unfinished (ts : List Token) : Prop :=
  ∀ front rest, ts = front ++ rest → front ≠ [] → 0 < depth front

namespace Unfinished

variable {ts us : List Token}

theorem of_object {ms : List (String × Json)} (h : (object ms).tokens = ts ++ us) (hus : us ≠ []) :
    Unfinished ts := by
  intro front rest hfront hne
  obtain ⟨body, hbody, hends⟩ := exists_body_tokens ms
  have heq : .openObject :: body = front ++ (rest ++ us) := by
    rw [← hbody, h, hfront, List.append_assoc]
  exact EndsAt.pos_of_open (by rfl) hends heq hne (by simp [hus])

theorem concat (h : Unfinished ts) (hts : ts ≠ []) {t : Token} (ht : t.weight = 0) :
    Unfinished (ts ++ [t]) := by
  intro front rest heq hne
  rcases List.eq_nil_or_concat rest with rfl | ⟨rest, last, rfl⟩
  · have hts := h ts [] (List.append_nil ts).symm hts
    rw [List.append_nil] at heq
    rw [← heq, depth_append, depth_cons, ht]
    simpa using hts
  · refine h front rest ?_ hne
    rw [List.concat_eq_append, ← List.append_assoc] at heq
    exact List.append_inj_left' heq rfl

theorem ofTokens_ne (h : Unfinished ts) (members : List (StringLit × Draft)) :
    (ofTokens ts).1 ≠ .object members .closed := by
  cases ts with
  | nil => exact Draft.noConfusion
  | cons t ts =>
    rcases readValue_spends t ts with ⟨used, hused, hdepth⟩ | ⟨-, hgot⟩
    · have hpos := h (t :: used) _ (congrArg (t :: ·) hused) (List.cons_ne_nil _ _)
      omega
    · exact hgot members

end Unfinished

theorem ofTokens_single_ne (t : Token) (members : List (StringLit × Draft)) :
    (ofTokens [t]).1 ≠ .object members .closed := by
  show (readValue t []).got ≠ _
  cases t <;> simp [readValue]

theorem getLast?_renderMembers (style : Style) (level : Nat) (ms : List (String × Json)) :
    (renderMembers style level ms).getLast? = some '}' := by
  induction ms with
  | nil => simp [renderMembers]
  | cons m ms ih =>
    rw [renderMembers, List.getLast?_append, ih]
    rfl

theorem getLast?_render_object (style : Style) (level : Nat) (ms : List (String × Json)) :
    (render style level (object ms)).getLast? = some '}' := by
  cases ms with
  | nil => rfl
  | cons m ms =>
    rw [render, List.getLast?_append, getLast?_renderMembers]
    rfl

/-- The text of an object that is cut short is not read as a complete object. -/
theorem ofText_ne_of_cut {style : Style} {ms : List (String × Json)} {front rest : List Char}
    (h : render style 0 (object ms) = front ++ rest) (hrest : rest ≠ [])
    (members : List (StringLit × Draft)) :
    (ofText (String.ofList front)).1 ≠ .object members .closed := by
  have hall : Token.all (front ++ rest) = (object ms).tokens := by
    rw [← h]
    have htext := isText_render style (object ms)
    rwa [IsText, String.toList_ofList] at htext
  rw [ofText, String.toList_ofList]
  rcases Token.all_append front rest with happend | ⟨ts, t, u, us, hfront, ht, hus⟩
  · -- The closing brace is among the characters that are missing, so its token is missing too.
    have hbrace : '}' ∈ rest := by
      have hlast := getLast?_render_object style 0 ms
      obtain ⟨missing, last, rfl⟩ := (List.eq_nil_or_concat rest).resolve_left hrest
      rw [h, List.concat_eq_append, ← List.append_assoc, List.getLast?_concat] at hlast
      cases hlast
      simp
    have hne := Token.all_ne_nil_of_mem hbrace (by decide)
    exact (Unfinished.of_object (hall.symm.trans happend) hne).ofTokens_ne members
  · -- The cut goes through a token. All tokens before it are there.
    rw [hfront]
    cases ts with
    | nil => exact ofTokens_single_ne t members
    | cons first ts =>
      have hts : Unfinished (first :: ts) :=
        .of_object (hall.symm.trans hus) (List.cons_ne_nil u us)
      exact (hts.concat (List.cons_ne_nil first ts) ht).ofTokens_ne members

end CallFlow.Json
