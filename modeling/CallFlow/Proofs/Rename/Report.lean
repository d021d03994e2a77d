import CallFlow.Proofs.Rename.Reach

/-!
# What a rename reports

A rename is one walk over the steps after a position, which ends with the first call that binds the
old name again. The report says where the walk ended and how many references it changed. Both can be
said without the walk: the position is the least one above the given one at which the old name is
bound, and the count is that of the references to the old name, as they were before, in the calls up
to there.

## Main definitions

- `CallFlow.FirstRebinds` — the first call after a position that binds a name
- `CallFlow.Within` — the positions between one and another, the other one included
- `CallFlow.argumentsWithin` — the arguments of the calls at some positions

## Main statements

- `CallFlow.report_renameFrom_cons` — what one step adds to the report
- `CallFlow.shadowedAt_renameAfter_eq_some_iff`, `CallFlow.changed_renameAfter` — the report
- `CallFlow.renameAfter_rewrites_window` — the report and the steps
-/

namespace CallFlow

/-- The first position after another one at which a name is bound. Only calls bind names. -/
structure FirstRebinds (steps : List Step) (index : Nat) (name : String) (position : Nat) :
    Prop where
  above : index < position
  binds : outputNameAt steps position = some name
  least : ∀ k, index < k → k < position → outputNameAt steps k ≠ some name

/-- The positions after `index`, up to and including `stop` if there is one. -/
def Within (index : Nat) (stop : Option Nat) (position : Nat) : Prop :=
  index < position ∧ ∀ s ∈ stop, position ≤ s

instance (index : Nat) (stop : Option Nat) (position : Nat) :
    Decidable (Within index stop position) :=
  inferInstanceAs (Decidable (_ ∧ _))

/-- The arguments of a step if it is a call. -/
def Step.callArguments : Step → List Argument
  | call c => c.arguments
  | ret _ => []

/-- The arguments of the calls at the positions that pass a test. -/
def argumentsWithin (test : Nat → Prop) [DecidablePred test] (located : List (Step × Nat)) :
    List Argument :=
  (located.filter fun l => test l.2).flatMap fun l => l.1.callArguments

section ArgumentsWithin

variable {test test' : Nat → Prop} [DecidablePred test] [DecidablePred test']
  {located : List (Step × Nat)}

theorem argumentsWithin_append (located' : List (Step × Nat)) :
    argumentsWithin test (located ++ located') =
      argumentsWithin test located ++ argumentsWithin test located' := by
  rw [argumentsWithin, List.filter_append, List.flatMap_append, argumentsWithin, argumentsWithin]

theorem argumentsWithin_cons_of_pos {s : Step} {p : Nat} (h : test p) :
    argumentsWithin test ((s, p) :: located) = s.callArguments ++ argumentsWithin test located := by
  rw [argumentsWithin, List.filter_cons_of_pos (by simpa using h), List.flatMap_cons,
    argumentsWithin]

theorem argumentsWithin_eq_nil (h : ∀ l ∈ located, ¬test l.2) : argumentsWithin test located = [] := by
  have hfilter : located.filter (fun l => test l.2) = [] := by
    simpa [List.filter_eq_nil_iff] using h
  rw [argumentsWithin, hfilter, List.flatMap_nil]

theorem argumentsWithin_congr (h : ∀ l ∈ located, test l.2 ↔ test' l.2) :
    argumentsWithin test located = argumentsWithin test' located := by
  have hfilter : located.filter (fun l => test l.2) = located.filter (fun l => test' l.2) :=
    List.filter_congr fun l hl => by simp only [h l hl]
  rw [argumentsWithin, hfilter, argumentsWithin]

end ArgumentsWithin

/-! ## The walk -/

/-- What one step adds to the report of the walk. -/
theorem report_renameFrom_cons (old new : String) (position : Nat) (s : Step) (steps : List Step) :
    (renameFrom old new position (s :: steps)).2 =
      let count := s.callArguments.countP (·.value = .parameter old)
      if s.outputName = some old then ⟨count, some position⟩
      else (renameFrom old new (position + 1) steps).2.add count := by
  cases s with
  | ret r =>
    simp only [Step.outputName, reduceCtorEq, if_false, renameFrom, Step.callArguments,
      RenameReport.add, List.countP_nil, Nat.zero_add]
  | call c =>
    rw [renameFrom]
    by_cases h : c.outputName = some old
    · simp [Step.outputName, h, Step.callArguments, Call.referenceCount]
    · simp [Step.outputName, h, Step.callArguments, Call.referenceCount]

/-- The walk ends at the first step that binds the old name. -/
theorem shadowedAt_renameFrom (old new : String) (position : Nat) (steps : List Step) :
    (renameFrom old new position steps).2.shadowedAt =
      (steps.findIdx? (·.outputName = some old)).map (position + ·) := by
  induction steps generalizing position with
  | nil => rfl
  | cons s steps ih =>
    rw [report_renameFrom_cons, List.findIdx?_cons]
    by_cases h : s.outputName = some old
    · simp [h]
    · simp only [h, if_false, RenameReport.add, ih, decide_false, Bool.false_eq_true, Option.map_map]
      congr 1
      funext k
      simp only [Function.comp]
      omega

theorem le_of_shadowedAt_renameFrom {old new : String} {position s : Nat} {steps : List Step}
    (h : (renameFrom old new position steps).2.shadowedAt = some s) : position ≤ s := by
  rw [shadowedAt_renameFrom] at h
  obtain ⟨k, -, rfl⟩ := Option.map_eq_some_iff.mp h
  omega

/-- The walk counts the references in the steps up to its end. -/
theorem changed_renameFrom (old new : String) (position : Nat) (steps : List Step) :
    let report := (renameFrom old new position steps).2
    report.changed =
      (argumentsWithin (fun p => ∀ s ∈ report.shadowedAt, p ≤ s) (steps.zipIdx position)).countP
        (·.value = .parameter old) := by
  induction steps generalizing position with
  | nil => rfl
  | cons s steps ih =>
    intro report
    rw [List.zipIdx_cons]
    by_cases h : s.outputName = some old
    · -- The walk ends here, and all other positions are later.
      have hreport : report = ⟨s.callArguments.countP (·.value = .parameter old), some position⟩ := by
        simp only [report, report_renameFrom_cons, h, if_true]
      have hrest : argumentsWithin (fun p => ∀ s ∈ report.shadowedAt, p ≤ s)
          (steps.zipIdx (position + 1)) = [] := by
        refine argumentsWithin_eq_nil fun l hl hle => ?_
        have hlater := (List.mem_zipIdx hl).1
        have := hle position (by rw [hreport]; rfl)
        omega
      rw [argumentsWithin_cons_of_pos (by rw [hreport]; simp), hrest, List.append_nil, hreport]
    · have hreport : report = (renameFrom old new (position + 1) steps).2.add
          (s.callArguments.countP (·.value = .parameter old)) := by
        simp only [report, report_renameFrom_cons, h, if_false]
      have hfirst : ∀ s ∈ report.shadowedAt, position ≤ s := by
        intro t ht
        rw [hreport] at ht
        have := le_of_shadowedAt_renameFrom ht
        omega
      rw [argumentsWithin_cons_of_pos hfirst, List.countP_append, hreport]
      exact congrArg (_ + ·) (ih (position + 1))

/-! ## Renames after a position -/

section RenameAfter

variable {steps : List Step} {index p : Nat} {old new : String}

theorem report_renameAfter (steps : List Step) (index : Nat) (old new : String) :
    (renameAfter steps index old new).2 =
      (renameFrom old new (index + 1) (steps.drop (index + 1))).2 :=
  rfl

theorem findIdx?_outputName_eq_some_iff {k : Nat} :
    steps.findIdx? (·.outputName = some old) = some k ↔
      outputNameAt steps k = some old ∧ ∀ j < k, outputNameAt steps j ≠ some old := by
  have hat : ∀ j (hj : j < steps.length), outputNameAt steps j = steps[j].outputName := by
    intro j hj
    rw [outputNameAt, List.getElem?_eq_getElem hj, Option.bind_some]
  rw [List.findIdx?_eq_some_iff_getElem]
  simp only [decide_eq_true_eq]
  constructor
  · rintro ⟨hk, hbinds, hleast⟩
    refine ⟨(hat k hk).trans hbinds, fun j hj => ?_⟩
    rw [hat j (by omega)]
    exact hleast j hj
  · rintro ⟨hbinds, hleast⟩
    have hk : k < steps.length := lt_length_of_outputNameAt hbinds
    refine ⟨hk, (hat k hk).symm.trans hbinds, fun j hj => ?_⟩
    rw [← hat j (by omega)]
    exact hleast j hj

theorem firstRebinds_iff_findIdx? {k : Nat} :
    FirstRebinds steps index old (index + 1 + k) ↔
      (steps.drop (index + 1)).findIdx? (·.outputName = some old) = some k := by
  rw [findIdx?_outputName_eq_some_iff, outputNameAt_drop]
  constructor
  · rintro ⟨-, hbinds, hleast⟩
    refine ⟨hbinds, fun j hj => ?_⟩
    rw [outputNameAt_drop]
    exact hleast (index + 1 + j) (by omega) (by omega)
  · rintro ⟨hbinds, hleast⟩
    refine ⟨by omega, hbinds, fun j hj hjk => ?_⟩
    have hfree := hleast (j - (index + 1)) (by omega)
    rwa [outputNameAt_drop, Nat.add_sub_cancel' hj] at hfree

/-- The report gives the first position after the rename's at which the old name is bound. -/
theorem shadowedAt_renameAfter_eq_some_iff {s : Nat} :
    (renameAfter steps index old new).2.shadowedAt = some s ↔ FirstRebinds steps index old s := by
  rw [report_renameAfter, shadowedAt_renameFrom, Option.map_eq_some_iff]
  constructor
  · rintro ⟨k, hk, rfl⟩
    exact firstRebinds_iff_findIdx?.mpr hk
  · intro h
    obtain ⟨k, rfl⟩ := Nat.exists_eq_add_of_le h.above
    exact ⟨k, firstRebinds_iff_findIdx?.mp h, rfl⟩

theorem exists_firstRebinds (hp : index < p) (h : outputNameAt steps p = some old) :
    ∃ s ≤ p, FirstRebinds steps index old s := by
  induction p using Nat.strongRecOn with
  | ind p ih =>
    by_cases hreached : Reached steps index old p
    · exact ⟨p, Nat.le_refl p, hp, h, hreached.2⟩
    · obtain ⟨k, hk, hkp, hold⟩ := exists_of_not_reached hp hreached
      obtain ⟨s, hs, hfirst⟩ := ih k hkp hk hold
      exact ⟨s, by omega, hfirst⟩

/-- A rename reaches the positions up to the one that it reports. -/
theorem within_shadowedAt_iff :
    Within index (renameAfter steps index old new).2.shadowedAt p ↔ Reached steps index old p := by
  constructor
  · rintro ⟨hp, hstop⟩
    refine ⟨hp, ?_⟩
    intro k hk hkp hbinds
    obtain ⟨s, hs, hfirst⟩ := exists_firstRebinds hk hbinds
    have := hstop s (shadowedAt_renameAfter_eq_some_iff.mpr hfirst)
    omega
  · rintro ⟨hp, hfree⟩
    refine ⟨hp, ?_⟩
    intro s hs
    have hfirst := shadowedAt_renameAfter_eq_some_iff.mp hs
    exact Nat.le_of_not_lt fun hlt => hfree s hfirst.above hlt hfirst.binds

theorem zipIdx_eq_append (steps : List Step) (n : Nat) :
    steps.zipIdx = (steps.take n).zipIdx ++ (steps.drop n).zipIdx n := by
  by_cases hlength : n ≤ steps.length
  · have happend : (steps.take n ++ steps.drop n).zipIdx =
        (steps.take n).zipIdx ++ (steps.drop n).zipIdx (0 + (steps.take n).length) :=
      List.zipIdx_append
    rwa [List.take_append_drop, List.length_take, Nat.min_eq_left hlength, Nat.zero_add] at happend
  · rw [List.take_of_length_le (by omega), List.drop_of_length_le (by omega), List.zipIdx_nil,
      List.append_nil]

/-- The report counts the references that the rename reaches. -/
theorem changed_renameAfter (steps : List Step) (index : Nat) (old new : String) :
    let report := (renameAfter steps index old new).2
    report.changed =
      (argumentsWithin (Within index report.shadowedAt) steps.zipIdx).countP
        (·.value = .parameter old) := by
  intro report
  -- What is in front of the walk does not count.
  have hfront : argumentsWithin (Within index report.shadowedAt) (steps.take (index + 1)).zipIdx =
      [] := by
    refine argumentsWithin_eq_nil fun l hl hwithin => ?_
    have hlt := (List.mem_zipIdx hl).2.1
    have habove := hwithin.1
    rw [List.length_take] at hlt
    omega
  have hback : argumentsWithin (Within index report.shadowedAt)
      ((steps.drop (index + 1)).zipIdx (index + 1)) =
      argumentsWithin (fun p => ∀ s ∈ report.shadowedAt, p ≤ s)
        ((steps.drop (index + 1)).zipIdx (index + 1)) := by
    refine argumentsWithin_congr fun l hl => ?_
    have habove : index < l.2 := (List.mem_zipIdx hl).1
    exact and_iff_right habove
  rw [zipIdx_eq_append steps (index + 1), argumentsWithin_append, hfront, List.nil_append, hback]
  exact changed_renameFrom old new (index + 1) (steps.drop (index + 1))

/-! ## The whole effect -/

theorem Call.renameReferences_eq_map (old new : String) (c : Call) :
    c.renameReferences old new =
      { c with
        arguments := c.arguments.map fun a =>
          if a.value = .parameter old then { a with value := .parameter new } else a } := by
  have hargument : ∀ a : Argument, ({ a with value := a.value.rename old new } : Argument) =
      if a.value = .parameter old then { a with value := .parameter new } else a := by
    intro a
    split
    case isTrue h => simp [h, Operand.rename]
    case isFalse h => rw [Operand.rename_of_ne h]
  rw [Call.renameReferences, funext hargument]

/-- A rename reports the first call after its position that binds the old name, and how many
    references to that name the calls up to there have. In these calls exactly those references are
    changed, and all else stays: the other arguments, the returns, and the steps at all other
    positions. -/
theorem renameAfter_rewrites_window (steps : List Step) (index : Nat) (old new : String) :
    let renamed := (renameAfter steps index old new).1
    let report := (renameAfter steps index old new).2
    (∀ s, report.shadowedAt = some s ↔ FirstRebinds steps index old s) ∧
      renamed.length = steps.length ∧
      (∀ (p : Nat) (c : Call), steps[p]? = some (.call c) → Within index report.shadowedAt p →
        renamed[p]? = some (.call { c with
          arguments := c.arguments.map fun a =>
            if a.value = .parameter old then { a with value := .parameter new } else a })) ∧
      (∀ (p : Nat) (r : Return), steps[p]? = some (.ret r) → renamed[p]? = some (.ret r)) ∧
      (∀ p : Nat, ¬Within index report.shadowedAt p → renamed[p]? = steps[p]?) ∧
      report.changed =
        (argumentsWithin (Within index report.shadowedAt) steps.zipIdx).countP
          (·.value = .parameter old) := by
  intro renamed report
  refine ⟨fun s => shadowedAt_renameAfter_eq_some_iff, length_renameAfter steps index old new, ?_, ?_,
    ?_, changed_renameAfter steps index old new⟩
  · intro p c hc hwithin
    rw [← Call.renameReferences_eq_map]
    have hreached := within_shadowedAt_iff.mp hwithin
    rw [getElem?_renameAfter_of_reached hreached, hc]
    rfl
  · intro p r hr
    by_cases hreached : Reached steps index old p
    · rw [getElem?_renameAfter_of_reached hreached, hr]
      rfl
    · rw [getElem?_renameAfter_of_not_reached hreached, hr]
  · intro p hwithin
    exact getElem?_renameAfter_of_not_reached (mt within_shadowedAt_iff.mpr hwithin) new

/-- Three references to `user` stand in the two calls up to the one that binds it again. The literal,
    the return and the call after them keep theirs. -/
theorem renameAfter_rewrites_window_shadowed :
    let call (result : String) (values : List Operand) : Step :=
      .call { Call.blank with outputName := some result, arguments := values.map (⟨"in", ·⟩) }
    let give : Step := .ret ⟨"", "", .parameter "user"⟩
    let steps := [call "user" [], call "n" [.parameter "user", .literal "user", .parameter "user"],
      give, call "user" [.parameter "user", .parameter "n"], call "m" [.parameter "user"]]
    let renamed := (renameAfter steps 0 "user" "row").1
    let report := (renameAfter steps 0 "user" "row").2
    FirstRebinds steps 0 "user" 3 ∧ report = ⟨3, some 3⟩ ∧
      renamed[1]? = some (call "n" [.parameter "row", .literal "user", .parameter "row"]) ∧
      renamed[2]? = some give ∧
      renamed[3]? = some (call "user" [.parameter "row", .parameter "n"]) ∧
      renamed[4]? = some (call "m" [.parameter "user"]) ∧
      (argumentsWithin (Within 0 (some 3)) steps.zipIdx).countP (·.value = .parameter "user") = 3 := by
  intro call give steps renamed report
  have hreport : report = ⟨3, some 3⟩ := by decide
  have hshadowed : report.shadowedAt = some 3 := by rw [hreport]
  obtain ⟨hfirst, -, hcalls, hreturns, hothers, hcount⟩ :=
    renameAfter_rewrites_window steps 0 "user" "row"
  refine ⟨(hfirst 3).mp hshadowed, hreport, ?_, hreturns 2 _ rfl, ?_, ?_, ?_⟩
  · exact hcalls 1 _ rfl (by decide)
  · exact hcalls 3 _ rfl (by decide)
  · exact hothers 4 (by decide)
  · exact hcount.symm

end RenameAfter

end CallFlow
