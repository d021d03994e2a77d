import CallFlow.Proofs.Store.Equivalence
import CallFlow.Proofs.Store.Named
import CallFlow.Proofs.Store.Slot

/-!
# Saving again

What a save gives back can be saved again without any effect. The first save may have found a place
by identifier or by name, or none, and the identifier may be the endpoint's own, that of the stored
one, or a new one; the second save always goes by the identifier. That both end up in the same place
is because no identifier is given twice after a save either, so an endpoint that has one is found
where it is stored.

An endpoint without identifier goes by its name again and again. It stays the first one of its name,
so the second save finds the place of the first one and keeps the identifier given there.

## Main statements

- `CallFlow.Workspace.save_stored` — saving what is stored
- `CallFlow.Workspace.firstNamed_save` — an endpoint without identifier is found under its name
- `CallFlow.Workspace.saved_again_changes_nothing` — saving twice
-/

namespace CallFlow

namespace Workspace

variable {w : Workspace} {ids : IdSupply} {e : Endpoint}

/-! ## What is stored -/

/-- Where no identifier is given twice, an endpoint that has one is found where it is stored. -/
theorem slot?_of_getElem? {i : Nat} (hw : w.DistinctIds) (hi : w.endpoints[i]? = some e)
    (hid : e.id ≠ "") : w.slot? e = some i := by
  obtain ⟨hlt, rfl⟩ := List.getElem?_eq_some_iff.mp hi
  refine List.findIdx?_eq_some_iff_getElem.mpr ⟨hlt, by simp [hid], ?_⟩
  intro j hj
  have hdiffers : w.endpoints[j].DiffersFrom w.endpoints[i] :=
    List.pairwise_iff_getElem.mp hw j i (by omega) hlt hj
  simp only [hid, if_false, decide_eq_true_eq]
  intro heq
  exact hdiffers (heq ▸ hid) heq

theorem adoptId_of_id_ne_empty (hid : e.id ≠ "") : w.adoptId e = e := by
  rw [adoptId]
  split
  · rw [if_neg hid]
  · rfl

/-- Saving a canonical endpoint that is stored changes nothing and draws no identifier. -/
theorem save_stored {i : Nat} (hw : w.DistinctIds) (hi : w.endpoints[i]? = some e)
    (he : e.Canonical) (ids : IdSupply) : w.save ids e = (e, w, ids) := by
  have hslot := slot?_of_getElem? hw hi he.id_ne_empty
  obtain ⟨hlt, rfl⟩ := List.getElem?_eq_some_iff.mp hi
  rw [save, adoptId_of_id_ne_empty he.id_ne_empty, Endpoint.canonicalize_eq_self he]
  simp only [hslot, put, List.set_getElem_self]

/-! ## The place of what was saved -/

theorem getElem?_save_of_lt {j : Nat} (hj : j < w.place e) (ids : IdSupply) :
    (w.save ids e).2.1.endpoints[j]? = w.endpoints[j]? := by
  cases hslot : w.slot? e with
  | none =>
    rw [place, hslot] at hj
    rw [save_of_slot?_none hslot]
    exact List.getElem?_append_left hj
  | some i =>
    rw [place, hslot] at hj
    rw [save_of_slot? hslot]
    exact List.getElem?_set_ne (Nat.ne_of_gt hj)

/-- What is in front of the place does not match. -/
theorem name_ne_of_lt_place {j : Nat} {other : Endpoint} (hid : e.id = "") (hj : j < w.place e)
    (hother : w.endpoints[j]? = some other) : other.name ≠ e.name := by
  obtain ⟨hlt, rfl⟩ := List.getElem?_eq_some_iff.mp hother
  cases hslot : w.slot? e with
  | none =>
    have hno := List.findIdx?_eq_none_iff.mp hslot _ (List.getElem_mem hlt)
    simpa [hid] using hno
  | some i =>
    rw [place, hslot] at hj
    obtain ⟨hi, -, hfirst⟩ := List.findIdx?_eq_some_iff_getElem.mp hslot
    simpa [hid] using hfirst j hj

theorem name_save (w : Workspace) (ids : IdSupply) (e : Endpoint) :
    (w.save ids e).1.name = e.name := by
  show ((w.adoptId e).canonicalize ids).1.name = e.name
  rw [Endpoint.canonicalize_eq, adoptId]
  split
  · split <;> rfl
  · rfl

/-- An endpoint that was saved without identifier is the first one of its name. -/
theorem firstNamed_save (hid : e.id = "") (ids : IdSupply) :
    (w.save ids e).2.1.FirstNamed e.name (w.place e) (w.save ids e).1 where
  found := w.getElem?_save_place ids e
  named := w.name_save ids e
  first := by
    intro earlier hearlier other hother
    rw [getElem?_save_of_lt hearlier] at hother
    exact name_ne_of_lt_place hid hearlier hother

/-! ## Saving twice -/

/-- Saving what a save gave back changes nothing. -/
theorem save_echo (hw : w.DistinctIds) (h : w.DrawsFresh ids e) (ids' : IdSupply) :
    (w.save ids e).2.1.save ids' (w.save ids e).1 = ((w.save ids e).1, (w.save ids e).2.1, ids') :=
  save_stored (distinctIds_save hw h) (w.getElem?_save_place ids e) h.canonical ids'

/-- An endpoint that has no identifier replaces the first one of its name, and keeps the identifier
    found there. -/
theorem FirstNamed.save_without_id {name : String} {position : Nat} {stored : Endpoint}
    (h : w.FirstNamed name position stored) (hname : e.name = name) (hid : e.id = "")
    (hstored : stored.id ≠ "") (ids : IdSupply) :
    (w.save ids e).1.id = stored.id ∧
      ReplacedAt w.endpoints position (w.save ids e).1 (w.save ids e).2.1.endpoints := by
  have hslot : w.slot? e = some position := by
    rw [slot?, hid, hname]
    simpa using h.findIdx?_eq
  obtain ⟨found, hfound, hadopt⟩ := id_adoptId_of_slot? hslot
  cases hfound.symm.trans h.found
  constructor
  · rw [id_save_of_ne_empty (hadopt ▸ hstored), hadopt]
  · rw [save_of_slot? hslot]
    exact replacedAt_set (List.getElem?_eq_some_iff.mp h.found).1 _

/-- What a save gave back is stored. It can be saved again, in memory or in a file: the same endpoint
    is given back, nothing changes, and no identifier is drawn. If the endpoint had no identifier,
    what was given back is found under its name, and saving the endpoint as it was replaces just
    that, under the same identifier. -/
theorem saved_again_changes_nothing (hw : w.DistinctIds) (h : w.DrawsFresh ids e) :
    let echo := (w.save ids e).1
    let saved := (w.save ids e).2.1
    saved.endpoints[w.place e]? = some echo ∧
      (∀ ids', saved.save ids' echo = (echo, saved, ids')) ∧
      (e.id = "" →
        saved.endpoint? e.name = some echo ∧
          ∀ ids', (saved.save ids' e).1.id = echo.id ∧
            ReplacedAt saved.endpoints (w.place e) (saved.save ids' e).1
              (saved.save ids' e).2.1.endpoints) ∧
      ∀ (path : String) (f : FileState), f.Holds w →
        let file := (f.save path ids e).file
        (f.save path ids e).result = .ok echo ∧ file.load path = .ok saved ∧
          (∀ ids', file.save path ids' echo = ⟨.ok echo, file, ids'⟩) ∧
          ∀ ids', (file.save path ids' e).result = .ok (saved.save ids' e).1 ∧
            (file.save path ids' e).file.load path = .ok (saved.save ids' e).2.1 := by
  intro echo saved
  have hecho : ∀ ids', saved.save ids' echo = (echo, saved, ids') := save_echo hw h
  refine ⟨w.getElem?_save_place ids e, hecho, ?_, ?_⟩
  · intro hid
    have hfirst : saved.FirstNamed e.name (w.place e) echo := firstNamed_save hid ids
    refine ⟨endpoint?_eq_some_iff.mpr ⟨_, hfirst⟩, ?_⟩
    exact hfirst.save_without_id rfl hid h.canonical.id_ne_empty
  · intro path f hf file
    have hsaved : saved.NoEmptyOutput := save_noEmptyOutput hf.noEmptyOutput ids e
    have hfile : file = .text (Wire.workspaceFormat.pretty saved) := by
      simp only [file, FileState.save_of_holds hf, saved]
    have hholds : file.Holds saved := hfile ▸ FileState.holds_pretty hsaved
    refine ⟨by rw [FileState.save_of_holds hf], ?_, ?_, ?_⟩
    · rw [hfile, FileState.load_text (FileState.decode_pretty hsaved)]
    · intro ids'
      rw [FileState.save_of_holds hholds, hecho, hfile]
    · intro ids'
      have hagain := save_noEmptyOutput hsaved ids' e
      rw [FileState.save_of_holds hholds]
      exact ⟨rfl, FileState.load_text (FileState.decode_pretty hagain) path⟩

/-- Of two endpoints named `list` the first one has no identifier. An endpoint of that name takes its
    place, with the identifier `x` from then on, also when it is saved once more without one. -/
theorem saved_again_changes_nothing_shared_name :
    let ids : IdSupply := { id := fun n => String.ofList (List.replicate (n + 1) 'x') }
    let w : Workspace := ⟨.empty,
      [⟨"b", "home", "", "", []⟩, ⟨"", "list", "", "", []⟩, ⟨"a", "list", "", "", []⟩]⟩
    let e : Endpoint := ⟨"", "list", "", " /", [.ret .blank]⟩
    let stored (id : String) : Endpoint := ⟨"x", "list", "", "/", [.ret { Return.blank with id }]⟩
    let saved := (w.save ids e).2.1
    let ids' := (w.save ids e).2.2
    let file := ((FileState.text (Wire.workspaceFormat.pretty w)).save "flows" ids e).file
    w.DistinctIds ∧ w.DrawsFresh ids e ∧ (w.save ids e).1 = stored "xx" ∧
      saved.endpoints = [⟨"b", "home", "", "", []⟩, stored "xx", ⟨"a", "list", "", "", []⟩] ∧
      saved.save ids' (stored "xx") = (stored "xx", saved, ids') ∧
      file.save "flows" ids' (stored "xx") = ⟨.ok (stored "xx"), file, ids'⟩ ∧
      saved.endpoint? "list" = some (stored "xx") ∧
      (saved.save ids' e).1 = stored "xxx" ∧
      ReplacedAt saved.endpoints 1 (stored "xxx") (saved.save ids' e).2.1.endpoints := by
  intro ids w e stored saved ids' file
  have hw : w.DistinctIds := by decide
  have hfresh : w.DrawsFresh ids e := by decide
  have hecho : (w.save ids e).1 = stored "xx" := by decide
  have hagain : (saved.save ids' e).1 = stored "xxx" := by decide
  have hholds : (FileState.text (Wire.workspaceFormat.pretty w)).Holds w :=
    FileState.holds_pretty (by decide)
  obtain ⟨-, hmemory, hnamed, hfile⟩ := saved_again_changes_nothing hw hfresh
  obtain ⟨hfirst, hreplaced⟩ := hnamed rfl
  have hslot := (hreplaced ids').2
  rw [hecho] at hmemory hfirst hfile
  rw [hagain] at hslot
  exact ⟨hw, hfresh, hecho, by decide, hmemory ids', (hfile "flows" _ hholds).2.2.1 ids', hfirst,
    hagain, hslot⟩

end Workspace

end CallFlow
