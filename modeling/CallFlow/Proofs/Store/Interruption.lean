import CallFlow.Proofs.Json.Cut
import CallFlow.Proofs.Store.Equivalence
import CallFlow.Proofs.Store.Slot

/-!
# Saves that are interrupted

A workspace is written in place. If that is interrupted, the file holds the first bytes of the text,
which may even end within a character. No such file is read as a workspace: loading it fails.

## Main definitions

- `CallFlow.FileState.PartOf` — what is left of a file that was not written to its end

## Main statements

- `CallFlow.FileState.load_partOf` — what is left of a workspace cannot be loaded
- `CallFlow.FileState.part_is_rejected` — beginnings of texts, and saves that are interrupted
-/

namespace CallFlow

namespace Wire

/-- A workspace is read only from an object with its closing brace. -/
theorem eq_closed_of_readWorkspace {room : Nat} {d : Json.Draft} {w : Workspace}
    (h : readWorkspace room d = .ok w) : ∃ members, d = .object members .closed := by
  cases d with
  | object members stop =>
    obtain ⟨_, -, h⟩ := bind_eq_ok.mp h
    obtain ⟨_, hstop, -⟩ := bind_eq_ok.mp h
    cases stop with
    | closed => exact ⟨members, rfl⟩
    | _ => cases hstop
  | _ => cases h

/-- The text of a workspace that is cut short spells no workspace. -/
theorem decode_cut {w : Workspace} {front rest : List Char}
    (h : (workspaceFormat.pretty w).toList = front ++ rest) (hrest : rest ≠ []) :
    ∃ error, workspaceFormat.decode (String.ofList front) = .error error := by
  cases hdecode : workspaceFormat.decode (String.ofList front) with
  | error error => exact ⟨error, rfl⟩
  | ok found =>
    obtain ⟨members, hmembers⟩ :=
      eq_closed_of_readWorkspace (Format.read_ofText_of_decode hdecode)
    have hrender : Json.render .indented 0 (writeWorkspace w) = front ++ rest := by
      rw [← h]
      exact String.toList_ofList.symm
    exact absurd hmembers (Json.ofText_ne_of_cut hrender hrest members)

end Wire

theorem Workspace.echo_mem_save (w : Workspace) (ids : IdSupply) (e : Endpoint) :
    (w.save ids e).1 ∈ (w.save ids e).2.1.endpoints :=
  List.mem_of_getElem? (w.getElem?_save_place ids e)

/-! ## Bytes -/

/-- The bytes of a text begin with the bytes of another text only if its characters do. -/
theorem exists_append_of_utf8Encode {cs ds : List Char} {bytes : ByteArray}
    (h : cs.utf8Encode = ds.utf8Encode ++ bytes) : ∃ rest, cs = ds ++ rest := by
  induction ds generalizing cs with
  | nil => exact ⟨cs, rfl⟩
  | cons d ds ih =>
    rw [List.utf8Encode_cons, ByteArray.append_assoc, List.utf8Encode_singleton] at h
    -- The first character can be told from the bytes, whatever follows it.
    have hfirst := congrArg (·.utf8DecodeChar? 0) h
    rw [ByteArray.utf8DecodeChar?_utf8EncodeChar_append] at hfirst
    cases cs with
    | nil => cases hfirst
    | cons c cs =>
      rw [List.utf8Encode_cons, List.utf8Encode_singleton] at h hfirst
      rw [ByteArray.utf8DecodeChar?_utf8EncodeChar_append] at hfirst
      cases hfirst
      obtain ⟨rest, rfl⟩ := ih ((ByteArray.append_right_inj _).mp h)
      exact ⟨rest, rfl⟩

namespace FileState

/-- The file `left` holds the first bytes of the file `whole`, but not all of them. -/
def PartOf (left whole : FileState) : Prop :=
  ∃ content, whole = .text content ∧
    ∃ n < content.utf8ByteSize, left = .ofBytes (content.toUTF8.extract 0 n)

variable {left : FileState} {w : Workspace}

theorem toUTF8_of_ofBytes {bytes : ByteArray} {content : String}
    (h : ofBytes bytes = .text content) : content.toUTF8 = bytes := by
  rw [ofBytes] at h
  split at h
  · rename_i found hfound
    cases h
    rw [String.fromUTF8?] at hfound
    split at hfound
    · cases hfound
      rfl
    · cases hfound
  · cases h

/-- A text in the first bytes of another text is a beginning of it. -/
theorem exists_append_of_ofBytes {whole content : String} {n : Nat} (hn : n < whole.utf8ByteSize)
    (h : ofBytes (whole.toUTF8.extract 0 n) = .text content) :
    ∃ rest, whole.toList = content.toList ++ rest ∧ rest ≠ [] := by
  have hle : n ≤ whole.toUTF8.size := Nat.le_of_lt hn
  have hbytes : content.toUTF8 = whole.toUTF8.extract 0 n := toUTF8_of_ofBytes h
  have hsplit : whole.toUTF8 = content.toUTF8 ++ whole.toUTF8.extract n whole.toUTF8.size := by
    rw [hbytes, ByteArray.extract_append_extract, Nat.zero_min, Nat.max_eq_right hle,
      ByteArray.extract_zero_size]
  rw [String.toUTF8, String.toUTF8, ← String.utf8Encode_toList, ← String.utf8Encode_toList] at hsplit
  obtain ⟨rest, hrest⟩ := exists_append_of_utf8Encode hsplit
  refine ⟨rest, hrest, ?_⟩
  rintro rfl
  rw [List.append_nil] at hrest
  have hsize := congrArg ByteArray.size hbytes
  rw [← String.toList_injective hrest, ByteArray.size_extract] at hsize
  change whole.utf8ByteSize = min n whole.utf8ByteSize - 0 at hsize
  omega

theorem load_partOf (h : left.PartOf (.text (Wire.workspaceFormat.pretty w))) (path : String) :
    ∃ error, left.load path = .error error := by
  obtain ⟨whole, hwhole, n, hn, rfl⟩ := h
  cases hwhole
  cases hload : (ofBytes ((Wire.workspaceFormat.pretty w).toUTF8.extract 0 n)).load path with
  | error error => exact ⟨error, rfl⟩
  | ok found =>
    -- Something can be loaded only if the bytes end with a character.
    obtain ⟨content, hcontent, hdecode⟩ := exists_text_of_load hload
    obtain ⟨rest, hrest, hne⟩ := exists_append_of_ofBytes hn hcontent
    obtain ⟨error, herror⟩ := Wire.decode_cut hrest hne
    rw [String.ofList_toList, hdecode] at herror
    cases herror

/-- No beginning of the text of a workspace but the whole text spells a workspace. So if a save is
    interrupted while the file is written, the next load fails. If it is not, the next load finds
    the endpoint that was saved. -/
theorem part_is_rejected :
    (∀ (w : Workspace) (front rest : List Char),
        (Wire.workspaceFormat.pretty w).toList = front ++ rest → rest ≠ [] →
          ∃ error, Wire.workspaceFormat.decode (String.ofList front) = .error error) ∧
      ∀ (path : String) (f : FileState) (ids : IdSupply) (e stored : Endpoint),
        (f.save path ids e).result = .ok stored →
          (∃ w, (f.save path ids e).file.load path = .ok w ∧ stored ∈ w.endpoints) ∧
            ∀ left : FileState, left.PartOf (f.save path ids e).file →
              ∃ error, left.load path = .error error := by
  refine ⟨fun w front rest h hrest => Wire.decode_cut h hrest, ?_⟩
  intro path f ids e stored h
  obtain ⟨w, hw⟩ := exists_holds_of_save h
  rw [save_of_holds hw] at h ⊢
  cases h
  have hsaved := Workspace.save_noEmptyOutput hw.noEmptyOutput ids e
  exact ⟨⟨_, load_text (decode_pretty hsaved) path, w.echo_mem_save ids e⟩,
    fun left hleft => load_partOf hleft path⟩

/-- The text is cut after an inner bracket. The save of the same endpoint is interrupted within a
    character of its name, so that what is left in the file is no text. -/
theorem part_is_rejected_within_name :
    let ids : IdSupply := { id := fun n => String.ofList (List.replicate (n + 1) 'x') }
    let e : Endpoint := ⟨"", r"é}", "", "/", []⟩
    let stored : Endpoint := { e with id := "x" }
    let content := Wire.workspaceFormat.pretty ⟨.empty, [stored]⟩
    let front := '{' :: "\n  \"configs\": []".toList
    let left := ofBytes (content.toUTF8.extract 0 75)
    content.toList = front ++ content.toList.drop 17 ∧
      (∃ error, Wire.workspaceFormat.decode (String.ofList front) = .error error) ∧
      (absent.save "flows" ids e).result = .ok stored ∧
      (∃ w, (absent.save "flows" ids e).file.load "flows" = .ok w ∧ stored ∈ w.endpoints) ∧
      left.PartOf (absent.save "flows" ids e).file ∧
      left = .binary (content.toUTF8.extract 0 75).toList ∧
      ∃ error, left.load "flows" = .error error := by
  intro ids e stored content front left
  have hchars : content.toList = Json.render .indented 0 (Wire.writeWorkspace ⟨.empty, [stored]⟩) :=
    String.toList_ofList
  have hfront : content.toList = front ++ content.toList.drop 17 := by
    rw [hchars]
    decide +kernel
  have hrest : content.toList.drop 17 ≠ [] := by
    rw [hchars]
    decide +kernel
  have hstored : (Workspace.empty.save ids e).1 = stored := by decide
  have hworkspace : (Workspace.empty.save ids e).2.1 = ⟨.empty, [stored]⟩ := by decide
  have hsaved := save_of_holds (.inr ⟨rfl, rfl⟩) "flows" ids e
  have hresult : (absent.save "flows" ids e).result = .ok stored := by rw [hsaved, hstored]
  have hfile : (absent.save "flows" ids e).file = .text content := by rw [hsaved, hworkspace]
  have hleft : left.PartOf (absent.save "flows" ids e).file :=
    ⟨content, hfile, 75, by decide +kernel, rfl⟩
  have hbytes : ¬(content.toUTF8.extract 0 75).IsValidUTF8 := by decide +kernel
  obtain ⟨hcut, hsave⟩ := part_is_rejected
  obtain ⟨hdone, hinterrupted⟩ := hsave "flows" .absent ids e stored hresult
  have hbinary : left = .binary (content.toUTF8.extract 0 75).toList := by
    show ofBytes (content.toUTF8.extract 0 75) = _
    rw [ofBytes, String.fromUTF8?, dif_neg hbytes]
  exact ⟨hfront, hcut _ front _ hfront hrest, hresult, hdone, hleft, hbinary,
    hinterrupted left hleft⟩

end FileState

end CallFlow
