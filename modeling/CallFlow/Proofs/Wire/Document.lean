import CallFlow.Proofs.Wire.Reading

/-!
# Documents

There are twelve kinds of documents. Endpoints and workspaces are kept on indented lines, the others
without blanks. Writing a document and reading the text gives the document back, for every document
that can be read from any text at all: these are the ones in which no call binds an empty name.

## Main statements

- `CallFlow.Wire.Kind.decode_encode` — a document is read back from its text
- `CallFlow.Wire.Kind.noEmptyOutput_of_decode` — what no text spells
-/

namespace CallFlow.Wire

/-! ## Formats -/

namespace Format

variable {α : Type} {format : Format α} {a : α}

/-- What is read from the draft of a value is read from every text of the value. -/
theorem decode_isText {j : Json} {text : String} (htext : j.IsText text)
    (h : format.read j.draft = .ok a) : format.decode text = .ok a := by
  rw [decode, Json.ofText_of_isText htext]
  simp [bind, Except.bind, h, pure, Except.pure]

/-- A document that is read back from its draft is read back from its text without blanks. -/
theorem decode_compact (h : format.read (format.write a).draft = .ok a) :
    format.decode (format.compact a) = .ok a :=
  decode_isText (Json.isText_render .compact _) h

/-- A document that is read back from its draft is read back from its text on indented lines. -/
theorem decode_pretty (h : format.read (format.write a).draft = .ok a) :
    format.decode (format.pretty a) = .ok a :=
  decode_isText (Json.isText_render .indented _) h

/-- A text spells a document if the document is read from its draft and nothing follows. -/
theorem decode_eq_ok_iff {text : String} :
    format.decode text = .ok a ↔
      format.read (Json.Draft.ofText text).1 = .ok a ∧ (Json.Draft.ofText text).2 = [] := by
  rcases hd : Json.Draft.ofText text with ⟨d, rest⟩
  rw [decode, hd, bind_eq_ok]
  constructor
  · rintro ⟨found, hread, hend⟩
    split at hend
    · rename_i hrest
      cases hend
      exact ⟨hread, List.isEmpty_iff.mp hrest⟩
    · cases hend
  · rintro ⟨hread, rfl⟩
    exact ⟨a, hread, rfl⟩

/-- A document that a text spells was read from the draft of the text. -/
theorem read_ofText_of_decode {text : String} (h : format.decode text = .ok a) :
    format.read (Json.Draft.ofText text).1 = .ok a :=
  (decode_eq_ok_iff.mp h).1

theorem exists_read_of_decode {text : String} (h : format.decode text = .ok a) :
    ∃ d, format.read d = .ok a :=
  ⟨_, read_ofText_of_decode h⟩

end Format

/-! ## Kinds of documents -/

/-- The kinds of documents. -/
inductive Kind where
  | endpoint
  | workspace
  | catalog
  | config
  | method
  | input
  | output
  | valueType
  | argument
  | step
  | call
  | ret
deriving DecidableEq, Repr

namespace Kind

/-- The documents of a kind. -/
abbrev Document : Kind → Type
  | endpoint => Endpoint
  | workspace => Workspace
  | catalog => Catalog
  | config => Config
  | method => Method
  | input => Pin
  | output => Pin
  | valueType => ValueType
  | argument => Argument
  | step => Step
  | call => Call
  | ret => Return

/-- How the documents of a kind are read and written. -/
def format : (k : Kind) → Format k.Document
  | endpoint => endpointFormat
  | workspace => workspaceFormat
  | catalog => catalogFormat
  | config => configFormat
  | method => methodFormat
  | input => inputFormat
  | output => outputFormat
  | valueType => valueTypeFormat
  | argument => argumentFormat
  | step => stepFormat
  | call => callFormat
  | ret => returnFormat

/-- The text of a document. -/
def encode : (k : Kind) → k.Document → String
  | endpoint => endpointFormat.pretty
  | workspace => workspaceFormat.pretty
  | k => k.format.compact

/-- The document that a text spells. -/
def decode (k : Kind) (text : String) : Except ReadError k.Document :=
  k.format.decode text

/-- No call in a document binds an empty name. -/
def NoEmptyOutput : (k : Kind) → k.Document → Prop
  | endpoint => Endpoint.NoEmptyOutput
  | workspace => Workspace.NoEmptyOutput
  | step => Step.NoEmptyOutput
  | call => Call.NoEmptyOutput
  | _ => fun _ => True

/-- The draft of a document is read back unless a call in the document binds an empty name. -/
theorem read_write {k : Kind} {v : k.Document} (h : k.NoEmptyOutput v) :
    k.format.read (k.format.write v).draft = .ok v := by
  cases k with
  | endpoint => exact read_writeEndpoint h
  | workspace => exact readWorkspace_writeWorkspace (by decide) h
  | catalog => exact read_writeCatalog (by decide) .text .text v
  | config => exact read_writeConfig (by decide) .text .text v
  | method => exact read_writeMethod (by decide) .text v
  | input => exact read_writePin "Input" .text v
  | output => exact read_writePin "Output" .text v
  | valueType => exact readValueType_writeValueType v
  | argument => exact readArgument_writeArgument v
  | step => exact readStep_writeStep h
  | call => exact read_writeCall h
  | ret => exact read_writeReturn v

theorem decode_encode {k : Kind} {v : k.Document} (h : k.NoEmptyOutput v) :
    k.decode (k.encode v) = .ok v := by
  have hread := read_write h
  cases k with
  | endpoint => exact Format.decode_pretty hread
  | workspace => exact Format.decode_pretty hread
  | _ => exact Format.decode_compact hread

theorem noEmptyOutput_of_decode {k : Kind} {text : String} {v : k.Document}
    (h : k.decode text = .ok v) : k.NoEmptyOutput v := by
  obtain ⟨d, hd⟩ := Format.exists_read_of_decode h
  cases k with
  | endpoint => exact noEmptyOutput_of_readEndpoint hd
  | workspace => exact noEmptyOutput_of_readWorkspace hd
  | step => exact noEmptyOutput_of_readStep hd
  | call => exact noEmptyOutput_of_readCall hd
  | _ => trivial

/-- Documents of every kind make the round trip through their texts: each document in which no call
    binds an empty name is read back, and no other document can be read from any text. -/
theorem round_trip :
    (∀ (k : Kind) (v : k.Document), k.NoEmptyOutput v → k.decode (k.encode v) = .ok v) ∧
      ∀ (k : Kind) (text : String) (v : k.Document), k.decode text = .ok v →
        k.NoEmptyOutput v ∧ k.decode (k.encode v) = .ok v := by
  refine ⟨fun k v h => decode_encode h, ?_⟩
  intro k text v h
  have hv := noEmptyOutput_of_decode h
  exact ⟨hv, decode_encode hv⟩

/-- An endpoint whose name needs escapes makes the round trip, and a call whose name was spelt as an
    empty text is one without a name. -/
theorem round_trip_awkward :
    let named : Endpoint :=
      ⟨"", "\"\\\x01\n😀", "", "/", [.call { Call.blank with outputName := some "user" }]⟩
    let text := r#"{"out_variable_name":""}"#
    (endpoint.NoEmptyOutput named ∧ endpoint.decode (endpoint.encode named) = .ok named) ∧
      call.decode text = .ok Call.blank ∧ call.NoEmptyOutput Call.blank ∧
        call.decode (call.encode Call.blank) = .ok Call.blank := by
  intro named text
  have hnamed : endpoint.NoEmptyOutput named := by
    show Endpoint.NoEmptyOutput named
    decide
  have htext : (Json.object [("out_variable_name", .string "")]).compact = text := by decide
  have hdecode : call.decode text = .ok Call.blank := by
    rw [← htext, decode, Format.decode, Json.ofText_compact]
    rfl
  exact ⟨⟨hnamed, round_trip.1 endpoint named hnamed⟩, hdecode, round_trip.2 call text _ hdecode⟩

end Kind

end CallFlow.Wire
