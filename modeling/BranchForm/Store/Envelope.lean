import BranchForm.Check.Shape
import BranchForm.Reopen
import BranchForm.Store.Category

/-!
# Forms in storage

The storage keeps a form as JSON text in a body of its own, next to a name, a description and what
it manages itself.

* `Envelope` is such a body; `Envelope.encode` writes it and `Envelope.decode` reads one, in which
  the form may also be embedded as a record; `Envelope.ofParts` makes one of its parts;
* `Form.seal` puts a form into an envelope;
* `Envelope.open` takes it out: the payload must be JSON of the shape of a form, and lends name and
  description from the envelope if it has none;
* `decodeSource` takes a form from a body or from the payload alone, and `loadTree` opens it for
  editing: what cannot be decoded is opened as an empty draft, with a warning.
-/

namespace BranchForm

/-- A stored form. -/
structure Envelope where
  /-- The name of the form. -/
  name : Value
  /-- The description of the form. -/
  description : Value
  /-- The category it is filed under. -/
  category : Category
  /-- The JSON text of the form. -/
  payload : Value
  /-- Whether the form is published. -/
  isActive : Value := .bool true
  /-- The id given by the storage, absent before a form is saved. -/
  id : Value := .null
  deriving DecidableEq, Repr, Inhabited

/-- A form in an envelope. -/
def Form.seal (form : Form) (category isActive id : Value) : Envelope :=
  { name := form.name, description := form.description, category := .coerce category
    payload := .text (form.toJson {}), isActive, id }

namespace Envelope

/-- The names of the parts of an envelope; the first three must be told. -/
def partNames : List String :=
  ["name", "description", "form_payload", "category", "is_active", "id"]

/-- An envelope from its parts by their names. -/
def ofParts (v : Value) : Except Error Envelope :=
  match v with
  | .record ms =>
    if ((Members.names ms).all fun name => (partNames.map Value.text).contains name) ∧
        ((partNames.take 3).all fun name => Members.has ms name) then
      .ok {
        name := Members.getOrNull ms "name"
        description := Members.getOrNull ms "description"
        category := .coerce (Members.getOrNull ms "category")
        payload := Members.getOrNull ms "form_payload"
        isActive := Members.getD ms "is_active" (.bool true)
        id := Members.getOrNull ms "id" }
    else Value.fail .wrongKind
  | _ => Value.fail .wrongKind

/-- The storage body of an envelope. -/
def encode (e : Envelope) : Value :=
  .record (([("name", e.name), ("description", e.description),
    ("category", .int e.category.number), ("formPayload", e.payload),
    ("isActive", e.isActive)] : Members) ++ optional "id" e.id)

/-- The payload of a body: a text as it is, the JSON text of anything else. -/
def payloadText : Value → Value
  | .text s => .text s
  | v => .text (Json.write {} v)

/-- Reads a storage body. -/
def decode (body : Value) : Except Error Envelope := do
  if ← body.contains "formPayload" then
    let payload ← body.need "formPayload"
    let name ← body.get "name" (.text "")
    let description ← body.get "description" (.text "")
    let category ← body.getOrNull "category"
    let isActive ← body.get "isActive" (.bool true)
    let id ← body.getOrNull "id"
    pure { name, description, category := .coerce category, payload := payloadText payload
           isActive := .bool isActive.truthy, id }
  else
    let names ← body.elements
    let keys ← Value.sorted names
    .error (.bodyWithoutPayload keys)

end Envelope

/-- The value of a payload, which must be JSON text. -/
def readPayload (payload : Value) : Except Error Value :=
  match payload with
  | .text s => match Json.read s with
    | .ok v => .ok v
    | .error (.syntaxError reason) => .error (.payloadNotJson reason)
    | .error .longNumber => Value.fail .badValue
  | v => .error (.payloadNotJson
    s!"the JSON object must be str, bytes or bytearray, not {v.kindName}")

/-- A record with a member that it gets only if it has none of the name. -/
def withDefault (name : String) (v : Value) (ms : Members) : Members :=
  if Members.has ms name then ms else ms ++ [(.text name, v)]

/-- Reads a payload that has the shape of a form; `complete` fills in what an envelope knows. -/
def decodePayload (payload : Value) (complete : Members → Members) : Except Error Form := do
  let v ← readPayload payload
  let report := checkShape v
  if report.valid then
    match v with
    | .record ms => Form.decode (.record (complete ms))
    | v => Form.decode v
  else .error (.payloadMismatch report.errors)

/-- Takes the form out of an envelope. -/
def Envelope.open (e : Envelope) : Except Error Form :=
  decodePayload e.payload fun ms =>
    withDefault "description" e.description (withDefault "name" e.name ms)

/-- Takes a form from a storage body, or from a payload that stands alone. -/
def decodeSource (source : Value) : Except Error Form :=
  match source with
  | .record ms => do
    let envelope ← Envelope.decode (.record ms)
    envelope.open
  | payload => decodePayload payload id

/-- Opens a stored form for editing. -/
def openStored (stored : Except Error Form) : Opened :=
  match stored with
  | .ok form => openForm form defaultRootId false
  | .error e => if e.isDecoding then { outcome := .ok none, warnings := [.undecodable e] }
    else { outcome := .error e }

/-- Opens the form of a storage body, or of a payload that stands alone. -/
def loadTree (source : Value) : Opened := openStored (decodeSource source)

end BranchForm
