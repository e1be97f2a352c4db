import FormFlow.Json.Display
import FormFlow.Json.Printer

/-!
# Model providers

A provider answers a prompt with text.  What it answers may depend on the requests made before, so a
provider is a function of the earlier requests and the present one; it answers or breaks down with a
message.

## Principal results

* `fixed_of_writable`, `fixed_const` — what a provider with a fixed payload answers, to every request alike;
* `scripted_getElem?` — a scripted provider answers with the text that is its turn.
-/

namespace FormFlow

/-- A request to a provider. -/
structure Request where
  provider : String
  prompt : String
  model : String
  temperature : Number
deriving DecidableEq

/-- An answer of a provider: its text, and details about its origin. -/
structure Reply where
  text : String
  details : Table Json
deriving DecidableEq

/-- A provider: from the earlier requests and the present one to an answer, or to the message with which
it breaks down. -/
abbrev Provider := List Request → Request → Except String Reply

/-- Providers by name. -/
abbrev Registry := Table Provider

namespace Provider

/-! ## Fixed answers -/

/-- The payload of the offline provider. -/
def defaultPayload : Json :=
  .obj [("sentiment", .str "neutral"),
    ("reply", .str ("Thank you for sharing this feedback. We are reviewing your concern and will " ++
      "follow up shortly."))]

/-- The provider that always answers with one payload; it breaks down if the payload has no text. -/
def fixed (payload : Json) : Provider := fun _ _ =>
  match Json.render? Json.inline payload with
  | .ok text => .ok ⟨text, [("provider", .str "mock")]⟩
  | .error e => .error e.message

theorem fixed_of_writable {payload : Json} (h : payload.Writable) (earlier : List Request) (request : Request) :
    fixed payload earlier request = .ok ⟨Json.render Json.inline payload, [("provider", .str "mock")]⟩ := by
  rw [fixed, Json.render?_of_writable h]

theorem fixed_const (payload : Json) (earlier later : List Request) (r s : Request) :
    fixed payload earlier r = fixed payload later s := rfl

/-! ## Scripted answers -/

/-- How many of the earlier requests went to the same provider. -/
def turn (earlier : List Request) (request : Request) : Nat :=
  earlier.countP fun r => r.provider == request.provider

/-- The provider that answers with one text after another.  When they are used up it goes on with the
last one, or breaks down with a message. -/
def scripted (texts : List String) (repeatLast : Bool) (exhausted : String) : Provider :=
  fun earlier request =>
    match texts[turn earlier request]?.or (if repeatLast then texts.getLast? else none) with
    | some text => .ok ⟨text, [("model", .str request.model)]⟩
    | none => .error exhausted

theorem scripted_getElem? {texts : List String} {earlier : List Request} {request : Request}
    {text : String} (h : texts[turn earlier request]? = some text) (repeatLast : Bool)
    (exhausted : String) :
    scripted texts repeatLast exhausted earlier request = .ok ⟨text, [("model", .str request.model)]⟩ := by
  simp [scripted, h]

/-- The provider that always breaks down. -/
def broken (message : String) : Provider := fun _ _ => .error message

/-! ## Chat models -/

/-- A message of a chat model: a text or a list of blocks, an id and details. -/
structure ChatMessage where
  content : Json
  id : Json
  metadata : Table Json
deriving DecidableEq

/-- The value that a block of a message shows: a string, or what an object that is marked as text holds. -/
def blockText? : Json → Option Json
  | .str s => some (.str s)
  | .obj members =>
    if Table.get? members "type" = some (.str "text") then some ((Table.get? members "text").getD (.str ""))
    else none
  | _ => none

/-- The text of a message: the texts of its blocks run together, or an empty object if it has none. -/
def contentText : Json → Except ValueError String
  | .str s => .ok s
  | .arr blocks =>
    match blocks.filterMap blockText? with
    | [] => .ok "\x7b\x7d"
    | shown => (shown.mapM Json.display?).map String.join
  | _ => .ok "\x7b\x7d"

/-- A value that stands for nothing: null, false, zero, or empty. -/
def standsForNothing : Json → Bool
  | .null | .bool false | .str "" | .arr [] | .obj [] => true
  | .num (.int n) => n == 0
  | .num (.float x) => x == 0.0
  | _ => false

/-- The details of a message about its model: the name that it reports, or else the one asked for. -/
def ChatMessage.details (m : ChatMessage) (request : Request) : Table Json :=
  let reported := (["model_name", "model"].filterMap m.metadata.get?).find? fun v =>
    !standsForNothing v
  [("id", m.id), ("model", reported.getD (.str request.model))]

/-- The provider that hands each prompt to a chat model. -/
def chat (model : Request → Except String ChatMessage) : Provider := fun _ request => do
  let m ← model request
  let text ← (contentText m.content).mapError ValueError.message
  return ⟨text, m.details request⟩

end Provider

end FormFlow
