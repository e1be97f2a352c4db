import FormFlow.Prompt
import FormFlow.Proofs.Composition
import FormFlow.Proofs.Rereading

/-!
# Values that were written are read as they were

A value that repeats no key, and whose numbers are integers that are not too long, is read from its text on one
line as it was.  So a provider that always answers with one payload hands on that payload, and a value that is
written into a prompt can be read there.

## Principal results

* `parseText_render`, `parseResponse_render` — a value is read from its text;
* `ask_fixed` — what comes of asking a provider with a fixed payload;
* `encoded_value_reads` — the texts of a value in answers and in prompts.
-/

namespace FormFlow

variable {v : Json}

/-- The text of a value on one line is read as that value. -/
theorem Prompt.parseText_render (hkeys : v.Distinct) (hnumbers : v.Readable) :
    parseText (Json.render Json.inline v) = .ok (.ofJson v) := by
  have hread := Json.readText_write Json.inline_legible hkeys hnumbers (List.forall_mem_nil _) .strict
  rw [List.append_nil] at hread
  rw [parseText, Json.render, String.toList_ofList, hread]

theorem Prompt.parseResponse_render (hkeys : v.Distinct) (hnumbers : v.Readable) :
    parseResponse (Json.render Json.inline v) = .ok v := by
  rw [parseResponse, parseText_render hkeys hnumbers, Except.map, Json.Reading.toJson_ofJson]

/-- **A provider with a fixed payload hands on that payload**: what comes of asking it is the check of the
payload against the declared shape. -/
theorem Prompt.ask_fixed (hkeys : v.Distinct) (hnumbers : v.Readable) {registry : Registry}
    {policy : ModelPolicy} {values : Table Json} {template text : String}
    (hprovider : registry.get? policy.provider.text = some (Provider.fixed v))
    (hfilled : Template.interpolate values template = .ok text) (shape : Table Json) (earlier : List Request) :
    ask registry policy shape values template earlier =
      { requests := earlier ++ [⟨policy.provider.text, instruction ++ "\n" ++ text, policy.model,
          temperature policy⟩]
        result := (checkOutput shape v).map
          (⟨·, Json.render Json.inline v, [("provider", .str "mock")]⟩) } := by
  have hreceive : receive shape (Json.render Json.inline v) = checkOutput shape v := by
    rw [receive, parseResponse_render hkeys hnumbers]
  rw [ask, requestFor, hfilled]
  dsimp only
  rw [hprovider]
  dsimp only
  rw [Provider.fixed_of_writable hnumbers.writable]
  dsimp only
  rw [hreceive]

namespace Template

variable {values : Table Json} {inner : List Char}

theorem promptText_of_not_str (hstr : ∀ s, v ≠ .str s) : promptText v = Json.render Json.inline v := by
  cases v with
  | str s => exact absurd rfl (hstr s)
  | _ => rfl

/-- A value that is no string is written into a prompt as its text on one line. -/
theorem shown_of_not_str (hstr : ∀ s, v ≠ .str s) (hv : values.get? (keyOf inner) = some v) :
    (Piece.token inner).shown values = Json.write Json.inline 0 v := by
  rw [Piece.shown, hv, Option.map_some, Option.getD_some, promptText_of_not_str hstr, Json.render,
    String.toList_ofList]

/-- What is filled in for a token stands between what is filled in before and behind it. -/
theorem interpolate_around {template text : String} (h : interpolate values template = .ok text)
    {front back : List Piece} (hscan : scan template.toList = front ++ .token inner :: back) :
    text = String.ofList (front.flatMap (Piece.shown values)) ++
      String.ofList ((Piece.token inner).shown values) ++ String.ofList (back.flatMap (Piece.shown values)) := by
  rw [(interpolate_ok_iff.1 h).2, hscan, List.flatMap_append, List.flatMap_cons, ← List.append_assoc,
    String.ofList_append, String.ofList_append]

end Template

/-- **A value is read from its text as it was**, whatever strings, escapes, signs and containers it holds.  A
prompt for a provider that always answers with it therefore gives what the check of that value gives, and no
fault of reading.  Where a template with it filled in has a token for it, and it is no string, its text stands in
the place of the token, and is read as it was. -/
theorem encoded_value_reads (hkeys : v.Distinct) (hnumbers : v.Readable) :
    Json.render? Json.inline v = .ok (Json.render Json.inline v) ∧
    Prompt.parseText (Json.render Json.inline v) = .ok (.ofJson v) ∧
    Prompt.parseResponse (Json.render Json.inline v) = .ok v ∧
    (∀ (registry : Registry) (policy : ModelPolicy) (shape values : Table Json) (template text : String)
        (earlier : List Request), registry.get? policy.provider.text = some (Provider.fixed v) →
      Template.interpolate values template = .ok text →
      Prompt.ask registry policy shape values template earlier =
        { requests := earlier ++ [⟨policy.provider.text, Prompt.instruction ++ "\n" ++ text, policy.model,
            Prompt.temperature policy⟩]
          result := (Prompt.checkOutput shape v).map
            (⟨·, Json.render Json.inline v, [("provider", .str "mock")]⟩) }) ∧
    ∀ (values : Table Json) (template text : String) (front back : List Template.Piece) (inner : List Char),
      Template.interpolate values template = .ok text →
      Template.scan template.toList = front ++ .token inner :: back →
      values.get? (Template.keyOf inner) = some v → (∀ s, v ≠ .str s) →
      ∃ inserted, Prompt.parseResponse inserted = .ok v ∧
        text = String.ofList (front.flatMap (Template.Piece.shown values)) ++ inserted ++
          String.ofList (back.flatMap (Template.Piece.shown values)) := by
  have hread := Prompt.parseResponse_render hkeys hnumbers
  refine ⟨Json.render?_of_writable hnumbers.writable _, Prompt.parseText_render hkeys hnumbers, hread,
    fun registry policy shape values template text earlier hprovider hfilled => ?_,
    fun values template text front back inner hfilled hscan hv hstr => ?_⟩
  · exact Prompt.ask_fixed hkeys hnumbers hprovider hfilled shape earlier
  · refine ⟨Json.render Json.inline v, hread, ?_⟩
    have htext := Template.interpolate_around hfilled hscan
    rwa [Template.shown_of_not_str hstr hv] at htext

/-- A payload of which much is written in escapes: quotes, backslashes, line ends, control characters, and
characters of one 16-bit unit and of two. -/
def escapedPayload : Json :=
  .obj [("naïve \"key\"\\", .arr [.str "😀\u0000/\n", .ofInt (-12345678901234567890), .obj [], .arr []]),
    ("reply", .str "é"), ("none", .null)]

theorem escapedPayload_readable : escapedPayload.Readable := by
  intro n hn
  obtain rfl := List.mem_singleton.1 (show n ∈ [.int (-12345678901234567890)] from hn)
  exact ⟨_, rfl, by decide⟩

/-- Of the payload the declared reply is left, and the prompt holds it whole. -/
theorem encoded_value_reads_escapes :
    escapedPayload.Distinct ∧ escapedPayload.Readable ∧
    Prompt.parseResponse ("\x7b\"na\\u00efve \\\"key\\\"\\\\\": [\"\\ud83d\\ude00\\u0000/\\n\", " ++
        "-12345678901234567890, \x7b\x7d, []], \"reply\": \"\\u00e9\", \"none\": null\x7d") =
      .ok escapedPayload ∧
    (Prompt.ask [("mock", Provider.fixed escapedPayload)] ⟨.mock, "m", none⟩ [("reply", .str "string")]
        [("draft", escapedPayload)] "Check {{ draft }}." []).result =
      .ok ⟨.obj [("reply", .str "é")], Json.render Json.inline escapedPayload, [("provider", .str "mock")]⟩ ∧
    ∃ text inserted, Template.interpolate [("draft", escapedPayload)] "Check {{ draft }}." = .ok text ∧
      text = "Check " ++ inserted ++ "." ∧ Prompt.parseResponse inserted = .ok escapedPayload := by
  have hkeys : escapedPayload.Distinct := by decide
  obtain ⟨_, _, hread, hask, hinserted⟩ := encoded_value_reads hkeys escapedPayload_readable
  have hlookups : Template.lookups "Check {{ draft }}." = ["draft"] := by decide +kernel
  obtain ⟨text, hfilled⟩ : ∃ text,
      Template.interpolate [("draft", escapedPayload)] "Check {{ draft }}." = .ok text := by
    rw [Template.exists_interpolate_iff, hlookups]
    exact List.forall_mem_singleton.2 ⟨_, rfl, escapedPayload_readable.writable⟩
  have hcheck : Prompt.checkOutput [("reply", .str "string")] escapedPayload =
      .ok (.obj [("reply", .str "é")]) := by decide +kernel
  refine ⟨hkeys, escapedPayload_readable, ?_, ?_, ?_⟩
  · exact (congrArg Prompt.parseResponse (by decide +kernel)).trans hread
  · rw [hask _ _ _ _ _ _ _ rfl hfilled]
    dsimp only
    rw [hcheck]
    rfl
  · obtain ⟨inserted, hparse, htext⟩ := hinserted _ _ _ ("Check ".toList.map .char) [.char '.'] " draft ".toList
      hfilled (by decide +kernel) (by decide +kernel) nofun
    exact ⟨text, inserted, hfilled, htext, hparse⟩

end FormFlow
