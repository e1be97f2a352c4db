import FormFlow.App
import FormFlow.Provider
import FormFlow.Settings

/-!
# Clients of model providers

A prompt to a provider other than the offline one goes through a client, which is set up from the
settings, a model, a temperature and the provider's key.  The key comes from the environment.  Providers
without a key are not registered.

## Principal results

* `register_names` — the offline provider is always registered, the others exactly if they have a key.
-/

namespace FormFlow

/-- The providers that clients exist for. -/
inductive Backend where
  | openai | anthropic
deriving DecidableEq

namespace Backend

/-- All backends, in the order in which they are registered. -/
def all : List Backend := [openai, anthropic]

/-- The provider that a backend serves. -/
def provider : Backend → ProviderName
  | openai => .openai
  | anthropic => .anthropic

/-- The name of a backend. -/
def name (b : Backend) : String := b.provider.text

/-- The backend with a name. -/
def ofName? (name : String) : Option Backend := all.find? fun b => b.name = name

/-- The variable that holds a backend's key. -/
def keyVariable : Backend → String
  | openai => "OPENAI_API_KEY"
  | anthropic => "ANTHROPIC_API_KEY"

/-- The name of a backend's kind of client. -/
def clientKind : Backend → String
  | openai => "ChatOpenAI"
  | anthropic => "ChatAnthropic"

/-- The argument under which a client takes the limit on an answer's length. -/
def limitArgument : Backend → String
  | openai => "max_completion_tokens"
  | anthropic => "max_tokens"

/-- The key of a backend, without the blanks around it; an empty one counts as none. -/
def key? (env : Environment) (b : Backend) : Option String :=
  ((env.get? b.keyVariable).map Text.trimString).filter (· ≠ "")

end Backend

/-! ## Setting up clients -/

/-- Why a client cannot be set up. -/
inductive ClientError where
  | blankModel
  | badSettings (error : SettingsError)
  | missingKey (backend : Backend)
  /-- No variable holds the key of a provider. -/
  | noKeyVariable (provider : String)
  | unsupported (provider : String)
deriving DecidableEq

/-- The wording of a fault. -/
def ClientError.message : ClientError → String
  | blankModel => "model_name must be a non-empty string"
  | badSettings error => error.message
  | missingKey b => s!"{b.keyVariable} is required for the '{b.name}' provider"
  | noKeyVariable provider => Text.quoted provider
  | unsupported provider => s!"Unsupported chat provider: {Text.quoted provider}"

/-- A client that is set up. -/
structure Client where
  backend : Backend
  model : String
  temperature : Number
  apiKey : String
  settings : Settings
deriving DecidableEq

namespace Client

/-- The arguments of a client. -/
def arguments (c : Client) : Table Json :=
  [("model", .str c.model), ("temperature", .num c.temperature),
    ("timeout", .ofInt c.settings.timeout), ("max_retries", .ofInt c.settings.maxRetries),
    ("api_key", .str c.apiKey), (c.backend.limitArgument, .ofInt c.settings.maxTokens)]

/-- The key of a provider by its name. -/
def requireKey (env : Environment) (provider : String) : Except ClientError String :=
  match Backend.ofName? provider with
  | none => .error (.noKeyVariable provider)
  | some b =>
    match b.key? env with
    | some key => .ok key
    | none => .error (.missingKey b)

/-- Set up a client for a provider.  A key that is not given is looked up in the environment. -/
def create (provider model : String) (temperature : Number)
    (settings : Except SettingsError Settings) (givenKey : Option String) (env : Environment) :
    Except ClientError Client :=
  if Text.trimString model = "" then .error .blankModel
  else
    match settings with
    | .error e => .error (.badSettings e)
    | .ok settings =>
      match givenKey.map .ok |>.getD (requireKey env provider) with
      | .error e => .error e
      | .ok key =>
        match Backend.ofName? provider with
        | some b => .ok ⟨b, model, temperature, key, settings⟩
        | none => .error (.unsupported provider)

end Client

/-! ## Registries -/

/-- The registry of an environment: the offline provider and, for each backend with a key, a provider
that is made from the key. -/
def register (env : Environment) (make : Backend → String → Provider) : Registry :=
  ("mock", Provider.fixed Provider.defaultPayload) ::
    Backend.all.filterMap fun b => (b.key? env).map fun key => (b.name, make b key)

/-- The offline provider is registered always, the others exactly if they have a key. -/
theorem register_names {env : Environment} {make : Backend → String → Provider} {name : String} :
    name ∈ (register env make).keys ↔
      name = "mock" ∨ ∃ b : Backend, b.name = name ∧ (b.key? env).isSome = true := by
  have hall : ∀ b : Backend, b ∈ Backend.all := by
    intro b
    cases b <;> decide
  simp only [register, Table.keys, List.map_cons, List.mem_cons, List.mem_map, List.mem_filterMap,
    Option.map_eq_some_iff, Option.isSome_iff_exists]
  constructor
  · rintro (h | ⟨_, ⟨b, _, key, hk, rfl⟩, rfl⟩)
    · exact .inl h
    · exact .inr ⟨b, rfl, key, hk⟩
  · rintro (h | ⟨b, rfl, key, hk⟩)
    · exact .inl h
    · exact .inr ⟨_, ⟨b, hall b, key, hk, rfl⟩, rfl⟩

end FormFlow
