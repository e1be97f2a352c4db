import FormFlow.Environment
import FormFlow.Text.Integer
import FormFlow.Text.Quoted

/-!
# Settings

Settings come from environment variables, with a default for each that is unset.  Numbers are read
first, in order, then the texts are checked; the first fault is reported.

A number may be surrounded by white space, carry a sign, use the decimal digits of any script and group them
with single underscores.  Texts lose the blanks around them.

## Principal results

* `readBounded_mem` — a number that is read lies within its bounds.
-/

namespace FormFlow

/-! ## Log levels -/

/-- How grave a log record is. -/
inductive LogLevel where
  | debug | info | warning | error | critical
deriving DecidableEq

namespace LogLevel

/-- The levels by name. -/
def names : Table LogLevel :=
  [("CRITICAL", critical), ("DEBUG", debug), ("ERROR", error), ("INFO", info),
    ("WARNING", warning)]

/-- The name of a level. -/
def text : LogLevel → String
  | debug => "DEBUG"
  | info => "INFO"
  | warning => "WARNING"
  | error => "ERROR"
  | critical => "CRITICAL"

theorem names_text (l : LogLevel) : names.get? l.text = some l := by
  cases l <;> decide

/-- The rank of a level: a logger lets through what ranks at least as high as itself. -/
def rank : LogLevel → Nat
  | debug => 10
  | info => 20
  | warning => 30
  | error => 40
  | critical => 50

/-- A record of a level passes a logger. -/
def passes (record logger : LogLevel) : Bool := decide (logger.rank ≤ record.rank)

end LogLevel

/-! ## Settings and their faults -/

/-- What is wrong with the environment. -/
inductive SettingsError where
  | notInteger (variableName text : String)
  | tooSmall (variableName : String) (least value : Int)
  | tooLarge (variableName : String) (most value : Int)
  | emptyOutRoot
  | emptyImageTag
  | blankInImageTag (tag : String)
  | unknownLogLevel
deriving DecidableEq

/-- The wording of a fault. -/
def SettingsError.message : SettingsError → String
  | notInteger name text => s!"{name} must be an integer, got: {Text.quoted text}"
  | tooSmall name least value => s!"{name} must be >= {least}, got: {value}"
  | tooLarge name most value => s!"{name} must be <= {most}, got: {value}"
  | emptyOutRoot => "FORM_BUILDER_OUT_ROOT must be non-empty"
  | emptyImageTag => "FORM_BUILDER_IMAGE_TAG must be non-empty"
  | blankInImageTag tag =>
    s!"FORM_BUILDER_IMAGE_TAG must not contain whitespace, got: {Text.quoted tag}"
  | unknownLogLevel =>
    "FORM_BUILDER_LOG_LEVEL must be one of: " ++ String.intercalate ", " LogLevel.names.keys

/-- The settings of a build and of the clients of model providers. -/
structure Settings where
  outRoot : String
  imageTag : String
  /-- Seconds until a request is given up. -/
  timeout : Int
  maxRetries : Int
  maxTokens : Int
  logLevel : LogLevel
deriving DecidableEq

namespace Settings

/-- The settings of an empty environment. -/
def default : Settings := ⟨"generated", "latest", 120, 3, 600, .info⟩

/-! ## Reading numbers -/

/-- A variable with the bounds of its number. -/
structure Bounded where
  name : String
  default : Int
  least : Int
  most : Int

/-- An integer in text. -/
def parseInteger? (text : String) : Option Int :=
  let cs := Text.trimWhere Text.isSpace text.toList
  if (cs.filter fun c => (Text.digitValue? c).isSome).length ≤ digitLimit then
    Text.readInt? Text.digitValue? cs
  else none

/-- The number of a variable. -/
def readBounded (env : Environment) (b : Bounded) : Except SettingsError Int :=
  match env.get? b.name with
  | none => .ok b.default
  | some text =>
    match parseInteger? text with
    | none => .error (.notInteger b.name text)
    | some n =>
      if n < b.least then .error (.tooSmall b.name b.least n)
      else if b.most < n then .error (.tooLarge b.name b.most n)
      else .ok n

theorem readBounded_mem {env : Environment} {b : Bounded} {n : Int}
    (hd : b.least ≤ b.default ∧ b.default ≤ b.most) (h : readBounded env b = .ok n) :
    b.least ≤ n ∧ n ≤ b.most := by
  unfold readBounded at h
  split at h
  · injection h with h
    exact h ▸ hd
  · split at h
    · cases h
    · split at h
      · cases h
      · split at h
        · cases h
        · injection h with h
          omega

/-- Seconds until a request is given up. -/
def timeoutVariable : Bounded := ⟨"FORM_BUILDER_PROVIDER_TIMEOUT", default.timeout, 1, 3600⟩

/-- How often a failed request is repeated. -/
def retriesVariable : Bounded := ⟨"FORM_BUILDER_PROVIDER_MAX_RETRIES", default.maxRetries, 0, 20⟩

/-- How long an answer may be. -/
def tokensVariable : Bounded :=
  ⟨"FORM_BUILDER_MAX_COMPLETION_TOKENS", default.maxTokens, 1, 10000000⟩

/-- The names of all variables that settings are read from. -/
def variableNames : List String :=
  [timeoutVariable.name, retriesVariable.name, tokensVariable.name, "FORM_BUILDER_OUT_ROOT",
    "FORM_BUILDER_IMAGE_TAG", "FORM_BUILDER_LOG_LEVEL"]

/-! ## Reading texts -/

/-- The text of a variable without the blanks around it. -/
def trimmed (env : Environment) (name default : String) : String :=
  Text.trimString ((env.get? name).getD default)

/-- The directory under which a build puts its files. -/
def readOutRoot (env : Environment) : Except SettingsError String :=
  let root := trimmed env "FORM_BUILDER_OUT_ROOT" default.outRoot
  if root = "" then .error .emptyOutRoot else .ok root

/-- The tag of an image. -/
def readImageTag (env : Environment) : Except SettingsError String :=
  let tag := trimmed env "FORM_BUILDER_IMAGE_TAG" default.imageTag
  if tag = "" then .error .emptyImageTag
  else if tag.toList.any Text.isBlank then .error (.blankInImageTag tag)
  else .ok tag

/-- A letter as the names of levels have it: the dotless i is a small form of the Latin I. -/
def capital (c : Char) : Char := if c = 'ı' then 'I' else c.toUpper

/-- The log level, by its name in any case. -/
def readLogLevel (env : Environment) : Except SettingsError LogLevel :=
  let name := (trimmed env "FORM_BUILDER_LOG_LEVEL" default.logLevel.text).toList.map capital
  match LogLevel.names.get? (String.ofList name) with
  | some level => .ok level
  | none => .error .unknownLogLevel

/-! ## Reading all settings -/

/-- The settings of an environment. -/
def ofEnvironment (env : Environment) : Except SettingsError Settings := do
  let timeout ← readBounded env timeoutVariable
  let maxRetries ← readBounded env retriesVariable
  let maxTokens ← readBounded env tokensVariable
  let outRoot ← readOutRoot env
  let imageTag ← readImageTag env
  let logLevel ← readLogLevel env
  return ⟨outRoot, imageTag, timeout, maxRetries, maxTokens, logLevel⟩

end Settings

end FormFlow
