import FormFlow.Settings
import FormFlow.Text.DecimalDigit

/-!
# Arguments of the command

The command compiles an application or runs one of its events:

* `[--log-level LEVEL] compile FILE [--out DIR]`
* `[--log-level LEVEL] run-event FILE EVENT [--state TEXT | --state-file FILE]`

Options and operands mix freely after the word for what to do.  An option may be shortened to any start
that fits no other option, and its value may follow an equals sign.  After two dashes everything is an
operand.

## Principal results

* `collect_length` — collecting succeeds only with exactly as many operands as are expected.
-/

namespace FormFlow.Command

/-- What the command is asked to do. -/
inductive Action where
  | compile (appFile : String) (out : Option String)
  | runEvent (appFile eventId : String) (state stateFile : Option String)
deriving DecidableEq

/-- A use of the command. -/
structure Invocation where
  logLevel : Option LogLevel
  action : Action
deriving DecidableEq

/-- Why arguments are no use of the command. -/
inductive Refusal where
  /-- Help was asked for. -/
  | help
  /-- The arguments fit no use. -/
  | usage
deriving DecidableEq

/-! ## Classifying arguments -/

/-- What an argument is by its form. -/
inductive Form where
  | operand
  | option (name : String) (value : Option String)
  | unknownOption
  | ambiguous
deriving DecidableEq

/-- The options that ask for help. -/
def helpOptions : List String := ["-h", "--help"]

/-- A negative number: a dash, digits, and perhaps a point and digits. -/
def isNegativeNumber : List Char → Bool
  | '-' :: cs =>
    let isDigit (c : Char) : Bool := (Text.digitValue? c).isSome
    match cs.dropWhile isDigit with
    | [] => !cs.isEmpty
    | '.' :: rest => !rest.isEmpty && rest.all isDigit
    | _ => false
  | _ => false

/-- A text before the first equals sign, and the text after it. -/
def splitEquals (cs : List Char) : List Char × Option (List Char) :=
  match cs.dropWhile (· ≠ '=') with
  | [] => (cs, none)
  | _ :: rest => (cs.takeWhile (· ≠ '='), some rest)

/-- The options that a text may be short for, each with the value attached to it. -/
def abbreviations (options : List String) (cs : List Char) : List (String × Option String) :=
  match cs with
  | '-' :: '-' :: _ =>
    let (name, value) := splitEquals cs
    (options.filter fun o => name.isPrefixOf o.toList).map (·, value.map String.ofList)
  | _ =>
    options.filterMap fun o =>
      if o.toList = cs.take 2 then some (o, some (String.ofList (cs.drop 2)))
      else if cs.isPrefixOf o.toList then some (o, none)
      else none

/-- What an argument is, given the options. -/
def classify (options : List String) (arg : String) : Form :=
  let cs := arg.toList
  if options.contains arg then .option arg none
  else if cs.head? ≠ some '-' ∨ cs = ['-'] then .operand
  else
    let (name, value) := splitEquals cs
    if value.isSome ∧ options.contains (String.ofList name) then
      .option (String.ofList name) (value.map String.ofList)
    else
      match abbreviations options cs with
      | [(name, value)] => .option name value
      | _ :: _ :: _ => .ambiguous
      | [] => if isNegativeNumber cs || cs.contains ' ' then .operand else .unknownOption

/-! ## Collecting arguments -/

/-- Operands and options in the order given. -/
structure Collected where
  operands : List String
  options : Table String
deriving DecidableEq

/-- The value of an option, and the arguments after it: attached, or the next argument if that is an
operand. -/
def takeValue (options : List String) (value : Option String) (rest : List String) :
    Option (String × List String) :=
  match value, rest with
  | some v, _ => some (v, rest)
  | none, next :: rest =>
    if next ≠ "--" ∧ classify options next = .operand then some (next, rest) else none
  | none, [] => none

/-- Take one operand, if another one is expected. -/
def Collected.addOperand (c : Collected) (count : Nat) (operand : String) : Option Collected :=
  if c.operands.length < count then some { c with operands := c.operands ++ [operand] } else none

/-- Collect what follows two dashes: operands only. -/
def collectOperands (count : Nat) (c : Collected) : List String → Option Collected
  | [] => some c
  | operand :: rest => (c.addOperand count operand).bind fun c => collectOperands count c rest

/-- Collect arguments.  Help is given as soon as it is asked for; an argument that fits nowhere is a
refusal only after that.  `afterOperand` tells that an operand came just before, so that two dashes may
follow. -/
def collect (options : List String) (count : Nat) :
    (fuel : Nat) → (fits afterOperand : Bool) → Collected → List String →
      Except Refusal Collected
  | 0, _, _, _, _ => .error .usage
  | _ + 1, fits, _, c, [] => if fits ∧ c.operands.length = count then .ok c else .error .usage
  | fuel + 1, fits, afterOperand, c, arg :: rest =>
    if arg = "--" then
      match collectOperands count c rest with
      | some done =>
        if fits ∧ (!rest.isEmpty ∨ afterOperand) ∧ done.operands.length = count then .ok done
        else .error .usage
      | none => .error .usage
    else
      match classify (helpOptions ++ options) arg with
      | .operand =>
        match c.addOperand count arg with
        | some c => collect options count fuel fits true c rest
        | none => collect options count fuel false false c rest
      | .option name value =>
        if helpOptions.contains name then
          if value = none then .error .help else .error .usage
        else
          match takeValue (helpOptions ++ options) value rest with
          | none => .error .usage
          | some (value, rest) =>
            collect options count fuel fits false
              { c with options := c.options ++ [(name, value)] } rest
      | .unknownOption => collect options count fuel false false c rest
      | .ambiguous => .error .usage

/-- Collecting succeeds only with exactly as many operands as are expected. -/
theorem collect_length {options : List String} {count fuel : Nat} {fits afterOperand : Bool}
    {c done : Collected} {args : List String}
    (h : collect options count fuel fits afterOperand c args = .ok done) :
    done.operands.length = count := by
  induction fuel generalizing fits afterOperand c args with
  | zero => simp [collect] at h
  | succ fuel ih =>
    cases args with
    | nil =>
      simp only [collect] at h
      split at h
      · rename_i hc
        cases h
        exact hc.2
      · cases h
    | cons arg rest =>
      rw [collect] at h
      split at h
      · split at h
        · split at h
          · rename_i hc
            cases h
            exact hc.2.2
          · cases h
        · cases h
      · split at h
        · split at h <;> exact ih h
        · split at h
          · split at h <;> cases h
          · split at h
            · cases h
            · exact ih h
        · exact ih h
        · cases h

/-- The value of the last occurrence of an option. -/
def Collected.last? (c : Collected) (name : String) : Option String :=
  Table.get? c.options.reverse name

/-! ## Uses of the command -/

/-- The arguments of `compile`. -/
def parseCompile (args : List String) : Except Refusal Action := do
  let c ← collect ["--out"] 1 (args.length + 1) true false ⟨[], []⟩ args
  match c.operands with
  | [appFile] => .ok (.compile appFile (c.last? "--out"))
  | _ => .error .usage

/-- The arguments of `run-event`; the state is given in one way only. -/
def parseRunEvent (args : List String) : Except Refusal Action := do
  let c ← collect ["--state", "--state-file"] 2 (args.length + 1) true false ⟨[], []⟩ args
  match c.operands, c.last? "--state", c.last? "--state-file" with
  | _, some _, some _ => .error .usage
  | [appFile, eventId], state, stateFile => .ok (.runEvent appFile eventId state stateFile)
  | _, _, _ => .error .usage

/-- The word for what to do, and its arguments. -/
def parseAction (word : String) (args : List String) : Except Refusal Action :=
  match word with
  | "compile" => parseCompile args
  | "run-event" => parseRunEvent args
  | _ => .error .usage

/-- Read arguments: options that hold for every use come first. -/
def parseFrom : (fuel : Nat) → (fits : Bool) → Option LogLevel → List String →
    Except Refusal Invocation
  | 0, _, _, _ | _, _, _, [] => .error .usage
  | fuel + 1, fits, level, arg :: rest =>
    if arg = "--" then .error .usage
    else
      match classify (helpOptions ++ ["--log-level"]) arg with
      | .operand => do
        let action ← parseAction arg rest
        if fits then .ok ⟨level, action⟩ else .error .usage
      | .option name value =>
        if helpOptions.contains name then
          if value = none then .error .help else .error .usage
        else
          match takeValue (helpOptions ++ ["--log-level"]) value rest with
          | none => .error .usage
          | some (value, rest) =>
            match LogLevel.names.get? value with
            | none => .error .usage
            | some level => parseFrom fuel fits (some level) rest
      | .unknownOption => parseFrom fuel false level rest
      | .ambiguous => .error .usage

/-- Read the arguments of the command. -/
def parse (args : List String) : Except Refusal Invocation :=
  parseFrom (args.length + 1) true none args

end FormFlow.Command
