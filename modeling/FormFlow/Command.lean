import FormFlow.Command.Arguments
import FormFlow.Directory
import FormFlow.Provider.Client
import FormFlow.Session

/-!
# The command

`run` is the command as a function: from arguments, an environment and a working directory to an exit
code, what is printed, what is logged, and the directory afterwards.

`compile` prints the findings on an application and writes the files of its release.  `run-event`
compiles the application, runs one event in memory and prints its result.  Findings that refuse an
application are also logged as warnings; whatever else goes wrong is logged as an error, and the exit
code is one.
-/

namespace FormFlow.Command

/-- What the command runs in. -/
structure World where
  environment : Environment
  directory : Directory
  /-- The working directory's own path. -/
  home : String
  /-- The present time as text. -/
  now : String

/-- What the command leaves behind. -/
structure Report where
  exitCode : Nat
  printed : String
  log : List (LogLevel × String)
  directory : Directory
deriving DecidableEq

namespace Report

/-- The report of a command that has done nothing yet. -/
def start (w : World) : Report := ⟨0, "", [], w.directory⟩

/-- Print lines. -/
def print (r : Report) (lines : List String) : Report :=
  { r with printed := r.printed ++ String.join (lines.map (· ++ "\n")) }

/-- Log a record. -/
def record (r : Report) (level : LogLevel) (message : String) : Report :=
  { r with log := r.log ++ [(level, message)] }

/-- End with a failure. -/
def fail (r : Report) : Report := { r with exitCode := 1 }

/-- End with a failure to load or write something. -/
def unable (r : Report) (message : String) : Report :=
  (r.record .error ("Unable to load input: " ++ message)).fail

end Report

/-! ## Loading -/

/-- Read a text as JSON; unlike the answers of providers it may hold numbers that are not finite. -/
def parseText (text : String) : Except String Json :=
  match Json.read .lenient text.toList with
  | .ok v => .ok v
  | .error e => .error (e.message text.toList)

/-- Read a file as JSON. -/
def loadFile (w : World) (name : String) : Except String Json :=
  let path := Path.ofString name
  match w.directory.readFile? path with
  | some text => parseText text
  | none => .error ("Input file does not exist: " ++ path.text)

/-- Read the state of a form: from a file, from a text, or empty. -/
def loadState (w : World) (state stateFile : Option String) : Except String (Table Json) := do
  let value ←
    match stateFile with
    | some name => loadFile w name
    | none => parseText ((state.filter (· ≠ "")).getD "\x7b\x7d")
  match value with
  | .obj members => .ok members
  | _ => .error "state must be a JSON object"

/-- Load and compile an application; findings that refuse it are logged. -/
def loadApp (w : World) (settings : Settings) (name : String) :
    Except String (Compilation × Report) := do
  let raw ← loadFile w name
  match compile settings raw with
  | .error e =>
    match e.message with
    | .ok message => .error message
    | .error unnamed => .error unnamed.message
  | .ok c =>
    let refusals := if c.succeeded then [] else c.diagnostics.filter Diagnostic.isError
    .ok (c, refusals.foldl (fun r d => r.record .warning ("Compile blocked: " ++ d.render))
      (.start w))

/-! ## Compiling -/

/-- Write files below a directory. -/
def writeFiles (out : Path) : List Artifact → Directory → Except FileError Directory
  | [], d => .ok d
  | file :: rest, d => do
    let path := out.join (.ofString file.path)
    let d ← d.makeFolders path.parent
    let d ← d.putFile path file.content
    writeFiles out rest d

/-- Compile an application and write its files. -/
def runCompile (w : World) (settings : Settings) (appFile : String) (out : Option String) : Report :=
  match loadApp w settings appFile with
  | .error message => (Report.start w).unable message
  | .ok (c, r) =>
    let r := r.print (c.diagnostics.map Diagnostic.render)
    match c.release? with
    | none => r.fail
    | some release =>
      let path := Path.ofString (out.getD "")
      let place := if out.isSome then path.text else w.home
      match writeFiles path release.files w.directory with
      | .error e => r.unable e.message
      | .ok directory =>
        { r with directory := directory }.print
          ["image_name=" ++ release.imageName, "fingerprint=" ++ release.fingerprint,
            s!"generated {release.files.length} files into {place}"]

/-! ## Running events -/

/-- The result of an event as JSON. -/
def resultJson (now : String) (r : RunResult) : Json :=
  .obj [("statePatch", .obj (Json.finiteMembers r.statePatch)),
    ("logs", .arr (r.logs.map fun entry =>
      .obj [("at", .str now), ("eventId", .str entry.eventId), ("stage", .str entry.stage.text),
        ("message", .str entry.message)]))]

/-- A provider whose client cannot reach its service. -/
def unreachable (settings : Settings) (b : Backend) (key : String) : Provider :=
  .chat fun request =>
    match Client.create b.name request.model request.temperature (.ok settings) (some key) [] with
    | .error e => .error e.message
    | .ok _ => .error "Connection error."

/-- The registry of the command: keys may also come from a file in the working directory. -/
def registry (w : World) (settings : Settings) : Registry :=
  let file := (w.directory.readFile? (.ofString ".env")).getD ""
  register (w.environment.extend file) (unreachable settings)

/-- Compile an application and run one of its events. -/
def runRunEvent (w : World) (settings : Settings) (appFile eventId : String)
    (state stateFile : Option String) : Except Failure Report :=
  match loadApp w settings appFile with
  | .error message => .ok ((Report.start w).unable message)
  | .ok (c, r) =>
    match c.release? with
    | none => .ok (r.print (c.diagnostics.map Diagnostic.render)).fail
    | some release =>
      match loadState w state stateFile with
      | .error message => .ok (r.unable message)
      | .ok state =>
        match (runEvent release.app ⟨eventId, state, registry w settings⟩ []).result with
        | .ok result =>
          match Json.render? Json.indented (resultJson w.now result) with
          | .ok text => .ok (r.print [text])
          | .error e => .ok (r.unable e.message)
        | .error (.event e) =>
          .ok (r.record .error ("Event execution failed: " ++ e.text)).fail
        | .error (.provider message) => .ok (r.unable message)
        | .error (.value e) => .ok (r.unable e.message)
        | .error .badBound => .error .badBound

/-! ## The whole command -/

/-- The text up to the first line end. -/
def firstLine (s : String) : String := String.ofList (s.toList.takeWhile (· ≠ '\n'))

/-- Keep the records that pass a log level, the first line of each. -/
def Report.logged (r : Report) (level : LogLevel) : Report :=
  { r with log := (r.log.filter fun entry => entry.1.passes level).map fun entry =>
      (entry.1, firstLine entry.2) }

/-- Run the command.  Only an output shape with a length bound that cannot be kept breaks it off. -/
def run (w : World) (args : List String) : Except Failure Report :=
  match parse args with
  | .error .help => .ok (.start w)
  | .error .usage => .ok { Report.start w with exitCode := 2 }
  | .ok invocation =>
    match Settings.ofEnvironment w.environment with
    | .error e =>
      .ok (((Report.start w).record .error ("Invalid configuration: " ++ e.message)).fail.logged
        .info)
    | .ok settings =>
      let level := invocation.logLevel.getD settings.logLevel
      match invocation.action with
      | .compile appFile out => .ok ((runCompile w settings appFile out).logged level)
      | .runEvent appFile eventId state stateFile =>
        (runRunEvent w settings appFile eventId state stateFile).map (·.logged level)

end FormFlow.Command
