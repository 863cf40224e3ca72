import LazyLisp.Cli.Command
import LazyLisp.Threads
import Std.Time.DateTime.Timestamp

/-!
# Main — the command line program on a terminal

The outermost layer: it takes arguments, variables, files and lines from the system and hands them
to the library.  Evaluations are driven here turn by turn, so that background work goes on beside the
main evaluation and while a line is awaited, printed lines appear at once, waiting takes time, and the
clock and the environment are those of the system.
-/

open LazyLisp

/-! ## Input and output -/

/-- Write to standard output, at once. -/
def put (text : String) : IO Unit := do
  let stdout ← IO.getStdout
  stdout.putStr text
  stdout.flush

/-- The text of a file. -/
def readFile (path : String) : IO (Except Cli.Fault String) := do
  try
    let bytes ← IO.FS.readBinFile path
    match String.fromUTF8? bytes with
    | some text => return .ok text
    | none => return .error .notText
  catch error =>
    match error with
    | .noFileOrDirectory .. => return .error .notFound
    | .permissionDenied .. => return .error .permissionDenied
    | other => return .error (.other (toString other))

/-! ## Evaluations -/

/-- The evaluations under way, and the times at which those that pause go on. -/
structure Crew where
  system : Async.System := ⟨Cli.startStore {}, fun _ => .idle⟩
  alarms : List (EvaluationId × Nat) := []

/-- The main evaluation begins. -/
def Crew.begin (crew : Crew) (state : Machine.State) : Crew :=
  { crew with
    system := crew.system.put Machine.mainEvaluation (Async.activityOf state) state.store }

/-- Bring the world up to date for a request that looks at it. -/
def refresh (activity : Async.Activity) (store : Store) : IO Store := do
  match activity with
  | .working (.run (.ask .clock _)) _ _ =>
      let now ← Std.Time.Timestamp.now
      let clock := now.toMillisecondsSinceUnixEpoch.val.toNat
      return { store with world := { store.world with clock := clock } }
  | .working (.run (.ask (.environmentVariable name) _)) _ _ =>
      let environment := match ← IO.getEnv name with
        | some text => [(name, text)]
        | none => []
      return { store with world := { store.world with environment := environment } }
  | _ => return store

/-- Let a thread take its turn, and say whether anything has happened.  A thread that asks for a pause
goes on when the pause is over. -/
def takeTurn (thread : EvaluationId) (crew : Crew) : IO (Bool × Crew) := do
  let ⟨⟨store, threads⟩, alarms⟩ := crew
  let activity := threads thread
  match activity, alarms.lookup thread with
  | .working (.run (.ask (.pause milliseconds) _)) _ _, none =>
      let now ← IO.monoMsNow
      return (true, ⟨⟨store, threads⟩, (thread, now + milliseconds) :: alarms⟩)
  | _, alarm =>
      if let some time := alarm then
        if (← IO.monoMsNow) < time then
          return (false, ⟨⟨store, threads⟩, alarms⟩)
      let store ← refresh activity store
      let (moved, ⟨store, threads⟩) := Async.System.turn Host.standard thread ⟨store, threads⟩
      let (text, store) := store.takeOutput
      unless text.isEmpty do
        put text
      return (moved, ⟨⟨store, threads⟩, alarms.filter (·.1 != thread)⟩)

/-- Every thread takes its turns, a few at a time. -/
def takeTurns (crew : Crew) : IO (Bool × Crew) := do
  let mut crew := crew
  let mut moved := false
  for thread in [0 : crew.system.store.workers + 1] do
    for _ in [0 : 64] do
      let (goesOn, later) ← takeTurn thread crew
      crew := later
      unless goesOn do break
      moved := true
  return (moved, { crew with system := crew.system.tabulate })

/-- Drive the threads until the main evaluation is finished. -/
partial def drive (crew : Crew) : IO (Result × Crew) := do
  match crew.system.threads Machine.mainEvaluation with
  | .finished result => return (result, crew)
  | _ =>
      let (moved, crew) ← takeTurns crew
      unless moved do
        IO.sleep 1
      drive crew

/-- Drive the threads until a line was entered. -/
partial def await (line : Task (Except IO.Error String)) (crew : Crew) : IO (String × Crew) := do
  if ← IO.hasFinished line then
    return (← IO.ofExcept line.get, crew)
  let (moved, crew) ← takeTurns crew
  unless moved do
    IO.sleep 1
  await line crew

/-- The interactive session, from a phase on. -/
partial def interact (prompt : String) (phase : Repl.Phase) (crew : Crew) : IO UInt32 := do
  match phase.action prompt with
  | .write text next =>
      put text
      interact prompt next crew
  | .read next =>
      let input ← IO.getStdin
      let (line, crew) ← await (← IO.asTask input.getLine .dedicated) crew
      interact prompt (next line) crew
  | .evaluate form next =>
      let (result, crew) ← drive (crew.begin (.ofForm form .base crew.system.store))
      interact prompt (next result) crew
  | .stop => return 0

/-- Evaluate a program; `value` and `failure` say what to write about its outcome. -/
def runProgram (source : String) (value failure : String → String) : IO UInt32 := do
  let crew : Crew := {}
  let program := Program.evaluate source .base
  match ← drive (crew.begin (.ofScript program crew.system.store)) with
  | (.ok result, _) =>
      put (value result.display)
      return 0
  | (.error error, _) =>
      IO.eprint (failure error.render)
      return 1

def main (arguments : List String) : IO UInt32 := do
  let names := ["OCELOT_PROMPT", "OCELOT_LOG", "RUST_LOG", "OCELOT_LOG_TREE"]
  let environment ← names.filterMapM fun name => do
    return (← IO.getEnv name).map fun text => (name, text)
  let (settings, rest) :=
    (Cli.Settings.ofVariables fun name => environment.lookup name).takeFlags arguments
  match Cli.Command.ofArguments rest with
  | .repl => interact settings.prompt (.asking "") {}
  | .evaluate source =>
      runProgram source (fun text => text ++ "\n") (fun text => "error: " ++ text ++ "\n")
  | .runFile path =>
      match ← readFile path with
      | .ok source =>
          runProgram source (fun _ => "")
            (fun text => "error in '" ++ path ++ "': " ++ text ++ "\n")
      | .error fault =>
          IO.eprint (fault.message path ++ "\n")
          return 1
  | other =>
      let report := other.run Host.standard 0 settings ⟨.ofList [], "", {}⟩
      put report.output
      IO.eprint report.errors
      return report.code.toUInt32
