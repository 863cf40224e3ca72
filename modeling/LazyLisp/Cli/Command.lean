import LazyLisp.Cli.Files
import LazyLisp.Cli.Settings
import LazyLisp.Host.Functions
import LazyLisp.Repl

/-!
# Command — the command line program

The command line consists of settings flags, which may stand anywhere, and a command with its
operand.  This file defines:

* `Command` and `Command.ofArguments`, what the arguments ask for;
* `Report`, what a finished command leaves on the two output streams, and its exit code;
* `Command.run`, the report of a command, and `Cli.run`, that of a whole command line.
-/

namespace LazyLisp
namespace Cli

/-! ## Commands -/

/-- What the arguments ask for. -/
inductive Command where
  | repl
  /-- Evaluate source text and show the value. -/
  | evaluate (source : String)
  | missingSource
  /-- Evaluate the forms of a file. -/
  | runFile (path : String)
  | missingPath
  | help
  | version
  | unknown (name : String)
deriving DecidableEq, Repr

/-- The last component of a path, if it names something. -/
def fileName? (path : String) : Option String :=
  match ((Directory.components path).filter fun part => part ≠ "" ∧ part ≠ ".").getLast? with
  | some ".." => none
  | name => name

/-- Whether a path looks like a source file: its name has a stem and the extension `oc`, in any
case. -/
def isSourcePath (path : String) : Bool :=
  match (fileName? path).map fun name => name.toList.reverse with
  | some (c :: o :: '.' :: _ :: _) => c.toLower == 'c' && o.toLower == 'o'
  | _ => false

/-- What the arguments ask for, settings flags taken out. -/
def Command.ofArguments : List String → Command
  | [] => .repl
  | "repl" :: _ => .repl
  | "eval" :: source :: _ => .evaluate source
  | "-e" :: source :: _ => .evaluate source
  | ["eval"] => .missingSource
  | ["-e"] => .missingSource
  | "run" :: path :: _ => .runFile path
  | ["run"] => .missingPath
  | "help" :: _ => .help
  | "--help" :: _ => .help
  | "-h" :: _ => .help
  | "version" :: _ => .version
  | "--version" :: _ => .version
  | "-V" :: _ => .version
  | name :: _ => if isSourcePath name then .runFile name else .unknown name

/-! ## Reports -/

/-- What a command leaves behind. -/
structure Report where
  code : Nat
  output : String
  errors : String
deriving DecidableEq, Repr

def usage : String :=
  "Ocelot, a small lazy Lisp\n\nUsage: ocelot [options] [command]\n\nCommands:\n" ++
  "  repl                 Start the interactive loop (default)\n" ++
  "  eval <expr>          Evaluate one expression and print it (also -e)\n" ++
  "  run <file.oc>        Evaluate every form in a file\n" ++
  "  help                 Show this help message\n" ++
  "  version              Show the version\n\nOptions:\n" ++
  "  --prompt=<text>      REPL prompt (env: OCELOT_PROMPT)\n" ++
  "  --log=<filter>       Log filter, e.g. ocelot_eval=debug (env: OCELOT_LOG, RUST_LOG)\n" ++
  "  --log-tree           Hierarchical log output (env: OCELOT_LOG_TREE=1)\n"

def versionLine : String := "Ocelot 0.1.0\n"

def missingSourceText : String :=
  "Usage: ocelot eval <expression>\nExample: ocelot eval '(add 1 2)'\n"

def missingPathText : String :=
  "error: missing file path\nUsage: ocelot run <file.oc>\n"

/-- The store that commands start from. -/
def startStore (world : World) : Store :=
  { Store.base.install .base (HostFunction.worldly.map Prod.fst) with world := world }

/-- The report of a program that came to an end; `describe` says what a value and a failure add to
the two streams. -/
def reportOf (outcome : Machine.Outcome) (value failure : String → String) : Report :=
  match outcome with
  | .finished (.ok result) store => ⟨0, store.output ++ value result.display, ""⟩
  | .finished (.error error) store => ⟨1, store.output, failure error.render⟩
  | .blocked _ store => ⟨1, store.output, ""⟩
  | .unfinished state => ⟨1, state.store.output, ""⟩

/-- The report of evaluating source text from the command line. -/
def evaluateReport (host : Host) (fuel : Nat) (source : String) (world : World) : Report :=
  reportOf (Program.run host fuel source .base (startStore world))
    (fun text => text ++ "\n") (fun text => "error: " ++ text ++ "\n")

/-- The report of running a file, by its path and its contents. -/
def fileReport (host : Host) (fuel : Nat) (path : String) (contents : Except Fault String)
    (world : World) : Report :=
  match contents with
  | .error fault => ⟨1, "", fault.message path ++ "\n"⟩
  | .ok source =>
      reportOf (Program.run host fuel source .base (startStore world))
        (fun _ => "") (fun text => "error in '" ++ path ++ "': " ++ text ++ "\n")

/-- The report of an interactive session over the text `input`. -/
def replReport (host : Host) (fuel : Nat) (settings : Settings) (input : String) (world : World) :
    Report :=
  let (events, _) := Repl.transcript host fuel settings.prompt .base input (startStore world)
  ⟨0, Repl.screen events, ""⟩

/-- What surrounds the command line program. -/
structure Surroundings where
  directory : Directory
  /-- All text on standard input. -/
  input : String
  world : World

/-- The report of a command. -/
def Command.run (host : Host) (fuel : Nat) (settings : Settings) (surroundings : Surroundings) :
    Command → Report
  | .repl => replReport host fuel settings surroundings.input surroundings.world
  | .evaluate source => evaluateReport host fuel source surroundings.world
  | .missingSource => ⟨1, "", missingSourceText⟩
  | .runFile path =>
      fileReport host fuel path (surroundings.directory.read path) surroundings.world
  | .missingPath => ⟨1, "", missingPathText⟩
  | .help => ⟨0, usage, ""⟩
  | .version => ⟨0, versionLine, ""⟩
  | .unknown name => ⟨1, usage, "Unknown command: " ++ name ++ "\n\n"⟩

/-- The report of a whole command line. -/
def run (host : Host) (fuel : Nat) (arguments : List String) (surroundings : Surroundings) :
    Report :=
  let lookup (name : String) := surroundings.world.environment.lookup name
  let (settings, rest) := (Settings.ofVariables lookup).takeFlags arguments
  (Command.ofArguments rest).run host fuel settings surroundings

end Cli
end LazyLisp
