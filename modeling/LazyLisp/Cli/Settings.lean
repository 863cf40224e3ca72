import LazyLisp.Text.Blank

/-!
# Settings — prompt and logging

Settings come from environment variables, and flags on the command line override them.  A log filter
that is blank counts as none, and the specific variable for it wins over the general one.
-/

namespace LazyLisp
namespace Cli

/-- How the command line program behaves. -/
structure Settings where
  /-- The prompt of the interactive session. -/
  prompt : String := "ocelot> "
  /-- What to log, if anything. -/
  logFilter : Option String := none
  /-- Whether the log shows its nesting. -/
  logTree : Bool := false
deriving DecidableEq, Repr

namespace Settings

/-- A filter, unless it is blank. -/
def nonBlank (filter : String) : Option String :=
  if Text.allBlank filter then none else some filter

/-- Whether the value of a variable switches something on. -/
def isEnabled (value : String) : Bool :=
  ["1", "true", "yes", "on"].contains (String.ofList ((Text.strip value).toList.map Char.toLower))

/-- Settings from variables. -/
def ofVariables (lookup : String → Option String) : Settings :=
  { prompt := (lookup "OCELOT_PROMPT").getD "ocelot> "
    logFilter := ((lookup "OCELOT_LOG").bind nonBlank).or ((lookup "RUST_LOG").bind nonBlank)
    logTree := (lookup "OCELOT_LOG_TREE").any isEnabled }

/-- The text behind `start`, if `text` starts with it. -/
def after? (start text : String) : Option String :=
  if start.toList.isPrefixOf text.toList then
    some (String.ofList (text.toList.drop start.length))
  else none

/-- The settings under one more flag, or nothing if the argument is not a settings flag. -/
def applyFlag? (settings : Settings) (argument : String) : Option Settings :=
  match after? "--prompt=" argument with
  | some prompt => some { settings with prompt := prompt }
  | none =>
      match after? "--log=" argument with
      | some filter => some { settings with logFilter := nonBlank filter }
      | none =>
          if argument = "--log-tree" then some { settings with logTree := true } else none

/-- The settings under all flags among the arguments, and the arguments that are not flags. -/
def takeFlags (settings : Settings) : List String → Settings × List String
  | [] => (settings, [])
  | argument :: rest =>
      match settings.applyFlag? argument with
      | some settings => settings.takeFlags rest
      | none =>
          let (settings, others) := settings.takeFlags rest
          (settings, argument :: others)

end Settings
end Cli
end LazyLisp
