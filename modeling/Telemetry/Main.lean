import Telemetry.Command

/-!
The program: it takes its arguments, the environment and the file of settings, and reports the
outcome. The sockets of a service are not opened here.
-/

set_option autoImplicit false

open Telemetry

/-- The values of the variables that settings and paths are taken from. -/
def readEnvironment : IO Layer.Environment := do
  let names := Config.pathVariables ++ Layer.variableNames
  let values ← names.mapM fun name => return (name, ← IO.getEnv name)
  return fun name => (values.lookup name).join

/-- The file at a path, if there is one. -/
def readFile? (path : String) : IO (Option Config.File) := do
  try
    return some (.ok (← IO.FS.readFile path))
  catch
    | .noFileOrDirectory .. => return none
    | e => return some (.error e.toString)

/-- The path of the file of settings for given arguments. -/
def settingsPath (env : Layer.Environment) (arguments : List String) : String :=
  match Command.ofArguments? arguments with
  | some (.run flags) => flags.config.getD (Config.defaultPath env)
  | _ => Config.defaultPath env

def main (arguments : List String) : IO UInt32 := do
  let env ← readEnvironment
  let path := settingsPath env arguments
  let file ← readFile? path
  let result := outcome (fun p => if p = path then file else none) env arguments
  match result with
  | .printed text => IO.print text
  | .ready settings => IO.println ("ready to serve on " ++ settings.config.apiAddr)
  | .failed _ | .misused => IO.eprint result.complaint
  return result.code
