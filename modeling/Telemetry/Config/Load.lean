import Telemetry.Config.Layer

/-!
The configuration of a service: the defaults, under what a file says, under what the environment
says. Files and environment are given as functions, so that loading is a function too.
-/

set_option autoImplicit false

namespace Telemetry.Config

open Layer (Environment)

/-- A file: its text, or why it cannot be read. -/
abbrev File := Except String String

/-- The files at paths, where there are any. -/
abbrev Files := String → Option File

/-- The path of a file in a directory. -/
def pathIn (directory file : String) : String :=
  if directory.isEmpty then file
  else if directory.endsWith "/" then directory ++ file
  else directory ++ "/" ++ file

/-- The variables that the path of the file of settings depends on. -/
def pathVariables : List String := ["TELEMORPH_CONFIG", "XDG_CONFIG_HOME", "HOME"]

/-- The path at which the file of settings is looked for when none is given. -/
def defaultPath (env : Environment) : String :=
  match env "TELEMORPH_CONFIG" with
  | some path => path
  | none =>
    let directory := (env "XDG_CONFIG_HOME").getD (pathIn ((env "HOME").getD ".") ".config")
    pathIn directory "telemorph/config.toml"

/-- The layer of the file at a path, if there is one. -/
def fileLayer (files : Files) (path : String) : Except Error (Option Layer) :=
  match files path with
  | none => .ok none
  | some (.error reason) => .error (.configuration (.fileUnreadable path reason))
  | some (.ok contents) =>
    match Layer.ofFile contents with
    | .ok layer => .ok (some layer)
    | .error fault => .error (.configuration (.badFile path fault))

/-- Loads a configuration and validates it. A file that is asked for has to be there. -/
def load (files : Files) (env : Environment) (explicit : Option String) :
    Except Error Config := do
  let path := explicit.getD (defaultPath env)
  let c ←
    match ← fileLayer files path with
    | some layer => layer.apply "config file" {}
    | none =>
      if explicit.isSome then throw (.configuration (.fileNotFound path)) else pure {}
  let c ← (← Layer.ofEnvironment env).apply "environment" c
  c.validate
  return c

end Telemetry.Config
