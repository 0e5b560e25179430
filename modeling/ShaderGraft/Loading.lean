import ShaderGraft.Config.Parse
import ShaderGraft.Directory
import ShaderGraft.Jit
import ShaderGraft.Module.Parse

/-!
Modules and configurations from files. What reading a file gave is passed together with its path.
-/

namespace ShaderGraft

/-- Why a file gives no module. -/
inductive LoadError where
  | unreadable (cause : FileError)
  | parse (path : Bytes) (cause : ParseError)

def LoadError.message : LoadError → Bytes
  | .unreadable cause => utf8 "failed to read module: " ++ cause.message
  | .parse path cause => path ++ utf8 (": " ++ cause.message)

/-- The module in a file. -/
def Module.load (path : Bytes) (contents : Except FileError Bytes) : Except LoadError Module :=
  match contents with
  | .error e => .error (.unreadable e)
  | .ok bs => (Module.parseBytes bs).mapError (.parse path)

/-- Why a file gives no configuration. -/
inductive ConfigLoadError where
  | unreadable (cause : FileError)
  | parse (cause : ConfigParseError)

/-- The message of a configuration that is not valid. -/
def invalidConfigText (cause : String) : Bytes :=
  utf8 ("invalid config: " ++ cause)

def ConfigLoadError.message : ConfigLoadError → Bytes
  | .unreadable cause => utf8 "failed to read config file: " ++ cause.message
  | .parse .refused => utf8 "failed to parse YAML"
  | .parse (.invalid cause) => invalidConfigText cause.message

/-- The configuration in a file. -/
def Config.load (contents : Except FileError Bytes) : Except ConfigLoadError Config :=
  match contents with
  | .error e => .error (.unreadable e)
  | .ok bs => (Config.parse bs).mapError .parse

/-- Why a file or configuration gives no server. -/
inductive OpenError where
  | noModulePath
  | config (cause : ConfigError)
  | load (cause : LoadError)
  | reflect (cause : ReflectError)

def OpenError.message : OpenError → Bytes
  | .noModulePath => invalidConfigText "module path is required"
  | .config cause => invalidConfigText cause.message
  | .load cause => cause.message
  | .reflect cause => utf8 cause.message

namespace Jit

/-- Makes a server for the module in a file. -/
def load (path : Bytes) (contents : Except FileError Bytes) (options : Options := {}) :
    List Record × Except (Halt OpenError) Jit :=
  match Module.load path contents with
  | .error e => ([], .error (.error (.load e)))
  | .ok m =>
    let loaded := Record.moduleLoaded path m.header.version m.functions.length m.header.bound
    let (log, made) := Jit.create m options
    (Injector.keep options.quiet [loaded] ++ log, made.mapError (.map .reflect))

/-- Makes a server as a configuration says. `read` gives the contents of the file with a path. -/
def ofConfig (c : Config) (read : Bytes → Except FileError Bytes) :
    List Record × Except (Halt OpenError) Jit :=
  if c.modulePath.isEmpty then ([], .error (.error .noModulePath))
  else match c.validate with
    | .error e => ([], .error (.error (.config e)))
    | .ok _ => load c.modulePath (read c.modulePath) c.options

end Jit

end ShaderGraft
