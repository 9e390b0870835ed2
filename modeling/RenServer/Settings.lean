/- # Client settings

The client sends settings in one of two shapes: flat, `compilerPath` and
`logLevel`, or nested, `ren.compiler.path` and `ren.logLevel`. The flat shape
wins.
-/
import RenServer.Value

namespace RenServer
namespace Settings

/-- The compiler that settings name, null if they name none. A blank one is
still a value: it takes back the one before. -/
def compilerPath (settings : Value) : Value :=
  match settings.get "compilerPath" with
  | .null => ((settings.get "ren").get "compiler").get "path"
  | flat => flat

/-- The log level that settings name, null if they name none. -/
def logLevel (settings : Value) : Value :=
  (settings.get "logLevel").orElse ((settings.get "ren").get "logLevel")

end Settings
end RenServer
