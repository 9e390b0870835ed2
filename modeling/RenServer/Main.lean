/- # The program

Reads the command line and the environment, prints what the launch prints, and
ends with its code. A launch that fails ends with code 1.
-/
import RenServer.CommandLine

namespace RenServer

/-- The environment of this process. Files are looked up once a workspace is
known. -/
def processEnvironment : IO Environment := do
  let directory ← IO.currentDir
  let compilerVariable ← IO.getEnv "RENC_PATH"
  return { directory := directory.toString, compilerVariable }

/-- Starts the server with arguments. -/
def run (arguments : List String) : IO UInt32 := do
  match CommandLine.launch (Server.start (← processEnvironment)) arguments with
  | .error fault =>
    IO.eprintln fault.message
    return 1
  | .ok launch =>
    IO.print launch.stdout
    IO.eprint launch.stderr
    return UInt32.ofNat (launch.exit.getD 0)

end RenServer

def main (arguments : List String) : IO UInt32 := RenServer.run arguments
