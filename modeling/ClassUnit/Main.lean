import ClassUnit.CommandLine.Commands

/-! # The program

Reads the files that the arguments ask for, and prints what the command answers. -/

namespace ClassUnit.CommandLine

/-- The bytes at a path, or the complaint of the system. -/
def readBytes (path : String) : IO (Except String ByteArray) := do
  try
    return .ok (← IO.FS.readBinFile path)
  catch e => return .error (toString e)

/-- What stands at a path, links followed. -/
def readPath (path : String) : IO Proxy.File := do
  try
    match (← (← IO.FS.realPath path).metadata).type with
    | .dir => return .directory
    | .file => return .regular (← readBytes path)
    | _ => return .special (← readBytes path)
  catch
    | .noFileOrDirectory .. => return .missing
    | e => return .special (.error (toString e))

end ClassUnit.CommandLine

open ClassUnit.CommandLine

def main (args : List String) : IO UInt32 := do
  let paths := ((Request.ofArguments args).map Request.paths).getD []
  let contents ← paths.mapM fun path => return (path, ← readPath path)
  let output := run (fun path => (contents.lookup path).getD .missing) args
  IO.print output.stdout
  if !output.complaint.isEmpty then IO.eprintln output.complaint
  return output.code.toUInt32
