import RngLowering.CommandLine.Tool

set_option autoImplicit false

namespace RngLowering.CommandLine

/-- An error of the file system in the words of the tool. -/
def fileError : IO.Error → FileError
  | .noFileOrDirectory .. => .notFound
  | .inappropriateType .. => .isDirectory
  | reason => .other (toString reason)

def fileHost : Host IO where
  holds path := do
    try
      let _ ← IO.FS.readBinFile path
      return true
    catch
      | .noFileOrDirectory .. => return false
      | _ => return true
  readText path := do
    try
      let content ← IO.FS.readBinFile path
      match String.fromUTF8? content with
      | some text => return .ok text
      | none => return .error .notText
    catch reason => return .error (fileError reason)
  writeText path text := do
    try
      IO.FS.writeFile path text
      return .ok ()
    catch reason => return .error (fileError reason)
  out text := IO.print text
  err text := IO.eprint text
  clock := IO.monoNanosNow

end RngLowering.CommandLine

def main (args : List String) : IO UInt32 := do
  let code ← RngLowering.CommandLine.tool RngLowering.CommandLine.fileHost args
  return code.toUInt32
