import Tsql.CommandLine.Run

/-!
The program: the files and the input of the computer, and the reply written out.
-/

namespace Tsql

def FileError.ofIO : IO.Error → FileError
  | .permissionDenied _ _ _ => .denied
  | .inappropriateType _ code _ => if code = 21 then .isDirectory else .notDirectory
  | .invalidArgument _ code _ => if code = 36 then .longName else .notFound
  | _ => .notFound

def textOf (bytes : ByteArray) : Except FileError String :=
  match String.fromUTF8? bytes with
  | some text => .ok text
  | none => .error .notText

partial def readAll (input : IO.FS.Stream) (bytes : ByteArray) : IO ByteArray := do
  let more ← input.read 65536
  if more.isEmpty then return bytes else readAll input (bytes ++ more)

def computer : Host IO where
  readFile path := do
    try return textOf (← IO.FS.readBinFile path)
    catch e => return .error (.ofIO e)
  readInput := return textOf (← readAll (← IO.getStdin) .empty)

end Tsql

def main (args : List String) : IO UInt32 := do
  let reply ← Tsql.CommandLine.reply Tsql.computer args
  (← IO.getStdout).putStr reply.output
  (← IO.getStderr).putStr reply.errors
  return reply.exitCode
