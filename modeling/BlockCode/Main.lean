import BlockCode.Command

/-! The command line program. -/

namespace BlockCode

/-- The number of a system error, which may be given with its sign turned. -/
def errorNumber (code : UInt32) : Nat :=
  if code < 0x80000000 then code.toNat else (0 - code).toNat

/-- The fault that a failed read is reported as. -/
def ReadFault.ofError : IO.Error → ReadFault
  -- The numbers are those of the system, which decide how it is told.
  | .noFileOrDirectory .. => .absent
  | .inappropriateType _ code details | .invalidArgument _ code details
  | .permissionDenied _ code details | .resourceExhausted _ code details =>
    match errorNumber code with
    | 20 => .notFolder
    | 21 => .isFolder
    | 36 => .nameTooLong
    | number => .system number details
  | error => .system 5 (toString error)

/-- The bytes of a file. -/
def readFile (path : SourcePath) : IO (Except ReadFault (List UInt8)) := do
  -- All of the file is read at once, and a failure is a value like any other.
  try
    let bytes ← IO.FS.readBinFile path.text
    return .ok bytes.toList
  catch error => return .error (.ofError error)

end BlockCode

open BlockCode in
/-- Reads the file that the arguments name and prints what they ask for. -/
def main (arguments : List String) : IO UInt32 := do
  -- Only here the file is really read; all the rest was decided before.
  let result ← match Command.plan arguments with
    | .finish outcome => pure (.ok outcome)
    | .breakOff failure => pure (.error failure)
    | .compile s => do
      let bytes ← readFile (.ofText s.input)
      pure (Command.proceed s bytes)
  match result with
  -- One of the streams is empty, and writing nothing to it does no harm.
  | .ok outcome =>
    IO.print outcome.out
    IO.eprint outcome.err
    return outcome.status.toUInt32
  | .error failure =>
    IO.eprintln s!"Error: {failure.message}"
    return 1
