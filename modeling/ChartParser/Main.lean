import ChartParser.CommandLine.Run

/-! The program: the command line over the files of the operating system. -/

namespace ChartParser.CommandLine

/-- Carries out an operation of the operating system and names what went wrong with it. -/
def guarded {α : Type} (operation : IO α) : IO (Except FileFault α) :=
  tryCatch (Except.ok <$> operation) fun e =>
    match e with
    | .noFileOrDirectory .. => pure (.error .notFound)
    | e => pure (.error (.other (toString e)))

instance : Files IO IO.FS.Handle where
  openFile name := guarded (IO.FS.Handle.mk name .read)
  createFile name := guarded (IO.FS.Handle.mk name .write)
  readAll handle := guarded (ByteArray.toList <$> handle.readBinToEnd)
  writeAll handle bytes := guarded (handle.write ⟨bytes.toArray⟩)

end ChartParser.CommandLine

/-- Runs the command line under the name of the program's own file. -/
def main (arguments : List String) : IO UInt32 := do
  let path := toString (← IO.appPath)
  let result ← ChartParser.CommandLine.run ((path.splitOn "/").getLastD path) arguments
  (← IO.getStdout).putStr result.output
  (← IO.getStderr).putStr result.errors
  pure result.code
