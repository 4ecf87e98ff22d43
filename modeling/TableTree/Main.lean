import TableTree.Walkthrough
/-!
# The command line

`--config FILE` gives the settings, `--bucket NAME` the bucket, and `--keep` keeps the table.
-/

namespace TableTree

/-- Why a file could not be read. -/
def readFault : IO.Error → FileFault
  | .noFileOrDirectory .. => .missing
  | .permissionDenied .. => .denied
  | .inappropriateType .. => .directory
  | e => .other (toString e)

/-- The settings in the file that the options name. -/
def readSettings : Option String → IO (Except Misuse Settings)
  | none => pure (.ok Walkthrough.settings)
  | some file => do
    match ← (IO.FS.readBinFile file).toBaseIO with
    | .ok bytes => pure (Settings.ofFile file (.ok bytes))
    | .error e => pure (Settings.ofFile file (.error (readFault e)))

end TableTree

open TableTree in
/-- Runs a walkthrough and prints its report. -/
def main (arguments : List String) : IO UInt32 := do
  match Options.ofArguments? arguments with
  | none =>
    IO.eprintln "error: unexpected argument"
    return 2
  | some options =>
    let settings ← readSettings options.config
    let now ← IO.monoMsNow
    let report := Walkthrough.report settings options.bucket options.keep (Int64.ofNat now)
    report.lines.forM fun line => IO.println line
    report.complaint.forM IO.eprintln
    return report.exitCode
