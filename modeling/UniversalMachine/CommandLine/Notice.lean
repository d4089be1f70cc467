import UniversalMachine.Assembly.Error
import UniversalMachine.Log
import UniversalMachine.Machine.Fault

/-!
What a command tells about its work: notices for the log, and the failures that end it.
-/

namespace UniversalMachine.CommandLine

inductive Failed where
  | loadingImage (name : String) (e : DataError)
  | readingSource (name : String) (failure : Failure)
  | decodingSource (name : String)
  | assembling (name : String) (e : Assembly.Error)
  | writingImage (name : String) (failure : Failure)
  | writingTrace (name : String) (failure : Failure)
  | running (cycles : Nat) (fault : Fault)
  deriving DecidableEq, Repr

namespace Failed

/-- What was attempted, followed by the causes, from the outermost to the innermost. -/
def causes : Failed → List String
  | loadingImage name e => ("failed to load image " ++ name) :: e.causes
  | readingSource name failure => ["failed to read " ++ name, failure.text]
  | decodingSource name => ["failed to read " ++ name, "stream did not contain valid UTF-8"]
  | assembling name e => ["failed to assemble " ++ name, e.message]
  | writingImage name failure => ("failed to write " ++ name) :: (DataError.file failure).causes
  | writingTrace name failure => ["failed to write trace to " ++ name, failure.text]
  | running cycles fault =>
    ("machine failed after " ++ Digits.decimal cycles ++ " cycles (" ++ fault.kind.text ++ ")") ::
      fault.causes

def text (f : Failed) : String := ": ".intercalate f.causes

end Failed

inductive Notice where
  | loadedImage (name checksum : String)
  | unboundedTrace
  | wroteTrace (rows : Nat) (name : String)
  | traceNotWritten (f : Failed)
  | cycleLimitReached (cycles : Nat)
  | assembled (words : Nat) (image : String)
  deriving DecidableEq, Repr

def Notice.record : Notice → LogRecord
  | loadedImage name checksum => ⟨.debug, "loaded image", [("image", name), ("checksum", checksum)]⟩
  | unboundedTrace =>
    ⟨.warn, "--trace-out without --max-cycles keeps one row per instruction in memory", []⟩
  | wroteTrace rows name =>
    ⟨.debug, "wrote trace", [("rows", Digits.decimal rows), ("path", name)]⟩
  | traceNotWritten f => ⟨.warn, "trace not written: " ++ f.text, []⟩
  | cycleLimitReached cycles => ⟨.warn, "cycle limit reached", [("cycles", Digits.decimal cycles)]⟩
  | assembled words image =>
    ⟨.debug, "assembled", [("words", Digits.decimal words), ("output", image)]⟩

end UniversalMachine.CommandLine
