/-!
What a session writes: lines for the output and lines for the error output, kept apart, since the
order between the two is not observable.
-/

namespace Descent

structure Transcript where
  output : List String
  complaints : List String
deriving DecidableEq

namespace Transcript

def empty : Transcript := ⟨[], []⟩

/-- The lines as a text, each with a line feed after it. -/
def text (lines : List String) : String := String.join (lines.map (· ++ "\n"))

def outputText (transcript : Transcript) : String := text transcript.output

def complaintText (transcript : Transcript) : String := text transcript.complaints

def concat (transcripts : List Transcript) : Transcript :=
  ⟨transcripts.flatMap output, transcripts.flatMap complaints⟩

end Transcript

end Descent
