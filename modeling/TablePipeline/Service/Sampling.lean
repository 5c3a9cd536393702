import TablePipeline.Number.Binary64.Layout
import TablePipeline.Number.Binary64.Reading

/-!
# The rate of traces

The rate of the traces that are exported lies between 0 and 1. A rate that is none of these is drawn
into the range or taken as 0, with a warning.
-/

set_option autoImplicit false

namespace TablePipeline

inductive SamplingWarning
  | notANumber (raw : String)
  | outside (raw : String) (taken : Binary64)
  | unreadable (raw : String)
  deriving DecidableEq, Repr

namespace Sampling

def source : String := "VANTAGE_OTEL_SAMPLING_RATE"

/-- The greatest rate. -/
def one : Binary64 := .ofInt 1

/-- The rate that a text asks for; none where there is no text. -/
def read (raw : Option String) : Binary64 × Option SamplingWarning :=
  let off := Binary64.zero false
  let text := Text.trim (raw.getD "")
  if text.isEmpty then (off, none)
  else match Binary64.read? text with
    | none => (off, some (.unreadable text))
    | some x =>
      if x.isNaN then (off, some (.notANumber text))
      else if x.key < off.key then (off, some (.outside text off))
      else if one.key < x.key then (one, some (.outside text one))
      else (x, none)

end Sampling

def SamplingWarning.message : SamplingWarning → String
  | notANumber raw => Sampling.source ++ "=" ++ raw ++ " is not a number; tracing export disabled"
  | outside raw taken =>
    Sampling.source ++ "=" ++ raw ++ " outside 0.0..=1.0; clamped to " ++ taken.text .plain
  | unreadable raw =>
    Sampling.source ++ "='" ++ raw ++ "' is not a valid float; tracing export disabled"

end TablePipeline
