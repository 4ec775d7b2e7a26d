/-! # Shared interface types -/

namespace Tram

/-- Outcome of a decided source unit, as the executor passes it to a source's `ack`. -/
inductive AckDisposition
  | delivered | filtered | dlq | dropped
deriving DecidableEq, Repr

/-- `partly` is the source's "partial". -/
inductive RunStatus where
  | pending | running | success | failed | aborted | partly
  deriving DecidableEq, Repr

end Tram
