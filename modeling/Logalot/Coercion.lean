import Logalot.Ingest
import Logalot.Lib.FormatFloat

/-!
# Numbers in labels

`coerceToString` (`services/processor/internal/app/normalize.go`) decodes a label
into an `interface{}`, where a number becomes a `float64`, and writes that number
again. With this the decoders of the processor have no parameter left.
-/

namespace Logalot

open Go

/-- `encoding/json` refuses a number that no `float64` is near to. -/
def formatNumber (text : Bytes) : Option Bytes :=
  match parseFloat text with
  | .ok (.fin v) => some (formatFixed (text.head? = some 45) v)
  | _ => none

def processorDecoder : Decoder := goDecoder formatNumber

end Logalot
