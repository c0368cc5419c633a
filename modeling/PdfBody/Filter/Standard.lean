import PdfBody.Filter.Hex
import PdfBody.Filter.Base85
import PdfBody.Filter.RunLength
import PdfBody.Filter.Flate
import PdfBody.Filter.Pipeline

/-! The registry a store starts with. -/
namespace PdfBody.Registry

def standard (zlib : Zlib) : Registry :=
  ⟨[Flate.codec zlib, Hex.codec, Base85.codec, RunLength.codec]⟩

end PdfBody.Registry
