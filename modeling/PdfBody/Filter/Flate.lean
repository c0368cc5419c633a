import PdfBody.Filter.Codec

/-! The codec of compressed data. The compression itself is the work of a library, which is a parameter:
the codec hands it the octets, passes its failures on, and refuses predictors. -/
namespace PdfBody

/-- An encoder of the library starts with nothing held and is drained at every push; whole data is read
at once. -/
structure Zlib where
  push : Bytes → Bytes → Except String Bytes × Bytes
  flush : Bytes → Except String Bytes
  read : Bytes → Except String Bytes

namespace Flate

def checkPredictor (params : Option Entries) : Except Fault Unit :=
  match params >>= (·.lookup "Predictor") >>= Value.int? with
  | some n => if 1 < n.toInt then .error (.notImplemented s!"FlateDecode predictor {n}") else .ok ()
  | none => .ok ()

def encoder (zlib : Zlib) : Encoder :=
  ⟨[], fun held input => ((zlib.push held input).1.mapError .io, (zlib.push held input).2),
    fun held => (zlib.flush held).mapError .io⟩

def decode (zlib : Zlib) (params : Option Entries) (data : Bytes) : Except Fault Bytes :=
  (checkPredictor params).bind fun _ =>
    (zlib.read data).mapError fun text => .filter ("Flate decode error: " ++ text)

def codec (zlib : Zlib) : Codec :=
  ⟨.flate, fun params => (checkPredictor params).map fun _ => encoder zlib, decode zlib⟩

end Flate
end PdfBody
