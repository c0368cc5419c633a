import PdfBody.Filter.Flate

/-! A compression library for closed runs. Reading accepts every deflate stream in the zlib format and
checks the checksum behind it. Writing stores the data uncompressed, which is a deflate stream too. -/
namespace PdfBody.Zlib

def checksum (data : Bytes) : Nat :=
  let (a, b) := data.foldl (fun (a, b) octet =>
    let a := (a + octet.toNat) % 65521
    (a, (b + a) % 65521)) (1, 0)
  b * 65536 + a

def bigEndian32 (n : Nat) : Bytes :=
  [n / 0x1000000, n / 0x10000, n / 0x100, n].map Nat.toUInt8

def littleEndian16 (n : Nat) : Bytes := [n.toUInt8, (n / 256).toUInt8]

def storedLimit : Nat := 65535

def storedBlock (last : Bool) (chunk : Bytes) : Bytes :=
  (if last then 1 else 0) :: (littleEndian16 chunk.length ++
    littleEndian16 (65535 - chunk.length) ++ chunk)

def storedBlocks (data : Bytes) : Bytes :=
  if data.length ≤ storedLimit then storedBlock true data
  else storedBlock false (data.take storedLimit) ++ storedBlocks (data.drop storedLimit)
termination_by data.length
decreasing_by simp only [storedLimit, List.length_drop] at *; omega

def store (data : Bytes) : Bytes :=
  0x78 :: 0x01 :: (storedBlocks data ++ bigEndian32 (checksum data))

inductive Damage where
  | corrupt
  | incomplete
  deriving DecidableEq, Repr

def Damage.text : Damage → String
  | corrupt => "corrupt deflate stream"
  | incomplete => "incomplete deflate stream"

structure Bits where
  octets : Bytes
  used : Nat
  deriving Repr

namespace Bits

def next (bits : Bits) : Except Damage (Nat × Bits) :=
  match bits.octets with
  | [] => .error .incomplete
  | b :: rest =>
    .ok ((b.toNat >>> bits.used) % 2, if bits.used = 7 then ⟨rest, 0⟩ else ⟨b :: rest, bits.used + 1⟩)

def number : Nat → Bits → Except Damage (Nat × Bits)
  | 0, bits => .ok (0, bits)
  | count + 1, bits => do
    let (low, bits) ← bits.next
    let (high, bits) ← number count bits
    return (2 * high + low, bits)

def align (bits : Bits) : Bits := if bits.used = 0 then bits else ⟨bits.octets.drop 1, 0⟩

def bound (bits : Bits) : Nat := 8 * bits.octets.length

end Bits

structure Code where
  counts : Array Nat
  symbols : Array Nat
  deriving Repr

namespace Code

def longest : Nat := 15

def ofLengths (lengths : List Nat) : Code :=
  let sized := List.range (longest + 1)
  let indexed := lengths.zipIdx
  { counts := (sized.map fun size => lengths.count size).toArray
    symbols := ((sized.drop 1).flatMap fun size =>
      indexed.filterMap fun (length, symbol) =>
        if length = size then some symbol else none).toArray }

def count (code : Code) (size : Nat) : Nat := code.counts.getD size 0

def filled (code : Code) : Nat :=
  ((List.range (longest + 1)).drop 1).foldl (fun sum size =>
    sum + code.count size <<< (longest - size)) 0

def usable (code : Code) : Bool :=
  code.filled == 1 <<< longest || code.symbols.isEmpty ||
    (code.symbols.size == 1 && code.count 1 == 1)

def depth (code : Code) : Nat :=
  (List.range (longest + 1)).foldl (fun deepest size =>
    if code.count size = 0 then deepest else size) 0

def symbolFrom (code : Code) (word first index size : Nat) :
    Nat → Bits → Except Damage (Nat × Bits)
  | 0, _ => .error .corrupt
  | left + 1, bits => do
    let (bit, bits) ← bits.next
    let word := word + bit
    let here := code.count size
    if word < first + here then return (code.symbols.getD (index + (word - first)) 0, bits)
    else symbolFrom code (2 * word) (2 * (first + here)) (index + here) (size + 1) left bits

def symbol (code : Code) (bits : Bits) : Except Damage (Nat × Bits) :=
  symbolFrom code 0 0 0 1 (max code.depth 1) bits

end Code

def lengthTable : Array (Nat × Nat) :=
  #[(3, 0), (4, 0), (5, 0), (6, 0), (7, 0), (8, 0), (9, 0), (10, 0), (11, 1), (13, 1), (15, 1),
    (17, 1), (19, 2), (23, 2), (27, 2), (31, 2), (35, 3), (43, 3), (51, 3), (59, 3), (67, 4),
    (83, 4), (99, 4), (115, 4), (131, 5), (163, 5), (195, 5), (227, 5), (258, 0)]

def distanceTable : Array (Nat × Nat) :=
  #[(1, 0), (2, 0), (3, 0), (4, 0), (5, 1), (7, 1), (9, 2), (13, 2), (17, 3), (25, 3), (33, 4),
    (49, 4), (65, 5), (97, 5), (129, 6), (193, 6), (257, 7), (385, 7), (513, 8), (769, 8),
    (1025, 9), (1537, 9), (2049, 10), (3073, 10), (4097, 11), (6145, 11), (8193, 12), (12289, 12),
    (16385, 13), (24577, 13)]

def sized (table : Array (Nat × Nat)) (place : Nat) (bits : Bits) :
    Except Damage (Nat × Bits) :=
  match table[place]? with
  | none => .error .corrupt
  | some (least, extra) => do
    let (more, bits) ← bits.number extra
    return (least + more, bits)

def octetBack (out : Array UInt8) (distance : Nat) : UInt8 :=
  if out.size < distance then 0 else out.getD (out.size - distance) 0

def copyBack (distance : Nat) : Nat → Array UInt8 → Array UInt8
  | 0, out => out
  -- the copy may run into what it copies
  | count + 1, out => copyBack distance count (out.push (octetBack out distance))

def codedBlock (literals distances : Code) :
    Nat → Array UInt8 → Bits → Except Damage (Array UInt8 × Bits)
  | 0, _, _ => .error .incomplete
  | count + 1, out, bits => do
    let (symbol, bits) ← literals.symbol bits
    if symbol < 256 then codedBlock literals distances count (out.push symbol.toUInt8) bits
    else if symbol = 256 then return (out, bits)
    else
      let (length, bits) ← sized lengthTable (symbol - 257) bits
      let (symbol, bits) ← distances.symbol bits
      let (distance, bits) ← sized distanceTable symbol bits
      codedBlock literals distances count (copyBack distance length out) bits

def storedInput (out : Array UInt8) (bits : Bits) : Except Damage (Array UInt8 × Bits) :=
  match bits.align.octets with
  | a :: b :: c :: d :: rest =>
    let length := a.toNat + 256 * b.toNat
    let complement := c.toNat + 256 * d.toNat
    if length + complement != 65535 then .error .corrupt
    else if rest.length < length then .error .incomplete
    else .ok (out ++ rest.take length, ⟨rest.drop length, 0⟩)
  | _ => .error .incomplete

def fixedLiterals : Code :=
  .ofLengths (List.replicate 144 8 ++ List.replicate 112 9 ++ List.replicate 24 7 ++
    List.replicate 8 8)

def fixedDistances : Code := .ofLengths (List.replicate 32 5)

def lengthOrder : List Nat := [16, 17, 18, 0, 8, 7, 9, 6, 10, 5, 11, 4, 12, 3, 13, 2, 14, 1, 15]

def numbers (width : Nat) : Nat → Bits → Except Damage (List Nat × Bits)
  | 0, bits => .ok ([], bits)
  | count + 1, bits => do
    let (n, bits) ← bits.number width
    let (rest, bits) ← numbers width count bits
    return (n :: rest, bits)

def codeLengths (code : Code) (total : Nat) :
    Nat → List Nat → Bits → Except Damage (List Nat × Bits)
  | 0, _, _ => .error .incomplete
  | count + 1, done, bits =>
    if total ≤ done.length then
      if done.length = total then .ok (done.reverse, bits) else .error .corrupt
    else do
      let (symbol, bits) ← code.symbol bits
      if symbol < 16 then codeLengths code total count (symbol :: done) bits
      else if symbol = 16 then
        match done with
        | [] => .error .corrupt
        | last :: _ =>
          let (more, bits) ← bits.number 2
          codeLengths code total count (List.replicate (3 + more) last ++ done) bits
      else if symbol = 17 then
        let (more, bits) ← bits.number 3
        codeLengths code total count (List.replicate (3 + more) 0 ++ done) bits
      else
        let (more, bits) ← bits.number 7
        codeLengths code total count (List.replicate (11 + more) 0 ++ done) bits

def describedCodes (bits : Bits) : Except Damage (Code × Code × Bits) := do
  let (literals, bits) ← bits.number 5
  let (distances, bits) ← bits.number 5
  let (lengths, bits) ← bits.number 4
  if 286 < literals + 257 ∨ 30 < distances + 1 then throw .corrupt
  let (given, bits) ← numbers 3 (lengths + 4) bits
  let ordered := lengthOrder.zip given
  let code := Code.ofLengths ((List.range 19).map fun symbol => (ordered.lookup symbol).getD 0)
  if code.filled != 1 <<< Code.longest then throw .corrupt
  let total := literals + 257 + (distances + 1)
  let (all, bits) ← codeLengths code total (total + 1) [] bits
  let literalCode := Code.ofLengths (all.take (literals + 257))
  let distanceCode := Code.ofLengths (all.drop (literals + 257))
  if !distanceCode.usable || !literalCode.usable then throw .corrupt
  return (literalCode, distanceCode, bits)

def blocks : Nat → Array UInt8 → Bits → Except Damage (Array UInt8 × Bits)
  | 0, _, _ => .error .incomplete
  | count + 1, out, bits => do
    let (last, bits) ← bits.number 1
    let (kind, bits) ← bits.number 2
    let (out, bits) ←
      if kind = 0 then storedInput out bits
      else if kind = 1 then
        codedBlock fixedLiterals fixedDistances (bits.bound + 1) out bits
      else if kind = 2 then do
        let (literals, distances, bits) ← describedCodes bits
        codedBlock literals distances (bits.bound + 1) out bits
      else throw .corrupt
    if last = 1 then return (out, bits) else blocks count out bits

def inflate (data : Bytes) : Except Damage Bytes :=
  match data with
  | method :: flags :: rest => do
    let n := method.toNat
    let f := flags.toNat
    if (256 * n + f) % 31 != 0 || f / 32 % 2 = 1 || n % 16 != 8 || 7 < n / 16 then
      throw .corrupt
    let (out, bits) ← blocks (8 * rest.length + 1) #[] ⟨rest, 0⟩
    let found := bits.align.octets.take 4
    if found.length < 4 then throw .incomplete
    let out := out.toList
    if found = bigEndian32 (checksum out) then return out else throw .corrupt
  | _ => .error .incomplete

def storing : Zlib :=
  ⟨fun held input => (.ok [], held ++ input), fun held => .ok (store held),
    fun data => (inflate data).mapError Damage.text⟩

end PdfBody.Zlib
