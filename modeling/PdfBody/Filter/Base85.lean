import PdfBody.Filter.Codec

/-! Data in base 85: four octets as five characters from `!` to `u`, four zero octets as `z`, and
a shorter last group of `n` octets as `n + 1` characters. The text ends with `~>`. -/
namespace PdfBody.Base85

def characters (n : Nat) : Bytes :=
  [n / 52200625, n / 614125, n / 7225, n / 85, n].map fun q => (q % 85 + 0x21).toUInt8

def wordOf (a b c d : UInt8) : Nat :=
  ((a.toNat * 256 + b.toNat) * 256 + c.toNat) * 256 + d.toNat

def wordOctets (n : Nat) : Bytes :=
  [n / 0x1000000, n / 0x10000, n / 0x100, n].map Nat.toUInt8

def encodeGroups : Bytes → Bytes × Bytes
  | a :: b :: c :: d :: rest =>
    let n := wordOf a b c d
    let (out, left) := encodeGroups rest
    ((if n = 0 then [0x7A] else characters n) ++ out, left)
  | short => ([], short)

def encodeLast : Bytes → Bytes
  | [a] => (characters (wordOf a 0 0 0)).take 2
  | [a, b] => (characters (wordOf a b 0 0)).take 3
  | [a, b, c] => (characters (wordOf a b c 0)).take 4
  | _ => []

def encoder : Encoder :=
  ⟨[],
    fun held input =>
      let (out, left) := encodeGroups (held ++ input)
      (.ok out, left),
    fun held => .ok (encodeLast held ++ [0x7E, 0x3E])⟩

def groupWord (group : Bytes) : Except Fault Nat :=
  let n := group.foldl (fun n b => 85 * n + (b.toNat - 0x21)) 0
  if n < 0x100000000 then .ok n else .error (.filter "ASCII85 group out of range")

def close (group done : Bytes) : Except Fault Bytes :=
  match group.length with
  | 0 => .ok done.reverse
  | 1 => .error (.filter "Truncated ASCII85 group")
  | count + 1 =>
    -- the highest digit, which cannot carry into the octets that are kept
    match groupWord (group ++ List.replicate (4 - count) 0x75) with
    | .error fault => .error fault
    | .ok n => .ok (done.reverse ++ (wordOctets n).take count)

def body (group done : Bytes) : Bytes → Except Fault Bytes
  | [] => close group done
  | b :: rest =>
    if b = 0x7E then
      match rest with
      | 0x3E :: _ => close group done
      | _ => .error (.filter "Invalid ASCII85 end marker")
    else if b = 0x7A ∧ group = [] then body [] (0 :: 0 :: 0 :: 0 :: done) rest
    else if 0x21 ≤ b ∧ b ≤ 0x75 then
      if group.length = 4 then
        match groupWord (group ++ [b]) with
        | .error fault => .error fault
        | .ok n => body [] ((wordOctets n).reverse ++ done) rest
      else body (group ++ [b]) done rest
    else .error (.filter s!"Invalid ASCII85 character: {Bytes.latin b}")

/-- Blanks do not count. A text may begin with `<~`; since `<` is also a digit, a text that begins
with that digit is taken for a start marker. -/
def decode (data : Bytes) : Except Fault Bytes :=
  match data.filter (fun b => !Bytes.isBlank b) with
  | 0x3C :: 0x7E :: rest => body [] [] rest
  | 0x3C :: _ => .error (.filter "Invalid ASCII85 start marker")
  | text => body [] [] text

def codec : Codec := ⟨.ascii85, fun _ => .ok encoder, fun _ => decode⟩

end PdfBody.Base85
