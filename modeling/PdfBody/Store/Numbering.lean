import PdfBody.Store.Ordered
import PdfBody.Fault

/-! Which ids are free. A number that was given up is pooled with its next generation, unless the
generations of the number are used up; then it is retired. -/
namespace PdfBody

structure Numbering where
  count : UInt32
  pool : IdSet
  retired : NumberSet
  reuse : Bool
  maxGeneration : UInt16
  maxNumber : UInt32

namespace Numbering

def make (reuse : Bool) (maxGeneration : UInt16) (maxNumber : UInt32) : Numbering :=
  ⟨0, .empty, .empty, reuse, maxGeneration, maxNumber⟩

def withCount (count : UInt32) (n : Numbering) : Numbering :=
  ⟨count, n.pool, n.retired, n.reuse, n.maxGeneration, n.maxNumber⟩

def withPool (pool : IdSet) (n : Numbering) : Numbering :=
  ⟨n.count, pool, n.retired, n.reuse, n.maxGeneration, n.maxNumber⟩

def setReuse (reuse : Bool) (n : Numbering) : Numbering :=
  ⟨n.count, if reuse then n.pool else .empty, n.retired, reuse, n.maxGeneration, n.maxNumber⟩

def isRetired (number : UInt32) (n : Numbering) : Bool :=
  NumberSet.contains number n.retired

def last : UInt32 := 0xFFFFFFFF

def after (number : UInt32) : UInt32 := if number = last then last else number + 1

/-- The first number from `number` on that is not retired, if there is one within so many tries. The
last number is not passed over, although the program, which counts no tries, would stay at it for ever. -/
def firstOpen (retired : NumberSet) (number : UInt32) : Nat → UInt32
  | 0 => number
  | tries + 1 =>
    if number < last ∧ NumberSet.contains number retired then firstOpen retired (number + 1) tries
    else number

/-- No id is free and no number beyond the count is open. The program's search has no end then, so that what
`allocate` gives here stands for no result. -/
def Endless (n : Numbering) : Prop :=
  (n.reuse = false ∨ n.pool.items = []) ∧
    ∀ number, after n.count ≤ number → n.isRetired number = true

def allocate (n : Numbering) : Except Fault ObjId × Numbering :=
  match if n.reuse then n.pool.takeFirst else none with
  | some (id, pool) => (.ok id, n.withPool pool)
  | none =>
    let number := firstOpen n.retired (after n.count) UInt32.size
    if n.maxNumber < number then
      (.error (.outOfRange s!"Reached the maximum number of indirect objects ({n.maxNumber})"), n)
    else (.ok ⟨number, 0⟩, n)

def cover (id : ObjId) (n : Numbering) : Bool × Numbering :=
  if n.count < id.number then (true, n.withCount id.number) else (false, n)

def claim (number : UInt32) (n : Numbering) : Numbering :=
  n.withPool (n.pool.keep fun id => id.number != number)

def claimAll (numbers : List UInt32) (n : Numbering) : Numbering :=
  n.withPool (n.pool.keep fun id => !numbers.contains id.number)

def reserve (number : UInt32) (n : Numbering) : Numbering :=
  claim number ⟨n.count, n.pool, n.retired.put number, n.reuse, n.maxGeneration, n.maxNumber⟩

def addFree (id : ObjId) (n : Numbering) : Bool × Numbering :=
  let n := (n.cover id).2
  if !n.reuse || n.isRetired id.number then (false, n)
  else (true, n.withPool (n.pool.put id))

def offer (id : ObjId) (n : Numbering) : Bool × Numbering :=
  if n.maxGeneration ≤ id.generation then (false, n.reserve id.number) else n.addFree id

def release (id : ObjId) (n : Numbering) : Option UInt16 × Numbering :=
  if id.generation = 0xFFFF then (none, n.reserve id.number)
  else
    let generation := id.generation + 1
    let (pooled, n) := n.offer ⟨id.number, generation⟩
    (if pooled then some generation else none, n)

def reset (count : UInt32) (n : Numbering) : Numbering :=
  ⟨count, .empty, .empty, n.reuse, n.maxGeneration, n.maxNumber⟩

end Numbering
end PdfBody
