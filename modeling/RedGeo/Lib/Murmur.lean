import RedGeo.Lib.Bytes

/-!
# Hashing

`MurmurHash64A`, of bytes in blocks of eight with the least significant byte
first, and what is left over.
-/

namespace RedGeo.Lib

/-- A number with its least significant byte first. -/
def ofLe (b : Bytes) : Nat := ofBe b.reverse

def murmurMul : UInt64 := 0xc6a4a7935bd1e995

def murmurMix (k : UInt64) : UInt64 := k ^^^ (k >>> 47)

/-- One block. -/
def murmurBlock (h k : UInt64) : UInt64 := (h ^^^ murmurMix (k * murmurMul) * murmurMul) * murmurMul

/-- What is left over. -/
def murmurTail (h : UInt64) (b : Bytes) : UInt64 :=
  if b = [] then h else (h ^^^ UInt64.ofNat (ofLe b)) * murmurMul

def murmur64a (b : Bytes) (seed : UInt64) : UInt64 :=
  let blocks := (List.range (b.length / 8)).map fun i => UInt64.ofNat (ofLe ((b.drop (8 * i)).take 8))
  let h := blocks.foldl murmurBlock (seed ^^^ (UInt64.ofNat b.length * murmurMul))
  murmurMix (murmurMix (murmurTail h (b.drop (8 * (b.length / 8)))) * murmurMul)

end RedGeo.Lib
