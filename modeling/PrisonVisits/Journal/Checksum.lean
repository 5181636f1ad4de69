/-! The CRC-32 checksum of the IEEE polynomial, bit by bit with the lowest bit first. -/

namespace PrisonVisits.Checksum

def polynomial : UInt32 := 0xEDB88320

/-- One bit leaves the register at its low end. -/
def shift (register : UInt32) : UInt32 :=
  if register &&& 1 = 1 then (register >>> 1) ^^^ polynomial else register >>> 1

/-- Takes one byte into the register. -/
def step (register : UInt32) (b : UInt8) : UInt32 :=
  Nat.repeat shift 8 (register ^^^ b.toUInt32)

def crc32 (bytes : List UInt8) : UInt32 := bytes.foldl step 0xFFFFFFFF ^^^ 0xFFFFFFFF

end PrisonVisits.Checksum
