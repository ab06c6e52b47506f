import ApexBase.Library.Wire

/-! The reflected CRC-32 with polynomial `0xEDB88320`, as `crc32fast` computes it. -/
namespace ApexBase.Library.Crc
open Wire

def shift (crc : Nat) : Nat := if crc % 2 = 1 then (crc / 2) ^^^ 0xEDB88320 else crc / 2

/-- Eight shifts. The register is taken apart so that it is evaluated before it is used. -/
def shifts : Nat → Nat → Nat
  | 0,crc => crc
  | count + 1,0 => shifts count 0
  | count + 1,crc + 1 => shifts count (shift (crc + 1))

def update (crc : Nat) (byte : UInt8) : Nat := shifts 8 (crc ^^^ byte.toNat)

def register (crc : Nat) : Bytes → Nat
  | [] => crc
  | byte :: bytes =>
    match update crc byte with
    | 0 => register 0 bytes
    | next + 1 => register (next + 1) bytes

def crc32 (bytes : Bytes) : UInt32 := UInt32.ofNat (register 0xFFFFFFFF bytes ^^^ 0xFFFFFFFF)

-- the check value of the algorithm, over the digits 1 to 9
example : crc32 [49,50,51,52,53,54,55,56,57] = 0xCBF43926 := by decide +kernel

end ApexBase.Library.Crc
