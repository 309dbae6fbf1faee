import KafkaJs.Data.ShiftRegister
import KafkaJs.Protocol.Crc32
import KafkaJs.Protocol.Crc32C

/-!
# The checksums are the cyclic redundancy checks of their polynomials

Both loops take in a byte by one lookup in a table that is written out in the source. Every entry
is the remainder of its byte, so that each round of a loop is eight rounds of the shift register
that defines the check.
-/

namespace KafkaJs.Protocol

open Data ShiftRegister

/-- The polynomial of CRC-32C, reflected. -/
def castagnoli : BitVec 32 := 0x82F63B78#32

/-- The polynomial of CRC-32, reflected. -/
def ieee : BitVec 32 := 0xEDB88320#32

/-- The table of CRC-32C tabulates eight clocks of the Castagnoli polynomial. -/
theorem crcTable_tabulates : Tabulates castagnoli crcTable 8 := by decide +kernel

/-- The table of CRC-32 tabulates eight clocks of the IEEE polynomial. -/
theorem crc32Table_tabulates : Tabulates ieee crc32Table 8 := by decide +kernel

/-- One round of the loop of `crc32C` takes in the bits of its byte. -/
theorem crcStep_eq (crc : BitVec 32) (byte : UInt8) :
    crcStep crc byte = (lowBits 8 byte.toNat).foldl (feed castagnoli) crc :=
  table_step crcTable_tabulates (by decide) byte.toNat_lt crc

/-- One round of the loop of `crc32` takes in the bits of its byte. -/
theorem crc32Step_eq (crc : BitVec 32) (byte : UInt8) :
    crc32Step crc byte = (lowBits 8 byte.toNat).foldl (feed ieee) crc :=
  table_step crc32Table_tabulates (by decide) byte.toNat_lt crc

/-- `crc32C` is the check of the Castagnoli polynomial as an unsigned number, and `crc32` that of
the polynomial of CRC-32 as a signed one. -/
theorem checksums_eq_definition (buffer : Bytes) :
    crc32C buffer = (checksum castagnoli buffer).toNat ∧
      crc32 buffer = (checksum ieee buffer).toInt := by
  constructor
  · rw [crc32C, foldl_eq_checksum crcStep_eq]
  · rw [crc32, foldl_eq_checksum crc32Step_eq]

end KafkaJs.Protocol
