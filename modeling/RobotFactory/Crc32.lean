import RobotFactory.CommitLog

/-!
# The checksum of zlib

The CRC-32 that `crc32` computes from the initial value 0, bit by bit over the
reflected polynomial. The commit log is verified for any checksum function; runs
on fixed inputs use this one.
-/
namespace RobotFactory

def crcShift (crc : UInt32) : UInt32 :=
  if crc &&& 1 = 1 then (crc >>> 1) ^^^ 0xEDB88320 else crc >>> 1

def crcByte (crc : UInt32) (byte : UInt8) : UInt32 :=
  Nat.repeat crcShift 8 (crc ^^^ byte.toUInt32)

instance (priority := low) zlibCrc32 : Zlib where
  crc32 bytes := bytes.foldl crcByte 0xFFFFFFFF ^^^ 0xFFFFFFFF

example : Zlib.crc32 [49, 50, 51, 52, 53, 54, 55, 56, 57] = 0xCBF43926 := by decide +kernel

end RobotFactory
