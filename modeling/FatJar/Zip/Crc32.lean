import FatJar.Text.Utf8

namespace FatJar.Zip

def crcBit (crc : UInt32) : UInt32 :=
  if crc % 2 = 1 then (crc >>> 1) ^^^ 0xEDB88320 else crc >>> 1

def crcEntry (n : UInt32) : UInt32 :=
  Nat.repeat crcBit 8 n

def crcTable : Vector UInt32 256 :=
  .ofFn fun n => crcEntry (UInt32.ofNat n)

def crcByte (crc : UInt32) (b : UInt8) : UInt32 :=
  crcTable.get (crc.toUInt8 ^^^ b).toFin ^^^ (crc >>> 8)

def crc32 (bs : Bytes) : UInt32 :=
  bs.foldl crcByte 0xFFFFFFFF ^^^ 0xFFFFFFFF

end FatJar.Zip
