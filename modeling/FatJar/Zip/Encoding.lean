import FatJar.Zip.Crc32
import FatJar.Zip.Record

namespace FatJar.Zip

inductive Content where
  | directory
  | file (payload : Bytes)
deriving DecidableEq, Repr

structure Item where
  name : String
  content : Content
deriving DecidableEq, Repr

namespace Content

def payload : Content → Bytes
  | directory => []
  | file payload => payload

def method : Content → Nat
  | directory => 0
  | file _ => 8

def mode : Content → Nat
  | directory => 0o40755
  | file _ => 0o100644

end Content

def maxBlock : Nat := 65535

def deflateBlocks : (fuel : Nat) → Bytes → Bytes
  | 0, _ => []
  | fuel + 1, bs =>
    let block := bs.take maxBlock
    let rest := bs.drop maxBlock
    let size := block.length
    (if rest.isEmpty then 1 else 0) :: Bytes.toLittleEndian 2 size
      ++ Bytes.toLittleEndian 2 (maxBlock - size) ++ block
      ++ (if rest.isEmpty then [] else deflateBlocks fuel rest)

def deflate (bs : Bytes) : Bytes :=
  deflateBlocks (bs.length / maxBlock + 1) bs

def Content.data : Content → Bytes
  | directory => []
  | file payload => deflate payload

def fields (fs : List (Nat × Nat)) : Bytes :=
  fs.flatMap fun (width, n) => Bytes.toLittleEndian width n

def firstDay : Nat := 0x21

def formatVersion : Nat := 20

def nameFlags (name : String) : Nat :=
  if name.toList.all (·.toNat < 128) then 0 else 0x800

structure Written where
  name : Bytes
  flags : Nat
  method : Nat
  mode : Nat
  checkSum : Nat
  size : Nat
  data : Bytes

def Item.written (i : Item) : Written where
  name := utf8 i.name
  flags := nameFlags i.name
  method := i.content.method
  mode := i.content.mode
  checkSum := (crc32 i.content.payload).toNat
  size := i.content.payload.length
  data := i.content.data

def Written.common (w : Written) : List (Nat × Nat) :=
  [(2, formatVersion), (2, w.flags), (2, w.method), (2, 0), (2, firstDay), (4, w.checkSum),
    (4, w.data.length), (4, w.size), (2, w.name.length), (2, 0)]

def Written.localRecord (w : Written) : Bytes :=
  localSignature ++ fields w.common ++ w.name ++ w.data

def unixSystem : Nat := 3

def Written.centralRecord (w : Written) (start : Nat) : Bytes :=
  centralSignature ++ fields [(2, unixSystem * 256 + formatVersion)] ++ fields w.common
    ++ fields [(2, 0), (2, 0), (2, 0), (4, w.mode * 65536), (4, start)] ++ w.name

def centralRecords : (start : Nat) → List Written → Bytes
  | _, [] => []
  | start, w :: ws => w.centralRecord start ++ centralRecords (start + w.localRecord.length) ws

def endRecord (count size start : Nat) : Bytes :=
  endSignature ++ fields [(2, 0), (2, 0), (2, count), (2, count), (4, size), (4, start), (2, 0)]

/-- The records at the end of an archive with so many items that they need wider fields. -/
def wideEndRecords (count size start : Nat) : Bytes :=
  wideEndSignature
    ++ fields [(8, 44), (2, 45), (2, 45), (4, 0), (4, 0), (8, count), (8, count), (8, size),
        (8, start)]
    ++ wideLocatorSignature ++ fields [(4, 0), (8, start + size), (4, 1)]
    ++ endRecord 0xFFFF size start

def encode (items : List Item) : Bytes :=
  let ws := items.map Item.written
  let records := ws.flatMap Written.localRecord
  let index := centralRecords 0 ws
  let start := records.length
  records ++ index
    ++ (if ws.length < 0xFFFF then endRecord ws.length index.length start
        else wideEndRecords ws.length index.length start)

end FatJar.Zip
