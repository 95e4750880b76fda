import FatJar.Text.Utf8

namespace FatJar

/-- What payloads are told apart by: 64 bits of each, which different payloads may share. -/
abbrev Fingerprint := Bytes → UInt64

namespace Xxh3

def prime32₁ : UInt64 := 0x9E3779B1
def prime32₂ : UInt64 := 0x85EBCA77
def prime32₃ : UInt64 := 0xC2B2AE3D
def prime64₁ : UInt64 := 0x9E3779B185EBCA87
def prime64₂ : UInt64 := 0xC2B2AE3D27D4EB4F
def prime64₃ : UInt64 := 0x165667B19E3779F9
def prime64₄ : UInt64 := 0x85EBCA77C2B2AE63
def prime64₅ : UInt64 := 0x27D4EB2F165667C5

def secret : Array UInt8 :=
  #[0xb8, 0xfe, 0x6c, 0x39, 0x23, 0xa4, 0x4b, 0xbe, 0x7c, 0x01, 0x81, 0x2c, 0xf7, 0x21, 0xad, 0x1c,
    0xde, 0xd4, 0x6d, 0xe9, 0x83, 0x90, 0x97, 0xdb, 0x72, 0x40, 0xa4, 0xa4, 0xb7, 0xb3, 0x67, 0x1f,
    0xcb, 0x79, 0xe6, 0x4e, 0xcc, 0xc0, 0xe5, 0x78, 0x82, 0x5a, 0xd0, 0x7d, 0xcc, 0xff, 0x72, 0x21,
    0xb8, 0x08, 0x46, 0x74, 0xf7, 0x43, 0x24, 0x8e, 0xe0, 0x35, 0x90, 0xe6, 0x81, 0x3a, 0x26, 0x4c,
    0x3c, 0x28, 0x52, 0xbb, 0x91, 0xc3, 0x00, 0xcb, 0x88, 0xd0, 0x65, 0x8b, 0x1b, 0x53, 0x2e, 0xa3,
    0x71, 0x64, 0x48, 0x97, 0xa2, 0x0d, 0xf9, 0x4e, 0x38, 0x19, 0xef, 0x46, 0xa9, 0xde, 0xac, 0xd8,
    0xa8, 0xfa, 0x76, 0x3f, 0xe3, 0x9c, 0x34, 0x3f, 0xf9, 0xdc, 0xbb, 0xc7, 0xc7, 0x0b, 0x4f, 0x1d,
    0x8a, 0x51, 0xe0, 0x4b, 0xcd, 0xb4, 0x59, 0x31, 0xc8, 0x9f, 0x7e, 0xc9, 0xd9, 0x78, 0x73, 0x64,
    0xea, 0xc5, 0xac, 0x83, 0x34, 0xd3, 0xeb, 0xc3, 0xc5, 0x81, 0xa0, 0xff, 0xfa, 0x13, 0x63, 0xeb,
    0x17, 0x0d, 0xdd, 0x51, 0xb7, 0xf0, 0xda, 0x49, 0xd3, 0x16, 0x55, 0x26, 0x29, 0xd4, 0x68, 0x9e,
    0x2b, 0x16, 0xbe, 0x58, 0x7d, 0x47, 0xa1, 0xfc, 0x8f, 0xf8, 0xb8, 0xd1, 0x7a, 0xd0, 0x31, 0xce,
    0x45, 0xcb, 0x3a, 0x8f, 0x95, 0x16, 0x04, 0x28, 0xaf, 0xd7, 0xfb, 0xca, 0xbb, 0x4b, 0x40, 0x7e]

def word (width : Nat) (bs : Array UInt8) (place : Nat) : UInt64 :=
  (List.range width).foldr (fun i w => w <<< 8 ||| (bs.getD (place + i) 0).toUInt64) 0

def secretWord (place : Nat) : UInt64 :=
  word 8 secret place

def foldedProduct (a b : UInt64) : UInt64 :=
  let product := a.toNat * b.toNat
  .ofNat product ^^^ .ofNat (product / UInt64.size)

def rotate (n w : UInt64) : UInt64 :=
  w <<< n ||| w >>> (64 - n)

def reverseBytes (w : UInt64) : UInt64 :=
  (List.range 8).foldl (fun r i => r <<< 8 ||| (w >>> (8 * .ofNat i) &&& 0xFF)) 0

def shiftedUpon (n w : UInt64) : UInt64 :=
  w ^^^ w >>> n

def avalanche (w : UInt64) : UInt64 :=
  shiftedUpon 32 (shiftedUpon 37 w * 0x165667919E3779F9)

def avalancheShort (w : UInt64) : UInt64 :=
  shiftedUpon 32 (shiftedUpon 29 (shiftedUpon 33 w * prime64₂) * prime64₃)

def mixed (bs : Array UInt8) (place key : Nat) : UInt64 :=
  foldedProduct (word 8 bs place ^^^ secretWord key)
    (word 8 bs (place + 8) ^^^ secretWord (key + 8))

def tiny (bs : Array UInt8) : UInt64 :=
  let n := bs.size
  if n = 0 then avalancheShort (secretWord 56 ^^^ secretWord 64)
  else
    let bytes := word 1 bs (n - 1) ||| UInt64.ofNat n <<< 8 ||| word 1 bs 0 <<< 16
      ||| word 1 bs (n / 2) <<< 24
    avalancheShort (bytes ^^^ (word 4 secret 0 ^^^ word 4 secret 4))

def short (bs : Array UInt8) : UInt64 :=
  let n := bs.size
  let keyed := (word 4 bs (n - 4) + word 4 bs 0 <<< 32) ^^^ (secretWord 8 ^^^ secretWord 16)
  let w := (keyed ^^^ rotate 49 keyed ^^^ rotate 24 keyed) * 0x9FB21C651E98DF25
  shiftedUpon 28 ((w ^^^ (w >>> 35 + .ofNat n)) * 0x9FB21C651E98DF25)

def medium (bs : Array UInt8) : UInt64 :=
  let n := bs.size
  let low := word 8 bs 0 ^^^ (secretWord 24 ^^^ secretWord 32)
  let high := word 8 bs (n - 8) ^^^ (secretWord 40 ^^^ secretWord 48)
  avalanche (.ofNat n + reverseBytes low + high + foldedProduct low high)

def long (bs : Array UInt8) : UInt64 :=
  let n := bs.size
  avalanche <| (List.range ((n - 1) / 32 + 1)).foldl
    (fun w i => w + mixed bs (16 * i) (32 * i) + mixed bs (n - 16 * (i + 1)) (32 * i + 16))
    (.ofNat n * prime64₁)

def longer (bs : Array UInt8) : UInt64 :=
  let n := bs.size
  let first := (List.range 8).foldl (fun w i => w + mixed bs (16 * i) (16 * i)) (.ofNat n * prime64₁)
  let all := (List.range (n / 16 - 8)).foldl
    (fun w i => w + mixed bs (16 * (i + 8)) (16 * i + 3)) (avalanche first)
  avalanche (all + mixed bs (n - 16) 119)

abbrev Lanes := Vector UInt64 8

def Lanes.initial : Lanes :=
  #v[prime32₃, prime64₁, prime64₂, prime64₃, prime64₄, prime32₂, prime64₅, prime32₁]

def Lanes.take (bs : Array UInt8) (lanes : Lanes) (place key : Nat) : Lanes :=
  .ofFn fun i =>
    let keyed := word 8 bs (place + 8 * i.val) ^^^ secretWord (key + 8 * i.val)
    lanes[i] + word 8 bs (place + 8 * (i.val ^^^ 1)) + (keyed &&& (0xFFFFFFFF : UInt64)) * keyed >>> 32

def Lanes.takeMany (bs : Array UInt8) (count : Nat) (lanes : Lanes) (place : Nat) : Lanes :=
  (List.range count).foldl (fun lanes i => lanes.take bs (place + 64 * i) (8 * i)) lanes

def Lanes.scramble (lanes : Lanes) : Lanes :=
  .ofFn fun i => (shiftedUpon 47 lanes[i] ^^^ secretWord (128 + 8 * i)) * prime32₁

def huge (bs : Array UInt8) : UInt64 :=
  let n := bs.size
  let blocks := (n - 1) / 1024
  let whole := (List.range blocks).foldl
    (fun lanes i => (lanes.takeMany bs 16 (1024 * i)).scramble) Lanes.initial
  let all := (whole.takeMany bs ((n - 1) % 1024 / 64) (1024 * blocks)).take bs (n - 64) 121
  avalanche <| (List.finRange 4).foldl
    (fun (w : UInt64) (i : Fin 4) => w +
      foldedProduct (all[2 * i.val] ^^^ secretWord (11 + 16 * i.val))
        (all[2 * i.val + 1] ^^^ secretWord (19 + 16 * i.val)))
    (.ofNat n * prime64₁)

end Xxh3

/-- XXH3 with 64 bits and no seed. -/
def Fingerprint.xxh3 : Fingerprint := fun payload =>
  let bs := payload.toArray
  if bs.size ≤ 3 then Xxh3.tiny bs
  else if bs.size ≤ 8 then Xxh3.short bs
  else if bs.size ≤ 16 then Xxh3.medium bs
  else if bs.size ≤ 128 then Xxh3.long bs
  else if bs.size ≤ 240 then Xxh3.longer bs
  else Xxh3.huge bs

end FatJar
