import NanoOs.Ramfs
import NanoOs.CheckedArithmetic

/-!
# Unpacking the initial RAM file system

`unpack_cpio` reads an archive in the "newc" format and inserts its entries into
a RAM file system.  Ranges of slices and sums of positions are checked as the
code does at run time.
-/

namespace NanoOs

namespace Initramfs

/-- `b"070701"`. -/
def cpioMagic : List UInt8 := [0x30, 0x37, 0x30, 0x37, 0x30, 0x31]

def cpioMagicLen : Nat := 6
def cpioHeaderSize : Nat := 110
def cpioAlign : Nat := 4

def cpioFieldWidth : Nat := 8

def cpioModeOffset : Nat := 14
def cpioFilesizeOffset : Nat := 54
def cpioRdevmajorOffset : Nat := 78
def cpioRdevminorOffset : Nat := 86
def cpioNamesizeOffset : Nat := 94

def sIfmt : Nat := 0o170000
def sIfreg : Nat := 0o100000
def sIfdir : Nat := 0o040000
def sIfchr : Nat := 0o020000
def sIfblk : Nat := 0o060000

/-- `&bytes[start..stop]`. -/
def slice (bytes : List UInt8) (start stop : Nat) : Checked (List UInt8) := do
  ensure (start ≤ stop) "slice index starts after its end"
  ensure (stop ≤ bytes.length) "range end index out of range for slice"
  .ok ((bytes.drop start).take (stop - start))

/-- `char::to_digit(16)`. -/
def toDigit (byte : UInt8) : Option Nat :=
  if 0x30 ≤ byte ∧ byte ≤ 0x39 then some (byte.toNat - 0x30)
  else if 0x61 ≤ byte ∧ byte ≤ 0x66 then some (byte.toNat - 0x61 + 10)
  else if 0x41 ≤ byte ∧ byte ≤ 0x46 then some (byte.toNat - 0x41 + 10)
  else none

/-- The digits of a number in base 16, up to the first that is none or that makes
the number too large for a word. -/
def readDigits (value : Nat) : List UInt8 → Option Nat
  | [] => some value
  | byte :: rest =>
      match toDigit byte with
      | none => none
      | some digit =>
          if value * 16 + digit < wordLimit then readDigits (value * 16 + digit) rest else none

/-- `usize::from_str_radix(text, 16)`, which takes a plus sign before the digits. -/
def fromStrRadix16 : List UInt8 → Option Nat
  | [] => none
  | sign :: rest =>
      if (sign = 0x2b ∨ sign = 0x2d) ∧ rest = [] then none
      else if sign = 0x2b then readDigits 0 rest
      else readDigits 0 (sign :: rest)

def parseHex (bytes : List UInt8) : Nat :=
  let text := if bytes.toByteArray.IsValidUTF8 then bytes else [0x30]
  (fromStrRadix16 text).getD 0

def alignUp (x align : Nat) : Checked Nat := do
  let raised ← checkedAdd x align
  let last ← checkedSub raised 1
  let mask ← checkedSub align 1
  .ok (last &&& complement mask)

def headerField (hdr : List UInt8) (offset : Nat) : Checked Nat := do
  let bytes ← slice hdr offset (offset + cpioFieldWidth)
  .ok (parseHex bytes)

def insertEntry (ramfs : Ramfs) (cpio hdr : List UInt8) (filename : String)
    (fmt dataStart dataEnd : Nat) : Checked Ramfs :=
  if fmt = sIfdir then
    .ok (ramfs.insertDir filename).2
  else if fmt = sIfchr then do
    let rdevmajor ← headerField hdr cpioRdevmajorOffset
    let rdevminor ← headerField hdr cpioRdevminorOffset
    .ok (ramfs.insertChardev filename (.ofNat rdevmajor) (.ofNat rdevminor)).2
  else if fmt = sIfblk then do
    let rdevmajor ← headerField hdr cpioRdevmajorOffset
    let rdevminor ← headerField hdr cpioRdevminorOffset
    .ok (ramfs.insertBlockdev filename (.ofNat rdevmajor) (.ofNat rdevminor)).2
  else do
    let data ← slice cpio dataStart dataEnd
    .ok (ramfs.insertFile filename data).2

def unpackLoop : Nat → Ramfs → List UInt8 → Nat → Checked Ramfs
  | 0, _, _, _ => .error .diverged
  | fuel + 1, ramfs, cpio, pos => do
      let headerEnd ← checkedAdd pos cpioHeaderSize
      if headerEnd ≤ cpio.length then do
        let hdr := cpio.drop pos
        let magic ← slice hdr 0 cpioMagicLen
        if magic ≠ cpioMagic then .ok ramfs
        else do
          let mode ← headerField hdr cpioModeOffset
          let filesize ← headerField hdr cpioFilesizeOffset
          let namesize ← headerField hdr cpioNamesizeOffset
          let nameStart ← checkedAdd pos cpioHeaderSize
          let nameEnd ← checkedAdd nameStart namesize
          let nameStop ← checkedSub nameEnd 1
          let name ← slice cpio nameStart nameStop
          match String.fromUTF8? name.toByteArray with
          | none => .ok ramfs
          | some filename =>
              if filename = "TRAILER!!!" then .ok ramfs
              else do
                let dataStart ← alignUp nameEnd cpioAlign
                let dataEnd ← checkedAdd dataStart filesize
                let ramfs ← insertEntry ramfs cpio hdr filename (mode % 2 ^ 16 &&& sIfmt)
                  dataStart dataEnd
                let pos ← alignUp dataEnd cpioAlign
                unpackLoop fuel ramfs cpio pos
      else .ok ramfs

/-- Unpack an archive; a turn of the loop moves forward by a header at least. -/
def unpackCpio (ramfs : Ramfs) (cpio : List UInt8) : Checked Ramfs :=
  unpackLoop (cpio.length + 1) ramfs cpio 0

end Initramfs

end NanoOs
