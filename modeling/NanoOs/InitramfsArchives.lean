import NanoOs.Initramfs
import Mathlib.Tactic.FinCases

/-!
# Archives of the initial RAM file system

The "newc" archive format, and that unpacking an archive inserts its entries in
order.  The positions that the loop recomputes from the alignments and the fields
of each header are those of the next entry.
-/

namespace NanoOs

open List

namespace Initramfs

/-! ## The format -/

inductive HexDigit : UInt8 → Nat → Prop
  | decimal (digit : Fin 10) : HexDigit (.ofNat (0x30 + digit)) digit
  | lower (digit : Fin 6) : HexDigit (.ofNat (0x61 + digit)) (10 + digit)
  | upper (digit : Fin 6) : HexDigit (.ofNat (0x41 + digit)) (10 + digit)

def hexValue (value : Nat) (digits : List Nat) : Nat :=
  digits.foldl (fun value digit => value * 16 + digit) value

def HexField (value : Nat) (bytes : List UInt8) : Prop :=
  bytes.length = cpioFieldWidth ∧
    ∃ digits, List.Forall₂ HexDigit bytes digits ∧ hexValue 0 digits = value

structure Header where
  ino : List UInt8
  mode : List UInt8
  uid : List UInt8
  gid : List UInt8
  nlink : List UInt8
  mtime : List UInt8
  filesize : List UInt8
  devmajor : List UInt8
  devminor : List UInt8
  rdevmajor : List UInt8
  rdevminor : List UInt8
  namesize : List UInt8
  check : List UInt8
  wide : ∀ field ∈ [ino, mode, uid, gid, nlink, mtime, filesize, devmajor, devminor, rdevmajor,
    rdevminor, namesize, check], field.length = cpioFieldWidth

def Header.fields (header : Header) : List (List UInt8) :=
  [header.ino, header.mode, header.uid, header.gid, header.nlink, header.mtime, header.filesize,
    header.devmajor, header.devminor, header.rdevmajor, header.rdevminor, header.namesize,
    header.check]

def Header.bytes (header : Header) : List UInt8 :=
  cpioMagic ++ header.fields.flatten

def nameBytes (name : String) : List UInt8 :=
  name.toByteArray.data.toList

def padding (position : Nat) : Nat :=
  (cpioAlign - position % cpioAlign) % cpioAlign

end Initramfs

namespace Insert

def format : Insert → Nat
  | .dir _ => Initramfs.sIfdir
  | .file _ _ => Initramfs.sIfreg
  | .chardev _ _ _ => Initramfs.sIfchr
  | .blockdev _ _ _ => Initramfs.sIfblk

def payload : Insert → List UInt8
  | .file _ data => data
  | _ => []

def device : Insert → Option (UInt32 × UInt32)
  | .chardev _ major minor => some (major, minor)
  | .blockdev _ major minor => some (major, minor)
  | _ => none

end Insert

namespace Initramfs

/-- A header, and the paddings after the name and after the data, for an entry
that starts at a position of the archive. -/
structure EntryAt (position : Nat) (insert : Insert) (header : Header)
    (namePad dataPad : List UInt8) : Prop where
  mode : ∃ mode, HexField mode header.mode ∧ mode &&& sIfmt = insert.format
  filesize : HexField insert.payload.length header.filesize
  device : ∀ {major minor}, insert.device = some (major, minor) →
    HexField major.toNat header.rdevmajor ∧ HexField minor.toNat header.rdevminor
  namesize : HexField ((nameBytes insert.path).length + 1) header.namesize
  namePadded : namePad.length =
    padding (position + cpioHeaderSize + ((nameBytes insert.path).length + 1))
  dataPadded : dataPad.length =
    padding (position + cpioHeaderSize + ((nameBytes insert.path).length + 1) + namePad.length +
      insert.payload.length)

def entryBytes (insert : Insert) (header : Header) (namePad dataPad : List UInt8) : List UInt8 :=
  header.bytes ++ (nameBytes insert.path ++ [0]) ++ namePad ++ insert.payload ++ dataPad

/-- What an archive holds from a position on: its entries and a trailer, with
anything after it. -/
inductive Archive : Nat → List UInt8 → List Insert → Prop
  | trailer {position : Nat} {header : Header}
      (namesize : HexField ((nameBytes "TRAILER!!!").length + 1) header.namesize)
      (trailing : List UInt8) :
      Archive position (header.bytes ++ (nameBytes "TRAILER!!!" ++ [0]) ++ trailing) []
  | entry {position : Nat} {insert : Insert} {header : Header} {namePad dataPad : List UInt8}
      {rest : List UInt8} {inserts : List Insert}
      (isEntry : EntryAt position insert header namePad dataPad)
      (notTrailer : insert.path ≠ "TRAILER!!!")
      (others : Archive (position + (entryBytes insert header namePad dataPad).length) rest
        inserts) :
      Archive position (entryBytes insert header namePad dataPad ++ rest) (insert :: inserts)

/-! ## Numbers -/

variable {byte : UInt8} {digit value : Nat} {bytes : List UInt8} {digits : List Nat}

theorem HexDigit.toDigit_eq (isDigit : HexDigit byte digit) : toDigit byte = some digit := by
  cases isDigit with
  | decimal digit => revert digit; decide
  | lower digit => revert digit; decide
  | upper digit => revert digit; decide

theorem HexDigit.lt (isDigit : HexDigit byte digit) : digit < 16 := by
  cases isDigit <;> omega

theorem HexDigit.plain (isDigit : HexDigit byte digit) :
    byte.toNat ≤ 127 ∧ byte ≠ 0x2b ∧ byte ≠ 0x2d := by
  cases isDigit with
  | decimal digit => revert digit; decide
  | lower digit => revert digit; decide
  | upper digit => revert digit; decide

theorem readDigits_hex (isHex : List.Forall₂ HexDigit bytes digits) {bound : Nat}
    (small : value < 16 ^ bound) (fits : bound + bytes.length ≤ 16) :
    readDigits value bytes = some (hexValue value digits) := by
  induction isHex generalizing value bound with
  | nil => rfl
  | @cons byte digit bytes digits isDigit others ih =>
    have next : value * 16 + digit < 16 ^ (bound + 1) := by
      have := isDigit.lt
      omega
    have inWord : value * 16 + digit < wordLimit := by
      have bounded : 16 ^ (bound + 1) ≤ 16 ^ 16 := by
        refine Nat.pow_le_pow_right (by decide) ?_
        rw [length_cons] at fits
        omega
      have : (16 : Nat) ^ 16 = wordLimit := by decide
      omega
    rw [readDigits, isDigit.toDigit_eq]
    simp only [inWord, if_true]
    exact ih next (by rw [length_cons] at fits; omega)

theorem isValidUTF8_of_ascii (ascii : ∀ byte ∈ bytes, byte.toNat ≤ 127) :
    bytes.toByteArray.IsValidUTF8 := by
  refine .intro (bytes.map fun byte => Char.ofNat byte.toNat) ?_
  rw [utf8Encode, toByteArray_inj]
  induction bytes with
  | nil => rfl
  | cons byte bytes ih =>
    have small := ascii byte mem_cons_self
    have one : String.utf8EncodeChar (Char.ofNat byte.toNat) = [byte] := by
      have valid : byte.toNat.isValidChar := .inl (by omega)
      have code : (Char.ofNat byte.toNat).val.toNat = byte.toNat := by
        rw [Char.ofNat, dif_pos valid]
        rfl
      rw [String.utf8EncodeChar, code]
      simp [small]
    rw [map_cons, flatMap_cons, one, ← ih fun other inside =>
      ascii other (mem_cons_of_mem _ inside)]
    rfl

theorem ascii_of_hex (isHex : List.Forall₂ HexDigit bytes digits) :
    ∀ byte ∈ bytes, byte.toNat ≤ 127 := by
  induction isHex with
  | nil => simp
  | cons isDigit _ ih => exact forall_mem_cons.mpr ⟨isDigit.plain.1, ih⟩

theorem HexField.parseHex_eq (field : HexField value bytes) : parseHex bytes = value := by
  obtain ⟨width, digits, isHex, rfl⟩ := field
  rw [parseHex, if_pos (isValidUTF8_of_ascii (ascii_of_hex isHex))]
  cases isHex with
  | nil => cases width
  | @cons sign digit rest digits isSign others =>
    obtain ⟨-, notPlus, notMinus⟩ := isSign.plain
    have read : readDigits 0 (sign :: rest) = some (hexValue 0 (digit :: digits)) :=
      readDigits_hex (.cons isSign others) (show 0 < 16 ^ 0 by decide) (by rw [width]; decide)
    rw [fromStrRadix16, if_neg (by rintro ⟨isPlus | isMinus, -⟩ <;> contradiction),
      if_neg notPlus, read]
    rfl

/-! ## Parts of a header -/

theorem slice_eq {first part rest : List UInt8} {start stop : Nat}
    (split : bytes = first ++ part ++ rest) (starts : first.length = start)
    (stops : start + part.length = stop) : slice bytes start stop = .ok part := by
  subst split starts stops
  unfold slice
  rw [ensure_bind (by omega),
    ensure_bind (by rw [length_append, length_append]; omega),
    append_assoc, drop_left, Nat.add_sub_cancel_left, take_left]

theorem slice_flatten {fields : List (List UInt8)} {field : List UInt8} {width : Nat}
    (wide : ∀ field ∈ fields, field.length = width) {index : Nat}
    (found : fields[index]? = some field) (first rest : List UInt8) :
    slice (first ++ fields.flatten ++ rest) (first.length + width * index)
      (first.length + width * index + width) = .ok field := by
  induction index generalizing fields first with
  | zero =>
    cases fields with
    | nil => cases found
    | cons head others =>
      cases found
      have split : first ++ (field :: others).flatten ++ rest =
          first ++ field ++ (others.flatten ++ rest) := by
        simp
      exact slice_eq split rfl (by rw [wide _ mem_cons_self])
  | succ index ih =>
    cases fields with
    | nil => cases found
    | cons head others =>
      have headWide := wide head mem_cons_self
      have next := ih (fun field inside => wide field (mem_cons_of_mem _ inside)) found
        (first ++ head)
      rw [length_append, headWide] at next
      rw [flatten_cons, ← append_assoc, ← next]
      congr 1 <;> ring

theorem Header.length_bytes (header : Header) : header.bytes.length = cpioHeaderSize := by
  have widths : header.fields.map length = replicate 13 cpioFieldWidth := by
    refine eq_replicate_iff.mpr ⟨rfl, ?_⟩
    intro width inside
    obtain ⟨field, isField, rfl⟩ := mem_map.mp inside
    exact header.wide field isField
  rw [Header.bytes, length_append, length_flatten, widths]
  rfl

theorem Header.headerField_eq (header : Header) (index : Nat) {field : List UInt8}
    (found : header.fields[index]? = some field) (rest : List UInt8) :
    headerField (header.bytes ++ rest) (cpioMagicLen + cpioFieldWidth * index) =
      .ok (parseHex field) := by
  have part := slice_flatten header.wide found cpioMagic rest
  exact bind_eq_ok.mpr ⟨field, part, rfl⟩

theorem Header.headerField_mode (header : Header) (rest : List UInt8) :
    headerField (header.bytes ++ rest) cpioModeOffset = .ok (parseHex header.mode) :=
  header.headerField_eq 1 rfl rest

theorem Header.headerField_filesize (header : Header) (rest : List UInt8) :
    headerField (header.bytes ++ rest) cpioFilesizeOffset = .ok (parseHex header.filesize) :=
  header.headerField_eq 6 rfl rest

theorem Header.headerField_rdevmajor (header : Header) (rest : List UInt8) :
    headerField (header.bytes ++ rest) cpioRdevmajorOffset = .ok (parseHex header.rdevmajor) :=
  header.headerField_eq 9 rfl rest

theorem Header.headerField_rdevminor (header : Header) (rest : List UInt8) :
    headerField (header.bytes ++ rest) cpioRdevminorOffset = .ok (parseHex header.rdevminor) :=
  header.headerField_eq 10 rfl rest

theorem Header.headerField_namesize (header : Header) (rest : List UInt8) :
    headerField (header.bytes ++ rest) cpioNamesizeOffset = .ok (parseHex header.namesize) :=
  header.headerField_eq 11 rfl rest

theorem Header.slice_magic (header : Header) (rest : List UInt8) :
    slice (header.bytes ++ rest) 0 cpioMagicLen = .ok cpioMagic := by
  have split : header.bytes ++ rest = [] ++ cpioMagic ++ (header.fields.flatten ++ rest) := by
    rw [Header.bytes, nil_append, append_assoc]
  exact slice_eq split rfl rfl

theorem fromUTF8_nameBytes (name : String) :
    String.fromUTF8? (nameBytes name).toByteArray = some name := by
  have same : (nameBytes name).toByteArray = name.toByteArray := by
    apply ByteArray.ext
    rw [data_toByteArray, nameBytes]
  rw [same, String.fromUTF8?, dif_pos name.isValidUTF8]
  rfl

theorem alignUp_four {x : Nat} (fits : x + 4 < 2 ^ 64) :
    alignUp x cpioAlign = .ok (x + padding x) := by
  unfold alignUp padding cpioAlign
  rw [checkedAdd_bind fits, checkedSub_bind (by omega),
    checkedSub_bind (by omega), show (4 : Nat) - 1 = 2 ^ 2 - 1 from rfl,
    and_complement_two_pow (by omega) (by omega)]
  exact congrArg Except.ok (by omega)

/-! ## Turns of the loop -/

section Turns

variable {cpio before rest : List UInt8} {header : Header} {name : String} {ramfs : Ramfs}
  {fuel : Nat}

theorem unpackLoop_header
    (split : cpio = before ++ (header.bytes ++ (nameBytes name ++ [0]) ++ rest))
    (namesize : HexField ((nameBytes name).length + 1) header.namesize)
    (fits : cpio.length < 2 ^ 63) :
    unpackLoop (fuel + 1) ramfs cpio before.length =
      if name = "TRAILER!!!" then .ok ramfs
      else (do
        let dataStart ←
          alignUp (before.length + cpioHeaderSize + ((nameBytes name).length + 1)) cpioAlign
        let dataEnd ← checkedAdd dataStart (parseHex header.filesize)
        let ramfs ← insertEntry ramfs cpio (cpio.drop before.length) name
          (parseHex header.mode % 2 ^ 16 &&& sIfmt) dataStart dataEnd
        let pos ← alignUp dataEnd cpioAlign
        unpackLoop fuel ramfs cpio pos) := by
  have length : cpio.length =
      before.length + cpioHeaderSize + ((nameBytes name).length + 1) + rest.length := by
    rw [split]
    simp only [length_append, header.length_bytes, length_singleton]
    omega
  have headerEq : cpio.drop before.length =
      header.bytes ++ ((nameBytes name ++ [0]) ++ rest) := by
    rw [split, drop_left, append_assoc]
  have nameSplit : cpio = (before ++ header.bytes) ++ nameBytes name ++ ([0] ++ rest) := by
    rw [split]
    simp only [append_assoc]
  have nameEq : slice cpio (before.length + cpioHeaderSize)
      (before.length + cpioHeaderSize + ((nameBytes name).length + 1) - 1) =
        .ok (nameBytes name) := by
    refine slice_eq nameSplit ?_ (by omega)
    rw [length_append, header.length_bytes]
  have headerFits : checkedAdd before.length cpioHeaderSize =
      .ok (before.length + cpioHeaderSize) := checkedAdd_of_lt (by omega)
  have nameFits : checkedAdd (before.length + cpioHeaderSize) ((nameBytes name).length + 1) =
      .ok (before.length + cpioHeaderSize + ((nameBytes name).length + 1)) :=
    checkedAdd_of_lt (by omega)
  rw [unpackLoop, headerFits, ok_bind, if_pos (by omega)]
  dsimp only
  rw [headerEq, header.slice_magic, ok_bind, if_neg (not_not.mpr rfl), header.headerField_mode,
    ok_bind, header.headerField_filesize, ok_bind, header.headerField_namesize, ok_bind,
    namesize.parseHex_eq, ok_bind, nameFits, ok_bind, checkedSub_bind (by omega), nameEq,
    ok_bind, fromUTF8_nameBytes]

theorem unpackLoop_trailer
    (split : cpio = before ++ (header.bytes ++ (nameBytes "TRAILER!!!" ++ [0]) ++ rest))
    (namesize : HexField ((nameBytes "TRAILER!!!").length + 1) header.namesize)
    (fits : cpio.length < 2 ^ 63) :
    unpackLoop (fuel + 1) ramfs cpio before.length = .ok ramfs := by
  rw [unpackLoop_header split namesize fits, if_pos rfl]

variable {insert : Insert} {namePad dataPad : List UInt8}

theorem and_sIfmt_mod (mode : Nat) : mode % 2 ^ 16 &&& sIfmt = mode &&& sIfmt := by
  have low : sIfmt % 2 ^ 16 = sIfmt := by decide
  have small : mode &&& sIfmt < 2 ^ 16 := Nat.and_le_right.trans_lt (by decide)
  rw [← Nat.mod_eq_of_lt small, Nat.and_mod_two_pow, low]

theorem uint32_ofNat_hex {number : UInt32} (field : HexField number.toNat bytes) :
    UInt32.ofNat (parseHex bytes) = number := by
  rw [field.parseHex_eq, UInt32.ofNat_toNat]

theorem EntryAt.insertEntry_eq {position dataStart dataEnd : Nat}
    (isEntry : EntryAt position insert header namePad dataPad)
    (hdr : cpio.drop position = header.bytes ++ rest)
    (data : slice cpio dataStart dataEnd = .ok insert.payload) :
    insertEntry ramfs cpio (cpio.drop position) insert.path
      (parseHex header.mode % 2 ^ 16 &&& sIfmt) dataStart dataEnd =
        .ok (insert.apply ramfs).2 := by
  obtain ⟨mode, modeField, format⟩ := isEntry.mode
  rw [and_sIfmt_mod, modeField.parseHex_eq, format, hdr, insertEntry]
  cases insert with
  | dir path =>
    rfl
  | file path contents =>
    rw [Insert.format, if_neg (by decide), if_neg (by decide), if_neg (by decide), data]
    rfl
  | chardev path major minor =>
    obtain ⟨majorField, minorField⟩ := isEntry.device rfl
    rw [Insert.format, if_neg (by decide), if_pos rfl, header.headerField_rdevmajor, ok_bind,
      header.headerField_rdevminor, ok_bind, uint32_ofNat_hex majorField,
      uint32_ofNat_hex minorField]
    rfl
  | blockdev path major minor =>
    obtain ⟨majorField, minorField⟩ := isEntry.device rfl
    rw [Insert.format, if_neg (by decide), if_neg (by decide), if_pos rfl,
      header.headerField_rdevmajor, ok_bind, header.headerField_rdevminor, ok_bind,
        uint32_ofNat_hex majorField,
      uint32_ofNat_hex minorField]
    rfl

theorem length_entryBytes :
    (entryBytes insert header namePad dataPad).length =
      cpioHeaderSize + ((nameBytes insert.path).length + 1) + namePad.length +
        insert.payload.length + dataPad.length := by
  simp only [entryBytes, length_append, header.length_bytes, length_singleton]

theorem EntryAt.unpackLoop_eq (isEntry : EntryAt before.length insert header namePad dataPad)
    (notTrailer : insert.path ≠ "TRAILER!!!")
    (split : cpio = before ++ (entryBytes insert header namePad dataPad ++ rest))
    (fits : cpio.length < 2 ^ 63) :
    unpackLoop (fuel + 1) ramfs cpio before.length =
      unpackLoop fuel (insert.apply ramfs).2 cpio
        (before.length + (entryBytes insert header namePad dataPad).length) := by
  have length : cpio.length =
      before.length + (entryBytes insert header namePad dataPad).length + rest.length := by
    rw [split, length_append, length_append, Nat.add_assoc]
  rw [length_entryBytes] at length ⊢
  have headerSplit : cpio = before ++ (header.bytes ++ (nameBytes insert.path ++ [0]) ++
      (namePad ++ insert.payload ++ dataPad ++ rest)) := by
    rw [split, entryBytes]
    simp only [append_assoc]
  have hdr : cpio.drop before.length = header.bytes ++ ((nameBytes insert.path ++ [0]) ++
      (namePad ++ insert.payload ++ dataPad ++ rest)) := by
    rw [headerSplit, drop_left, append_assoc]
  have dataSplit : cpio = (before ++ header.bytes ++ (nameBytes insert.path ++ [0]) ++ namePad) ++
      insert.payload ++ (dataPad ++ rest) := by
    rw [split, entryBytes]
    simp only [append_assoc]
  have data := slice_eq dataSplit rfl rfl
  simp only [length_append, header.length_bytes, length_singleton] at data
  rw [unpackLoop_header headerSplit isEntry.namesize fits, if_neg notTrailer,
    alignUp_four (by omega), ok_bind, ← isEntry.namePadded, isEntry.filesize.parseHex_eq,
    checkedAdd_bind (by omega), isEntry.insertEntry_eq hdr data, ok_bind,
    alignUp_four (by omega), ok_bind, ← isEntry.dataPadded]
  exact congrArg _ (by omega)

end Turns

/-- Unpacking goes through the entries of an archive in order. -/
theorem Archive.unpackLoop_eq {position : Nat} {inserts : List Insert}
    (archive : Archive position bytes inserts) {before : List UInt8}
    (starts : before.length = position) (fits : (before ++ bytes).length < 2 ^ 63) {fuel : Nat}
    (enough : bytes.length < fuel) (ramfs : Ramfs) :
    unpackLoop fuel ramfs (before ++ bytes) position =
      .ok (inserts.foldl (fun ramfs insert => (insert.apply ramfs).2) ramfs) := by
  induction archive generalizing before fuel ramfs with
  | trailer namesize trailing =>
    obtain ⟨fuel, rfl⟩ : ∃ less, fuel = less + 1 := ⟨fuel - 1, by omega⟩
    subst starts
    exact unpackLoop_trailer rfl namesize fits
  | @entry _ insert header namePad dataPad rest inserts isEntry notTrailer others ih =>
    obtain ⟨fuel, rfl⟩ : ∃ less, fuel = less + 1 := ⟨fuel - 1, by omega⟩
    subst starts
    rw [isEntry.unpackLoop_eq notTrailer rfl fits, ← append_assoc]
    refine ih ?_ ?_ ?_ _
    · rw [length_append]
    · rwa [append_assoc]
    · rw [length_append, length_entryBytes] at enough
      omega

/-! ## Every list of entries has an archive -/

def digitByte (digit : Nat) : UInt8 :=
  if digit < 10 then .ofNat (0x30 + digit) else .ofNat (0x61 + (digit - 10))

def hexField (value : Nat) : List UInt8 :=
  [7, 6, 5, 4, 3, 2, 1, 0].map fun place => digitByte (value / 16 ^ place % 16)

def headerOf (insert : Insert) (namesize : Nat) : Header where
  ino := hexField 0
  mode := hexField insert.format
  uid := hexField 0
  gid := hexField 0
  nlink := hexField 1
  mtime := hexField 0
  filesize := hexField insert.payload.length
  devmajor := hexField 0
  devminor := hexField 0
  rdevmajor := hexField ((insert.device.map fun device => device.1.toNat).getD 0)
  rdevminor := hexField ((insert.device.map fun device => device.2.toNat).getD 0)
  namesize := hexField namesize
  check := hexField 0
  wide := by simp [hexField, cpioFieldWidth]

def pad (position : Nat) : List UInt8 :=
  List.replicate (padding position) 0

def encode (position : Nat) : List Insert → List UInt8
  | [] => (headerOf (.dir "") 11).bytes ++ (nameBytes "TRAILER!!!" ++ [0]) ++ []
  | insert :: inserts =>
      let nameEnd := position + cpioHeaderSize + ((nameBytes insert.path).length + 1)
      let dataEnd := nameEnd + padding nameEnd + insert.payload.length
      let bytes := entryBytes insert (headerOf insert ((nameBytes insert.path).length + 1))
        (pad nameEnd) (pad dataEnd)
      bytes ++ encode (position + bytes.length) inserts

theorem hexDigit_digitByte (small : digit < 16) : HexDigit (digitByte digit) digit := by
  unfold digitByte
  by_cases decimal : digit < 10
  · rw [if_pos decimal]
    exact HexDigit.decimal ⟨digit, decimal⟩
  · have isLower := HexDigit.lower ⟨digit - 10, by omega⟩
    rw [if_neg decimal]
    rwa [show 10 + (digit - 10) = digit by omega] at isLower

theorem div_pow_succ_add_mod (value place : Nat) :
    value / 16 ^ (place + 1) * 16 + value / 16 ^ place % 16 = value / 16 ^ place := by
  rw [pow_succ, ← Nat.div_div_eq_div_mul, Nat.div_add_mod']

theorem hexField_hexField (small : value < 2 ^ 32) : HexField value (hexField value) := by
  refine ⟨rfl, [7, 6, 5, 4, 3, 2, 1, 0].map fun place => value / 16 ^ place % 16, ?_, ?_⟩
  · refine forall₂_map_right_iff.mpr (forall₂_map_left_iff.mpr ?_)
    exact forall₂_same.mpr fun place _ => hexDigit_digitByte (Nat.mod_lt _ (by decide))
  · have top : value / 16 ^ 8 = 0 := Nat.div_eq_of_lt small
    have bottom : value / 16 ^ 0 = value := Nat.div_one value
    have start : hexValue 0 = hexValue (value / 16 ^ 8) := by rw [top]
    rw [start, hexValue]
    simp only [map_cons, map_nil, foldl_cons, foldl_nil,
      div_pow_succ_add_mod]
    exact bottom

structure Archivable (insert : Insert) : Prop where
  name : (nameBytes insert.path).length + 1 < 2 ^ 32
  data : insert.payload.length < 2 ^ 32
  notTrailer : insert.path ≠ "TRAILER!!!"

instance (insert : Insert) : Decidable (Archivable insert) :=
  decidable_of_iff
    ((nameBytes insert.path).length + 1 < 2 ^ 32 ∧ insert.payload.length < 2 ^ 32 ∧
      insert.path ≠ "TRAILER!!!")
    ⟨fun ⟨name, data, notTrailer⟩ => ⟨name, data, notTrailer⟩,
      fun ⟨name, data, notTrailer⟩ => ⟨name, data, notTrailer⟩⟩

theorem format_and_sIfmt (insert : Insert) :
    insert.format < 2 ^ 32 ∧ insert.format &&& sIfmt = insert.format := by
  cases insert <;> exact ⟨by rw [Insert.format]; decide, by rw [Insert.format]; decide⟩

theorem archive_encode {inserts : List Insert}
    (archivable : ∀ insert ∈ inserts, Archivable insert) (position : Nat) :
    Archive position (encode position inserts) inserts := by
  induction inserts generalizing position with
  | nil => exact .trailer (hexField_hexField (by decide)) []
  | cons insert inserts ih =>
    have first := archivable insert mem_cons_self
    have others := fun other inside => archivable other (mem_cons_of_mem _ inside)
    obtain ⟨small, format⟩ := format_and_sIfmt insert
    refine .entry ?_ first.notTrailer (ih others _)
    exact
      { mode := ⟨_, hexField_hexField small, format⟩
        filesize := hexField_hexField first.data
        device := by
          intro major minor device
          constructor
          · simp only [headerOf, device, Option.map_some, Option.getD_some]
            exact hexField_hexField major.toNat_lt
          · simp only [headerOf, device, Option.map_some, Option.getD_some]
            exact hexField_hexField minor.toNat_lt
        namesize := hexField_hexField first.name
        namePadded := length_replicate
        dataPadded := by rw [pad, pad, length_replicate, length_replicate] }

/-- Unpacking an archive makes the file system that inserting its entries in
order makes. -/
theorem unpackCpio_archive {cpio : List UInt8} {inserts : List Insert}
    (archive : Archive 0 cpio inserts) (fits : cpio.length < 2 ^ 63) (ramfs : Ramfs) :
    unpackCpio ramfs cpio =
      .ok (inserts.foldl (fun ramfs insert => (insert.apply ramfs).2) ramfs) := by
  have start : ([] : List UInt8).length = 0 := rfl
  exact archive.unpackLoop_eq start fits (Nat.lt_succ_self _) ramfs

/-- A directory, an empty file, a file and two devices. -/
def smallEntries : List Insert :=
  [.dir "etc", .file "etc/empty" [], .file "etc/motd" [0x68, 0x69, 0x0a],
    .chardev "dev/console" 5 1, .blockdev "dev/sda" 8 0]

theorem smallArchive_unpacks :
    unpackCpio Ramfs.new (encode 0 smallEntries) =
      .ok (smallEntries.foldl (fun ramfs insert => (insert.apply ramfs).2) Ramfs.new) := by
  have archivable : ∀ insert ∈ smallEntries, Archivable insert := by decide +kernel
  have fits : (encode 0 smallEntries).length < 2 ^ 63 := by decide +kernel
  exact unpackCpio_archive (archive_encode archivable 0) fits Ramfs.new

end Initramfs

end NanoOs
