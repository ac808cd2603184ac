import NanoOs.Vfs

/-!
# Headers of ELF files
-/

namespace NanoOs.ReadElf

open Files

/-- The ELF header, without the fields that loading does not use. -/
structure Elf64Header where
  eEntry : Nat
  ePhoff : Nat
  ePhentsize : Nat
  ePhnum : Nat
  deriving Repr, DecidableEq

/-- A program header, without the fields that loading does not use. -/
structure Elf64ProgramHeader where
  pType : Nat
  pOffset : Nat
  pVaddr : Nat
  pFilesz : Nat
  pMemsz : Nat
  deriving Repr, DecidableEq

def ptLoad : Nat := 1

def elf64HeaderSize : Nat := 64

def elf64ProgramHeaderSize : Nat := 56

def parseHeader (buf : ByteMemory) : Elf64Header where
  eEntry := buf.readWord 24 8
  ePhoff := buf.readWord 32 8
  ePhentsize := buf.readWord 54 2
  ePhnum := buf.readWord 56 2

def parseProgramHeader (buf : ByteMemory) : Elf64ProgramHeader where
  pType := buf.readWord 0 4
  pOffset := buf.readWord 8 8
  pVaddr := buf.readWord 16 8
  pFilesz := buf.readWord 32 8
  pMemsz := buf.readWord 40 8

def readElf64Header (reader : File ByteMemory) :
    Checked (Except FileError Elf64Header × File ByteMemory) := do
  let outcome ← vfsReadExact reader elf64HeaderSize
  .ok (outcome.result.map fun _ => parseHeader outcome.buf, outcome.file)

def readProgramHeader (reader : File ByteMemory) :
    Checked (Except FileError Elf64ProgramHeader × File ByteMemory) := do
  let outcome ← vfsReadExact reader elf64ProgramHeaderSize
  .ok (outcome.result.map fun _ => parseProgramHeader outcome.buf, outcome.file)

/-- The loop of `read_program_headers`. -/
def readHeaderLoop : Nat → File ByteMemory → List Elf64ProgramHeader →
    Checked (Except FileError (List Elf64ProgramHeader) × File ByteMemory)
  | 0, reader, result => .ok (.ok result, reader)
  | remaining + 1, reader, result => do
      let (phdr, reader) ← readProgramHeader reader
      match phdr with
      | .error error => .ok (.error error, reader)
      | .ok phdr => readHeaderLoop remaining reader (result ++ [phdr])

def readProgramHeaders (reader : File ByteMemory) (header : Elf64Header) :
    Checked (Except FileError (List Elf64ProgramHeader) × File ByteMemory) :=
  readHeaderLoop header.ePhnum (seekStart reader header.ePhoff) []

def programHeaderAt (bytes : ByteMemory) (position : Nat) : Elf64ProgramHeader :=
  parseProgramHeader fun index => bytes (position + index)

def programHeaders (bytes : ByteMemory) : Nat → Nat → List Elf64ProgramHeader
  | _, 0 => []
  | position, count + 1 =>
      programHeaderAt bytes position ::
        programHeaders bytes (position + elf64ProgramHeaderSize) count

variable {reader : File ByteMemory}

theorem readElf64Header_of_le (fits : reader.offset + elf64HeaderSize ≤ reader.inode.len) :
    readElf64Header reader = .ok
      (.ok (parseHeader fun index => reader.inode.fsData (reader.offset + index)),
        { reader with offset := reader.offset + elf64HeaderSize }) := by
  unfold readElf64Header
  rw [vfsReadExact_of_le fits, ok_bind]
  rfl

theorem readElf64Header_of_lt (inside : reader.offset ≤ reader.inode.len)
    (short : reader.inode.len < reader.offset + elf64HeaderSize) :
    ∃ after, readElf64Header reader = .ok (.error .unexpectedEof, after) := by
  obtain ⟨outcome, ran, -, resultEq⟩ := vfsReadExact_of_lt inside short
  unfold readElf64Header
  rw [ran, ok_bind, resultEq]
  exact ⟨outcome.file, rfl⟩

theorem readProgramHeader_of_le
    (fits : reader.offset + elf64ProgramHeaderSize ≤ reader.inode.len) :
    readProgramHeader reader = .ok
      (.ok (programHeaderAt reader.inode.fsData reader.offset),
        { reader with offset := reader.offset + elf64ProgramHeaderSize }) := by
  unfold readProgramHeader
  rw [vfsReadExact_of_le fits, ok_bind]
  rfl

theorem readProgramHeader_of_lt (inside : reader.offset ≤ reader.inode.len)
    (short : reader.inode.len < reader.offset + elf64ProgramHeaderSize) :
    ∃ after, readProgramHeader reader = .ok (.error .unexpectedEof, after) := by
  obtain ⟨outcome, ran, -, resultEq⟩ := vfsReadExact_of_lt inside short
  unfold readProgramHeader
  rw [ran, ok_bind, resultEq]
  exact ⟨outcome.file, rfl⟩

theorem readHeaderLoop_of_le {remaining : Nat} {result : List Elf64ProgramHeader}
    (fits : reader.offset + remaining * elf64ProgramHeaderSize ≤ reader.inode.len) :
    readHeaderLoop remaining reader result = .ok
      (.ok (result ++ programHeaders reader.inode.fsData reader.offset remaining),
        { reader with offset := reader.offset + remaining * elf64ProgramHeaderSize }) := by
  induction remaining generalizing reader result with
  | zero =>
    rw [readHeaderLoop, programHeaders, List.append_nil, Nat.zero_mul]
    rfl
  | succ remaining ih =>
    rw [Nat.succ_mul] at fits
    rw [readHeaderLoop, readProgramHeader_of_le (by omega), ok_bind]
    dsimp only
    rw [@ih { reader with offset := reader.offset + elf64ProgramHeaderSize } _
      (by dsimp only; omega)]
    rw [programHeaders, List.append_assoc, List.singleton_append, Nat.succ_mul, Nat.add_assoc,
      Nat.add_comm elf64ProgramHeaderSize]

theorem readHeaderLoop_of_lt {remaining : Nat} {result : List Elf64ProgramHeader}
    (inside : reader.offset ≤ reader.inode.len)
    (short : reader.inode.len < reader.offset + remaining * elf64ProgramHeaderSize) :
    ∃ after, readHeaderLoop remaining reader result = .ok (.error .unexpectedEof, after) := by
  induction remaining generalizing reader result with
  | zero => omega
  | succ remaining ih =>
    rw [Nat.succ_mul] at short
    by_cases fits : reader.offset + elf64ProgramHeaderSize ≤ reader.inode.len
    · rw [readHeaderLoop, readProgramHeader_of_le fits, ok_bind]
      exact @ih { reader with offset := reader.offset + elf64ProgramHeaderSize } _ fits
        (by dsimp only; omega)
    · obtain ⟨after, ran⟩ := readProgramHeader_of_lt inside (Nat.lt_of_not_le fits)
      rw [readHeaderLoop, ran, ok_bind]
      exact ⟨after, rfl⟩

end NanoOs.ReadElf
