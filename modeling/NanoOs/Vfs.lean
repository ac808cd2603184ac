import NanoOs.Files
import NanoOs.CheckedArithmetic

/-!
# Reading files of the RAM file system

A file of the initial RAM file system holds its bytes in memory, and
`vfs_read_exact` reads until its buffer is full.
-/

namespace NanoOs.Files

/-- `FileOps::seek` to a position from the start. -/
def seekStart {Data : Type} (file : File Data) (position : Nat) : File Data :=
  { file with offset := min position file.inode.len }

/-- `read` of the RAM file system, into a part of a buffer. -/
def ramfsRead (file : File ByteMemory) (buf : ByteMemory) (start count : Nat) :
    Checked (ReadOutcome ByteMemory) := do
  ensure (file.offset ≤ file.inode.len) "range start index out of range"
  let len := min (file.inode.len - file.offset) count
  .ok
    { file := { file with offset := file.offset + len }
      buf := buf.writeBytes start len fun index => file.inode.fsData (file.offset + index)
      result := .ok len }

/-- What `vfs_read_exact` leaves: the file, the buffer with how much of it was
filled, and the result. -/
structure ExactOutcome where
  file : File ByteMemory
  buf : ByteMemory
  filled : Nat
  result : Except FileError Unit

def vfsReadExactLoop : Nat → File ByteMemory → ByteMemory → Nat → Nat → Checked ExactOutcome
  | 0, _, _, _, _ => .error .diverged
  | fuel + 1, file, buf, filled, remaining =>
      if remaining = 0 then
        .ok ⟨file, buf, filled, .ok ()⟩
      else do
        let outcome ← ramfsRead file buf filled remaining
        match outcome.result with
        | .error error => .ok ⟨outcome.file, outcome.buf, filled, .error error⟩
        | .ok n =>
            if n = 0 then
              .ok ⟨outcome.file, outcome.buf, filled, .error .unexpectedEof⟩
            else
              vfsReadExactLoop fuel outcome.file outcome.buf (filled + n) (remaining - n)

def vfsReadExact (file : File ByteMemory) (count : Nat) : Checked ExactOutcome :=
  vfsReadExactLoop (count + 1) file (fun _ => 0) 0 count

variable {file : File ByteMemory} {count : Nat}

theorem vfsReadExactLoop_done (fuel : Nat) (buf : ByteMemory) (filled : Nat) :
    vfsReadExactLoop (fuel + 1) file buf filled 0 = .ok ⟨file, buf, filled, .ok ()⟩ := by
  rw [vfsReadExactLoop, if_pos rfl]

theorem vfsReadExactLoop_step (inside : file.offset ≤ file.inode.len) (fuel : Nat)
    (buf : ByteMemory) (filled remaining : Nat) (some : 0 < remaining) :
    vfsReadExactLoop (fuel + 1) file buf filled remaining =
      let len := min (file.inode.len - file.offset) remaining
      let buf := buf.writeBytes filled len fun index => file.inode.fsData (file.offset + index)
      let file := { file with offset := file.offset + len }
      if len = 0 then .ok ⟨file, buf, filled, .error .unexpectedEof⟩
      else vfsReadExactLoop fuel file buf (filled + len) (remaining - len) := by
  rw [vfsReadExactLoop, if_neg (by omega), ramfsRead, ensure_of_true inside]
  rfl

theorem vfsReadExact_of_le (fits : file.offset + count ≤ file.inode.len) :
    vfsReadExact file count = .ok
      ⟨{ file with offset := file.offset + count },
        ByteMemory.writeBytes (fun _ => 0) 0 count fun index =>
          file.inode.fsData (file.offset + index), count, .ok ()⟩ := by
  unfold vfsReadExact
  rcases Nat.eq_zero_or_pos count with rfl | positive
  · rw [vfsReadExactLoop_done]
    rfl
  · have len : min (file.inode.len - file.offset) count = count := by omega
    rw [vfsReadExactLoop_step (by omega) _ _ _ _ positive]
    rw [len, if_neg (by omega), Nat.sub_self]
    obtain ⟨fuel, rfl⟩ : ∃ fuel, count = fuel + 1 := ⟨count - 1, by omega⟩
    rw [vfsReadExactLoop_done, Nat.zero_add]

theorem vfsReadExact_of_lt (inside : file.offset ≤ file.inode.len)
    (short : file.inode.len < file.offset + count) :
    ∃ outcome, vfsReadExact file count = .ok outcome ∧
      outcome.filled = file.inode.len - file.offset ∧ outcome.result = .error .unexpectedEof := by
  have len : min (file.inode.len - file.offset) count = file.inode.len - file.offset := by omega
  unfold vfsReadExact
  rw [vfsReadExactLoop_step inside _ _ _ _ (by omega)]
  rw [len]
  by_cases isEnd : file.inode.len - file.offset = 0
  · rw [if_pos isEnd]
    exact ⟨_, rfl, isEnd.symm, rfl⟩
  · rw [if_neg isEnd]
    obtain ⟨fuel, rfl⟩ : ∃ fuel, count = fuel + 1 := ⟨count - 1, by omega⟩
    rw [vfsReadExactLoop_step (by dsimp only; omega) _ _ _ _ (by omega)]
    dsimp only
    rw [if_pos (by omega)]
    exact ⟨_, rfl, Nat.zero_add _, rfl⟩

end NanoOs.Files
