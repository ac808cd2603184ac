import NanoOs.ByteMemory

/-!
# Open files

Inodes and file handles, for any data that a file system keeps in an inode, and
the names along a path.
-/

namespace NanoOs.Files

open List

inductive FileError
  | unexpectedEof
  | invalidUtf8
  | invalidInput
  | notADirectory
  | notFound
  deriving Repr, DecidableEq

inductive FileType
  | regularFile
  | directory
  | charDevice
  | blockDevice
  deriving Repr, DecidableEq

structure Inode (Data : Type) where
  ino : Nat
  fileType : FileType
  len : Nat
  fsData : Data

structure File (Data : Type) where
  offset : Nat
  inode : Inode Data

/-- What a read leaves: the file, the bytes of the buffer, and how many bytes
were read. -/
structure ReadOutcome (Data : Type) where
  file : File Data
  buf : ByteMemory
  result : Except FileError Nat

/-- `path.split('/').filter(|s| !s.is_empty())`. -/
def components (path : String) : List String :=
  ((path.toList.splitOn '/').map String.ofList).filter fun name => !name.isEmpty

theorem components_append (path rest : String) :
    components (path ++ "/" ++ rest) = components path ++ components rest := by
  have chars : (path ++ "/" ++ rest).toList = path.toList ++ '/' :: rest.toList := by simp
  rw [components, chars, splitOn_append_cons_self, map_append, filter_append]
  rfl

theorem not_mem_of_mem_splitOn {Item : Type} [BEq Item] [LawfulBEq Item] {separator : Item}
    {items piece : List Item} (split : piece ∈ items.splitOn separator) : separator ∉ piece := by
  induction items generalizing piece with
  | nil =>
    rw [splitOn_nil, mem_singleton] at split
    simp [split]
  | cons item items ih =>
    rw [splitOn_cons_eq_if_modifyHead] at split
    by_cases same : (item == separator) = true
    · rw [if_pos same] at split
      rcases mem_cons.mp split with rfl | inRest
      · exact not_mem_nil
      · exact ih inRest
    · obtain ⟨first, others, parts⟩ :=
        exists_cons_of_ne_nil (splitOn_ne_nil separator items)
      rw [if_neg same, parts, modifyHead_cons] at split
      rw [parts] at ih
      rcases mem_cons.mp split with rfl | inRest
      · have apart := ih mem_cons_self
        rw [beq_iff_eq] at same
        simp [apart, Ne.symm same]
      · exact ih (mem_cons_of_mem first inRest)

theorem components_of_mem {path name : String} (inPath : name ∈ components path) :
    components name = [name] := by
  obtain ⟨inPieces, notEmpty⟩ := mem_filter.mp inPath
  obtain ⟨piece, isPiece, rfl⟩ := mem_map.mp inPieces
  rw [components, String.toList_ofList,
    splitOn_eq_singleton (not_mem_of_mem_splitOn isPiece), map_singleton]
  simpa using notEmpty

/-- The first names along a path are the names along some path. -/
theorem exists_components_eq {path : String} {names : List String}
    (first : names <+: components path) : ∃ parent, components parent = names := by
  have inPath : ∀ name ∈ names, name ∈ components path := fun _ inNames => first.subset inNames
  clear first
  induction names with
  | nil => exact ⟨"", rfl⟩
  | cons name names ih =>
    obtain ⟨rest, isRest⟩ := ih fun other inNames =>
      inPath other (mem_cons_of_mem name inNames)
    refine ⟨name ++ "/" ++ rest, ?_⟩
    rw [components_append, isRest, components_of_mem (inPath name mem_cons_self)]
    rfl

/-- The path of the directory above, which is not below the path. -/
theorem exists_parent {path name : String} {names : List String}
    (split : components path = names ++ [name]) :
    ∃ parent, components parent = names ∧ ¬ components path <+: components parent := by
  obtain ⟨parent, isParent⟩ : ∃ parent, components parent = names :=
    exists_components_eq (split ▸ prefix_append names [name])
  refine ⟨parent, isParent, fun inside => ?_⟩
  have shorter := inside.length_le
  rw [split, isParent, length_append, length_singleton] at shorter
  omega

end NanoOs.Files
