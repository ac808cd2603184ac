import NanoOs.UserCopyBytes

/-!
# Strings in user memory

`copy_in_str` validates every page of a string by itself. It returns the string
before the first zero, unless a page boundary splits one of its characters.
-/

namespace NanoOs.UserAccess

open PageMapping List

section Utf8

variable {first second bytes : List UInt8}

/-- The bytes are the encoding of a list of characters. -/
def Utf8 (bytes : List UInt8) : Prop := (ByteArray.mk bytes.toArray).IsValidUTF8

theorem utf8_nil : Utf8 [] := ByteArray.isValidUTF8_empty

/-- Behind valid bytes only valid bytes may follow. -/
theorem utf8_append_iff (valid : Utf8 first) : Utf8 (first ++ second) ↔ Utf8 second := by
  have joined : ByteArray.mk (first ++ second).toArray =
      ByteArray.mk first.toArray ++ ByteArray.mk second.toArray := by
    ext1
    simp
  obtain ⟨characters, encoded⟩ := valid
  rw [Utf8, joined, encoded]
  clear joined encoded
  induction characters with
  | nil => rw [utf8Encode_nil, ByteArray.empty_append, Utf8]
  | cons character characters ih =>
    rw [utf8Encode_cons, ByteArray.append_assoc,
      ByteArray.isValidUTF8_utf8Encode_singleton_append_iff]
    exact ih

theorem fromUtf8_of_utf8 (valid : Utf8 bytes) : fromUtf8 bytes = .ok bytes :=
  if_pos (ByteArray.validateUTF8_eq_true_iff.mpr valid)

theorem fromUtf8_of_not_utf8 (invalid : ¬ Utf8 bytes) : fromUtf8 bytes = .error () :=
  if_neg fun valid => invalid (ByteArray.validateUTF8_eq_true_iff.mp valid)

end Utf8

section Strings

variable {pageMap : PageMapper} {memory : ByteMemory} {userPtr limit : Nat}
  {text chunk rest : List UInt8}

/-- The text before the first zero behind an address, at most so far. -/
structure TextAt (pageMap : PageMapper) (memory : ByteMemory) (userPtr limit : Nat)
    (text : List UInt8) : Prop where
  short : text.length < limit
  fits : userPtr + text.length < 2 ^ 64
  bytes : ∀ index < text.length, userByte pageMap memory (userPtr + index) = text[index]?
  nonzero : 0 ∉ text
  zero : userByte pageMap memory (userPtr + text.length) = some 0

/-- The first zero is not on a page without a zero. -/
theorem TextAt.length_le (isText : TextAt pageMap memory userPtr limit text)
    (bytes : ∀ index < chunk.length, userByte pageMap memory (userPtr + index) = chunk[index]?)
    (nonzero : 0 ∉ chunk) : chunk.length ≤ text.length := by
  by_contra early
  have zero := isText.zero
  rw [bytes text.length (by omega)] at zero
  exact nonzero (mem_of_getElem? zero)

theorem TextAt.translates (isText : TextAt pageMap memory userPtr limit text) :
    Translates pageMap memory userPtr (text.length + 1) := by
  intro index inRange
  have isByte : (userByte pageMap memory (userPtr + index)).isSome := by
    rcases Nat.lt_or_eq_of_le (Nat.le_of_lt_succ inRange) with inText | rfl
    · rw [isText.bytes index inText, isSome_getElem?]
      exact inText
    · rw [isText.zero]
      rfl
  rw [userByte, Option.isSome_map] at isByte
  exact Option.isSome_iff_exists.mp isByte

theorem TextAt.unique {other : List UInt8} (isText : TextAt pageMap memory userPtr limit text)
    (isOther : TextAt pageMap memory userPtr limit other) : text = other := by
  have sameLength : text.length = other.length :=
    Nat.le_antisymm (isOther.length_le isText.bytes isText.nonzero)
      (isText.length_le isOther.bytes isOther.nonzero)
  apply ext_getElem? fun index => ?_
  by_cases inText : index < text.length
  · rw [← isText.bytes index inText, ← isOther.bytes index (sameLength ▸ inText)]
  · rw [getElem?_eq_none (by omega), getElem?_eq_none (by omega)]

theorem textAt_append_iff
    (bytes : ∀ index < chunk.length, userByte pageMap memory (userPtr + index) = chunk[index]?)
    (nonzero : 0 ∉ chunk) :
    TextAt pageMap memory userPtr limit (chunk ++ rest) ↔
      TextAt pageMap memory (userPtr + chunk.length) (limit - chunk.length) rest := by
  have later : ∀ index, (chunk ++ rest)[chunk.length + index]? = rest[index]? := fun index => by
    rw [getElem?_append_right (Nat.le_add_right ..), Nat.add_sub_cancel_left]
  constructor
  · rintro ⟨short, fits, allBytes, noZero, zero⟩
    rw [length_append] at short fits zero allBytes
    refine ⟨by omega, by omega, fun index inRest => ?_, ?_, by rwa [Nat.add_assoc]⟩
    · rw [Nat.add_assoc, allBytes _ (by omega), later]
    · exact fun isZero => noZero (mem_append_right _ isZero)
  · rintro ⟨short, fits, restBytes, noZero, zero⟩
    refine ⟨?_, ?_, fun index inText => ?_, ?_, ?_⟩
    · rw [length_append]
      omega
    · rwa [length_append, ← Nat.add_assoc]
    · rw [length_append] at inText
      by_cases inChunk : index < chunk.length
      · rw [bytes index inChunk, getElem?_append_left inChunk]
      · obtain ⟨position, rfl⟩ := Nat.exists_eq_add_of_le (Nat.not_lt.mp inChunk)
        rw [later, ← Nat.add_assoc, restBytes position (by omega)]
    · rw [mem_append]
      exact fun isZero => isZero.elim nonzero noZero
    · rwa [length_append, ← Nat.add_assoc]

theorem TextAt.through (isText : TextAt pageMap memory userPtr limit text)
    (bytes : ∀ index < chunk.length, userByte pageMap memory (userPtr + index) = chunk[index]?)
    (nonzero : 0 ∉ chunk) : ∃ rest, text = chunk ++ rest := by
  have long := isText.length_le bytes nonzero
  have agree : text.take chunk.length = chunk := by
    apply ext_getElem? fun index => ?_
    by_cases inChunk : index < chunk.length
    · rw [getElem?_take_of_lt inChunk, ← isText.bytes index (by omega), bytes index inChunk]
    · rw [getElem?_eq_none (by rw [length_take]; omega),
        getElem?_eq_none (Nat.not_lt.mp inChunk)]
  refine ⟨text.drop chunk.length, ?_⟩
  rw [← agree, length_take, Nat.min_eq_left long, take_append_drop]

/-- No character of the text is split by a page boundary. -/
def Unsplit (userPtr : Nat) (text : List UInt8) : Prop :=
  ∀ index ≤ text.length, (userPtr + index) % 4096 = 0 → Utf8 (text.take index)

theorem unsplit_of_short (short : text.length < pageRest userPtr) : Unsplit userPtr text := by
  intro index inText boundary
  rw [pageRest_eq] at short
  have isStart : index = 0 := by omega
  subst isStart
  exact utf8_nil

theorem unsplit_append_iff (wholePage : chunk.length = pageRest userPtr) :
    Utf8 (chunk ++ rest) ∧ Unsplit userPtr (chunk ++ rest) ↔
      Utf8 chunk ∧ Utf8 rest ∧ Unsplit (userPtr + chunk.length) rest := by
  have atEnd := pageRest_eq userPtr
  constructor
  · rintro ⟨valid, unsplit⟩
    have first := unsplit chunk.length (by simp) (by omega)
    rw [take_left] at first
    refine ⟨first, (utf8_append_iff first).mp valid, fun index inRest boundary => ?_⟩
    have later := unsplit (chunk.length + index) (by simpa using inRest) (by rwa [← Nat.add_assoc])
    rw [take_length_add_append] at later
    exact (utf8_append_iff first).mp later
  · rintro ⟨first, valid, unsplit⟩
    refine ⟨(utf8_append_iff first).mpr valid, fun index inText boundary => ?_⟩
    by_cases early : index < chunk.length
    · have isStart : index = 0 := by omega
      subst isStart
      exact utf8_nil
    · obtain ⟨position, rfl⟩ := Nat.exists_eq_add_of_le (Nat.not_lt.mp early)
      rw [take_length_add_append, utf8_append_iff first]
      exact unsplit position (by simpa using inText) (by rwa [Nat.add_assoc])

/-- A text that `copy_in_str` can read. -/
def Readable (pageMap : PageMapper) (memory : ByteMemory) (userPtr limit : Nat)
    (text : List UInt8) : Prop :=
  TextAt pageMap memory userPtr limit text ∧ Utf8 text ∧ Unsplit userPtr text

/-- The turn of the loop for a page without a zero. -/
theorem readable_iff (pageOrLimit : chunk.length = min limit (pageRest userPtr))
    (bytes : ∀ index < chunk.length, userByte pageMap memory (userPtr + index) = chunk[index]?)
    (nonzero : 0 ∉ chunk) :
    Readable pageMap memory userPtr limit text ↔ Utf8 chunk ∧ ∃ rest, text = chunk ++ rest ∧
      Readable pageMap memory (userPtr + chunk.length) (limit - chunk.length) rest := by
  -- The zero comes behind the chunk, so the chunk ends with its page.
  have wholePage (rest : List UInt8)
      (isRest : TextAt pageMap memory (userPtr + chunk.length) (limit - chunk.length) rest) :
      chunk.length = pageRest userPtr := by
    have short := isRest.short
    omega
  constructor
  · rintro ⟨isText, valid⟩
    obtain ⟨rest, rfl⟩ := isText.through bytes nonzero
    have isRest := (textAt_append_iff bytes nonzero).mp isText
    obtain ⟨first, restValid⟩ := (unsplit_append_iff (wholePage rest isRest)).mp valid
    exact ⟨first, rest, rfl, isRest, restValid⟩
  · rintro ⟨first, rest, rfl, isRest, restValid⟩
    exact ⟨(textAt_append_iff bytes nonzero).mpr isRest,
      (unsplit_append_iff (wholePage rest isRest)).mpr ⟨first, restValid⟩⟩

theorem readable_last_iff {last : List UInt8} (isText : TextAt pageMap memory userPtr limit last)
    (short : last.length < pageRest userPtr) :
    Readable pageMap memory userPtr limit text ↔ Utf8 last ∧ text = last := by
  constructor
  · rintro ⟨isOther, valid, -⟩
    obtain rfl := isText.unique isOther
    exact ⟨valid, rfl⟩
  · rintro ⟨valid, rfl⟩
    exact ⟨isText, valid, unsplit_of_short short⟩

end Strings

section Loop

variable {pageMap : PageMapper} {memory : ByteMemory} {userPtr phys size : Nat}

/-- The bytes that the loop of `copy_in_str` takes as one slice. -/
def slice (memory : ByteMemory) (phys size : Nat) : List UInt8 :=
  (List.range size).map fun index => memory (phys + index)

theorem length_slice : (slice memory phys size).length = size := by
  rw [slice, length_map, length_range]

theorem findIdx?_zero_eq_none_iff {bytes : List UInt8} :
    bytes.findIdx? (· == 0) = none ↔ 0 ∉ bytes := by
  rw [findIdx?_eq_none_iff]
  constructor
  · intro nonzero isZero
    cases nonzero 0 isZero
  · intro noZero byte mem
    rw [beq_eq_false_iff_ne]
    exact fun isZero => noZero (isZero ▸ mem)

theorem slice_bytes (found : pageMap.virtToPhys memory userPtr = some phys)
    (inPage : size ≤ pageRest userPtr) : ∀ index < (slice memory phys size).length,
      userByte pageMap memory (userPtr + index) = (slice memory phys size)[index]? := by
  intro index inSlice
  rw [length_slice] at inSlice
  rw [userByte, virtToPhys_chunk found (by omega), slice, getElem?_map,
    getElem?_range inSlice]
  rfl

theorem textAt_take {limit nullPos : Nat} (inWord : userPtr < 2 ^ 64)
    (found : pageMap.virtToPhys memory userPtr = some phys) (inPage : size ≤ pageRest userPtr)
    (inLimit : size ≤ limit)
    (isNull : (slice memory phys size).findIdx? (· == 0) = some nullPos) :
    TextAt pageMap memory userPtr limit ((slice memory phys size).take nullPos) ∧
      ((slice memory phys size).take nullPos).length < pageRest userPtr := by
  have bytes := slice_bytes found inPage
  obtain ⟨inSlice, isZero, earlier⟩ := findIdx?_eq_some_iff_getElem.mp isNull
  have positions := inSlice
  rw [length_slice] at positions
  have long : ((slice memory phys size).take nullPos).length = nullPos := by
    rw [length_take, Nat.min_eq_left inSlice.le]
  have rest := pageRest_eq userPtr
  refine ⟨⟨by omega, by omega, fun index inText => ?_, fun mem => ?_, ?_⟩, by omega⟩
  · rw [long] at inText
    rw [getElem?_take_of_lt inText, bytes index (by omega)]
  · obtain ⟨index, inText, byte⟩ := getElem_of_mem mem
    rw [long] at inText
    refine earlier index inText ?_
    rw [getElem_take] at byte
    rw [byte]
    rfl
  · rw [long, bytes nullPos inSlice, getElem?_eq_getElem inSlice, beq_iff_eq.mp isZero]

theorem after_ok_iff {Value : Type} (access : Access) {result : Checked (CopyOutcome Value)}
    {value : Value} :
    (∃ accesses, (do
        let rest ← result
        .ok (rest.after access)) = (.ok ⟨accesses, .ok value⟩ : Checked (CopyOutcome Value))) ↔
      ∃ accesses, result = .ok ⟨accesses, .ok value⟩ := by
  constructor
  · rintro ⟨accesses, returned⟩
    obtain ⟨⟨earlier, outcome⟩, rfl, same⟩ := bind_eq_ok.mp returned
    cases same
    exact ⟨earlier, rfl⟩
  · rintro ⟨accesses, rfl⟩
    exact ⟨_, rfl⟩

/-- The loop returns the text before the first zero, if every page of it is valid. -/
theorem copyInStrLoop_ok_iff {maxLen fuel scanned : Nat} {result returned : List UInt8}
    (inWord : userPtr < 2 ^ 64) (enough : maxLen - scanned < fuel) :
    (∃ accesses, copyInStrLoop pageMap memory maxLen fuel userPtr scanned result =
        .ok ⟨accesses, .ok returned⟩) ↔
      ∃ text, returned = result ++ text ∧
        Readable pageMap memory userPtr (maxLen - scanned) text := by
  induction fuel generalizing userPtr scanned result with
  | zero => omega
  | succ fuel ih =>
    rw [copyInStrLoop]
    by_cases more : scanned < maxLen
    · rw [if_pos more]
      obtain ⟨size, sizeEq⟩ : ∃ size, size = min (maxLen - scanned) (pageRest userPtr) := ⟨_, rfl⟩
      have positive := pageRest_pos userPtr
      cases found : pageMap.virtToPhys memory userPtr with
      | none =>
        refine iff_of_false ?_ ?_
        · rintro ⟨_, returns⟩
          cases returns
        · rintro ⟨text, -, isText, -⟩
          obtain ⟨phys, mapped⟩ := isText.translates 0 (Nat.succ_pos _)
          cases found.symm.trans mapped
      | some phys =>
        have folded : (range size).map (fun index => memory (phys + index)) =
          slice memory phys size := rfl
        have bytes := slice_bytes found (by omega : size ≤ pageRest userPtr)
        dsimp only
        rw [← sizeEq, folded]
        cases isNull : (slice memory phys size).findIdx? (· == 0) with
        | some nullPos =>
          obtain ⟨isText, short⟩ :=
            textAt_take inWord found (by omega) (by omega : size ≤ maxLen - scanned) isNull
          simp only [readable_last_iff isText short]
          by_cases valid : Utf8 ((slice memory phys size).take nullPos)
          · simp [fromUtf8_of_utf8 valid, valid, Except.map, eq_comm]
          · simp [fromUtf8_of_not_utf8 valid, valid, Except.map]
        | none =>
          have nonzero := findIdx?_zero_eq_none_iff.mp isNull
          simp only [readable_iff (length_slice.trans sizeEq) bytes nonzero]
          by_cases valid : Utf8 (slice memory phys size)
          · -- A chunk without the zero is valid by itself, and the rest is on later pages.
            rw [fromUtf8_of_utf8 valid]
            dsimp only
            rw [checkedAdd, length_slice]
            by_cases fits : userPtr + size < wordLimit
            · rw [if_pos fits, ok_bind, after_ok_iff, ih fits (by omega), Nat.sub_add_eq]
              constructor
              · rintro ⟨rest, rfl, readable⟩
                exact ⟨_, append_assoc .., valid, rest, rfl, readable⟩
              · rintro ⟨text, rfl, -, rest, rfl, readable⟩
                exact ⟨rest, (append_assoc ..).symm, readable⟩
            · rw [if_neg fits]
              refine iff_of_false ?_ ?_
              · rintro ⟨_, returns⟩
                cases returns
              · rintro ⟨text, -, -, rest, -, isRest, -⟩
                have inside := isRest.fits
                unfold wordLimit at fits
                omega
          · simp [fromUtf8_of_not_utf8 valid, valid]
    · rw [if_neg more]
      refine iff_of_false ?_ ?_
      · rintro ⟨_, returns⟩
        cases returns
      · rintro ⟨text, -, isText, -⟩
        have short := isText.short
        omega

theorem copyInStr_ok_iff {userAddr maxLen : Nat} {text : List UInt8} (inWord : userAddr < 2 ^ 64) :
    (∃ accesses, copyInStr pageMap memory userAddr maxLen = .ok ⟨accesses, .ok text⟩) ↔
      Readable pageMap memory userAddr maxLen text := by
  rw [copyInStr, copyInStrLoop_ok_iff inWord (by omega)]
  simp

/-- The loop returns, or comes to the end of the address space within the limit. -/
theorem copyInStrLoop_touches {maxLen fuel scanned : Nat} {result : List UInt8}
    (inWord : userPtr < 2 ^ 64) (enough : maxLen - scanned < fuel) :
    (∃ outcome, copyInStrLoop pageMap memory maxLen fuel userPtr scanned result = .ok outcome ∧
      Touches pageMap memory userPtr outcome.accesses) ∨
    Translates pageMap memory userPtr (2 ^ 64 - userPtr) ∧
      2 ^ 64 ≤ userPtr + (maxLen - scanned) := by
  induction fuel generalizing userPtr scanned result with
  | zero => omega
  | succ fuel ih =>
    rw [copyInStrLoop]
    by_cases more : scanned < maxLen
    · rw [if_pos more]
      have positive := pageRest_pos userPtr
      obtain ⟨size, sizeEq⟩ : ∃ size, size = min (maxLen - scanned) (pageRest userPtr) := ⟨_, rfl⟩
      cases found : pageMap.virtToPhys memory userPtr with
      | none => exact .inl ⟨_, rfl, nofun⟩
      | some phys =>
        have chunk : ∀ index < size,
            pageMap.virtToPhys memory (userPtr + index) = some (phys + index) :=
          fun index inChunk => virtToPhys_chunk found (by omega)
        dsimp only
        rw [← sizeEq]
        split
        case _ nullPos isNull =>
          obtain ⟨inSlice, -⟩ := findIdx?_eq_some_iff_getElem.mp isNull
          rw [length_map, length_range] at inSlice
          exact .inl ⟨_, rfl, .chunk (fun index early => chunk index (by omega)) nofun⟩
        · split
          · exact .inl ⟨_, rfl, .chunk chunk nofun⟩
          · by_cases fits : userPtr + size < 2 ^ 64
            · rw [checkedAdd_bind fits]
              rcases @ih (userPtr + size) (scanned + size) _ fits (by omega) with
                ⟨outcome, returned, touched⟩ | ⟨translates, reaches⟩
              · rw [returned]
                exact .inl ⟨_, rfl, touched.chunk chunk⟩
              · exact .inr ⟨translates.chunk_end fits chunk, by omega⟩
            · exact .inr ⟨fun index inRange => ⟨_, chunk index (by omega)⟩, by omega⟩
    · rw [if_neg more]
      exact .inl ⟨_, rfl, nofun⟩

theorem copyInStr_touches (pageMap : PageMapper) (memory : ByteMemory) {userAddr : Nat}
    (maxLen : Nat) (inWord : userAddr < 2 ^ 64) :
    (∃ outcome, copyInStr pageMap memory userAddr maxLen = .ok outcome ∧
      Touches pageMap memory userAddr outcome.accesses) ∨
    Translates pageMap memory userAddr (2 ^ 64 - userAddr) ∧ 2 ^ 64 ≤ userAddr + maxLen :=
  copyInStrLoop_touches inWord (Nat.lt_succ_self _)

/-- The end of the address space comes within the limit and before the zero, on a page
that is mapped and valid. -/
def RunsOut (pageMap : PageMapper) (memory : ByteMemory) (userAddr maxLen : Nat) : Prop :=
  2 ^ 64 ≤ userAddr + maxLen ∧ ∃ phys, pageMap.virtToPhys memory userAddr = some phys ∧
    0 ∉ slice memory phys (2 ^ 64 - userAddr) ∧ Utf8 (slice memory phys (2 ^ 64 - userAddr))

theorem copyInStr_returns_iff {userAddr maxLen : Nat} (inWord : userAddr < 2 ^ 64)
    (small : maxLen ≤ 4096) :
    (∃ outcome, copyInStr pageMap memory userAddr maxLen = .ok outcome) ↔
      ¬ RunsOut pageMap memory userAddr maxLen := by
  by_cases inside : userAddr + maxLen < 2 ^ 64
  · rcases copyInStr_touches pageMap memory maxLen inWord with ⟨outcome, ran, -⟩ | ⟨-, reaches⟩
    · exact iff_of_true ⟨outcome, ran⟩ fun out => by
        have reaches := out.1
        omega
    · omega
  · have last : min (maxLen - 0) (pageRest userAddr) = 2 ^ 64 - userAddr := by
      rw [pageRest_eq]
      omega
    have folded (phys : Nat) :
        (range (2 ^ 64 - userAddr)).map (fun index => memory (phys + index)) =
          slice memory phys (2 ^ 64 - userAddr) := rfl
    unfold RunsOut
    rw [copyInStr, copyInStrLoop, if_pos (by omega), last]
    cases pageMap.virtToPhys memory userAddr with
    | none => simp
    | some phys =>
      dsimp only
      rw [folded]
      cases isNull : (slice memory phys (2 ^ 64 - userAddr)).findIdx? (· == 0) with
      | some nullPos =>
        have isZero : 0 ∈ slice memory phys (2 ^ 64 - userAddr) := by
          by_contra nonzero
          rw [findIdx?_zero_eq_none_iff.mpr nonzero] at isNull
          cases isNull
        refine iff_of_true ⟨_, rfl⟩ ?_
        rintro ⟨-, other, same, nonzero, -⟩
        cases same
        exact nonzero isZero
      | none =>
        have nonzero := findIdx?_zero_eq_none_iff.mp isNull
        by_cases valid : Utf8 (slice memory phys (2 ^ 64 - userAddr))
        · rw [fromUtf8_of_utf8 valid]
          rw [checkedAdd, if_neg (by unfold wordLimit; omega)]
          refine iff_of_false ?_ (not_not.mpr ⟨by omega, phys, rfl, nonzero, valid⟩)
          rintro ⟨_, returned⟩
          cases returned
        · rw [fromUtf8_of_not_utf8 valid]
          refine iff_of_true ⟨_, rfl⟩ ?_
          rintro ⟨-, other, same, -, alsoValid⟩
          cases same
          exact valid alsoValid

end Loop

/-- What `copy_in_str` is for: the valid text before the first zero. -/
def IsString (pageMap : PageMapper) (memory : ByteMemory) (userAddr maxLen : Nat)
    (text : List UInt8) : Prop :=
  TextAt pageMap memory userAddr maxLen text ∧ Utf8 text

/-- `copy_in_str` returns exactly the valid texts before the first zero, if and only if
no page boundary is inside a character of such a text. -/
theorem copyInStr_returns_strings_iff {pageMap : PageMapper} {memory : ByteMemory}
    {userAddr maxLen : Nat} (inWord : userAddr < 2 ^ 64) :
    (∀ text, (∃ accesses, copyInStr pageMap memory userAddr maxLen =
        .ok ⟨accesses, .ok text⟩) ↔ IsString pageMap memory userAddr maxLen text) ↔
      ∀ text, IsString pageMap memory userAddr maxLen text → Unsplit userAddr text := by
  simp only [copyInStr_ok_iff inWord]
  constructor
  · intro same text isString
    exact ((same text).mpr isString).2.2
  · intro unsplit text
    exact ⟨fun readable => ⟨readable.1, readable.2.1⟩, fun isString =>
      ⟨isString.1, isString.2, unsplit text isString⟩⟩

/-- A gigabyte with three bytes around the end of a page. -/
def textMap (first second third : UInt8) : ByteMemory := fun location =>
  if location = 0x80000fff then first
  else if location = 0x80001000 then second
  else if location = 0x80001001 then third
  else gigabyteMap location

theorem textMap_letters : TextAt ⟨0x1000⟩ (textMap 0x61 0x62 0) 0x80000fff 16 [0x61, 0x62] :=
  ⟨by decide, by decide, by decide +kernel, by decide, by decide +kernel⟩

theorem textMap_letters_returned :
    (∃ accesses, copyInStr ⟨0x1000⟩ (textMap 0x61 0x62 0) 0x80000fff 16 =
      .ok ⟨accesses, .ok [0x61, 0x62]⟩) ↔
    IsString ⟨0x1000⟩ (textMap 0x61 0x62 0) 0x80000fff 16 [0x61, 0x62] := by
  refine (copyInStr_returns_strings_iff (by decide)).mpr (fun text isString => ?_) [0x61, 0x62]
  obtain rfl := textMap_letters.unique isString.1
  have letters : ∀ index ≤ 2, (ByteArray.mk ([0x61, 0x62].take index).toArray).validateUTF8 := by
    decide +kernel
  exact fun index inText _ => ByteArray.validateUTF8_eq_true_iff.mp (letters index inText)

/-- A character of two bytes, the first of them the last of a page. -/
theorem textMap_split : IsString ⟨0x1000⟩ (textMap 0xc3 0xa9 0) 0x80000fff 16 [0xc3, 0xa9] ∧
    (copyInStr ⟨0x1000⟩ (textMap 0xc3 0xa9 0) 0x80000fff 16).map (fun outcome => outcome.result) =
      .ok (.error ()) := by
  refine ⟨⟨⟨by decide, by decide, by decide +kernel, by decide, by decide +kernel⟩, ?_⟩, ?_⟩
  · exact ⟨['é'], by decide +kernel⟩
  · decide +kernel

end NanoOs.UserAccess
