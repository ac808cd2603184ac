import NanoOs.BoundedVectors
import NanoOs.ByteMemory
import NanoOs.Memory

/-!
# The flattened device tree

The traversal of the structure block with a visitor, and the visitor that
collects the memory map.  The loops over memory are given a bound on their
iterations.
-/

namespace NanoOs.Dtb

open Memory

def fdtMagic : Nat := 0xd00dfeed
def fdtBeginNode : Nat := 1
def fdtEndNode : Nat := 2
def fdtProp : Nat := 3
def fdtNop : Nat := 4
def fdtEnd : Nat := 9

inductive DtbToken
  | beginNode
  | endNode
  | prop
  | nop
  | finish
  | unknown
  deriving Repr, DecidableEq

structure DtbContext where
  totalSize : Nat
  structPtr : Nat
  stringsPtr : Nat
  deriving Repr, DecidableEq

/-- A property: its name, and the address and the length of its data. -/
structure Property where
  name : List UInt8
  data : Nat
  length : Nat
  deriving Repr, DecidableEq

structure Event where
  token : DtbToken
  depth : Nat
  name : Option (List UInt8)
  property : Option Property
  deriving Repr, DecidableEq

def literal (text : String) : List UInt8 := text.toUTF8.toList

section Reading

variable (memory : ByteMemory)

def readBe (address : Nat) : Nat → Nat
  | 0 => 0
  | count + 1 => (memory address).toNat * 256 ^ count + readBe (address + 1) count

def readBe32 (address : Nat) : Nat := readBe memory address 4

def readBe64 (address : Nat) : Nat := readBe memory address 8

def slice (address length : Nat) : List UInt8 :=
  (List.range length).map fun index => memory (address + index)

def findNul : Nat → Nat → Checked Nat
  | 0, _ => .error .diverged
  | fuel + 1, address => if memory address ≠ 0 then findNul fuel (address + 1) else .ok address

def readStrz (bound address : Nat) : Checked (List UInt8 × Nat) := do
  let nul ← findNul memory bound address
  let raised ← checkedAdd (nul + 1) 3
  .ok (slice memory address (nul - address), raised &&& complement 3)

def parseDtb (dtb : Nat) : Checked DtbContext := do
  ensure (readBe32 memory dtb = fdtMagic) "Invalid DTB magic"
  .ok ⟨readBe32 memory (dtb + 4), dtb + readBe32 memory (dtb + 8),
    dtb + readBe32 memory (dtb + 12)⟩

section Traversal

variable {State : Type} (bound : Nat) (context : DtbContext)
  (visit : Event → State → Checked State)

/-- The property at an address, and the address after its data. -/
def readProperty (address : Nat) : Checked (Property × Nat) := do
  let length := readBe32 memory address
  let nameOffset := readBe32 memory (address + 4)
  let data := address + 8
  let raised ← checkedAdd length 3
  let name := context.stringsPtr + nameOffset
  let nul ← findNul memory bound name
  .ok (⟨slice memory name (nul - name), data, length⟩, data + (raised &&& complement 3))

/-- The loop of `traverse_dtb`. -/
def traverseFrom : Nat → Nat → Nat → State → Checked State
  | 0, _, _, _ => .error .diverged
  | fuel + 1, address, depth, state =>
      let tokenVal := readBe32 memory address
      let address := address + 4
      if tokenVal = fdtBeginNode then do
        let (name, address) ← readStrz memory bound address
        let state ← visit ⟨.beginNode, depth, some name, none⟩ state
        let depth ← checkedAdd depth 1
        traverseFrom fuel address depth state
      else if tokenVal = fdtEndNode then do
        let state ← visit ⟨.endNode, depth - 1, none, none⟩ state
        traverseFrom fuel address (depth - 1) state
      else if tokenVal = fdtProp then do
        let (property, address) ← readProperty memory bound context address
        let state ← visit ⟨.prop, depth, some [], some property⟩ state
        traverseFrom fuel address depth state
      else if tokenVal = fdtNop then do
        let state ← visit ⟨.nop, depth, none, none⟩ state
        traverseFrom fuel address depth state
      else if tokenVal = fdtEnd then
        visit ⟨.finish, depth, none, none⟩ state
      else do
        let state ← visit ⟨.unknown, depth, none, none⟩ state
        traverseFrom fuel address depth state

def traverseDtb (state : State) : Checked State :=
  traverseFrom memory bound context visit bound context.structPtr 0 state

end Traversal

end Reading

/-- The statics `INITRD_START` and `INITRD_END`. -/
structure Initrd where
  start : Nat
  stop : Nat
  deriving Repr, DecidableEq

/-- The variables of `collect_memory_map`, over a collection of ranges. -/
structure Collector (Ranges : Type) where
  reserved : Ranges
  memory : Option Region
  memoryActive : Bool
  reservedActive : Bool
  chosenActive : Bool
  initrdStart : Option Nat
  initrdEnd : Option Nat
  initrd : Initrd

namespace Collector

variable {Ranges : Type}

def new (reserved : Ranges) (initrd : Initrd) : Collector Ranges :=
  ⟨reserved, none, false, false, false, none, none, initrd⟩

def enter (collector : Collector Ranges) (name : List UInt8) : Collector Ranges :=
  if name = literal "reserved-memory" then
    { collector with reservedActive := true }
  else if name = literal "chosen" then
    { collector with chosenActive := true }
  else if (literal "memory@").isPrefixOf name then
    { collector with memoryActive := true }
  else
    collector

def leave (collector : Collector Ranges) : Collector Ranges :=
  { collector with memoryActive := false, reservedActive := false }

section Properties

variable (push : Ranges → Region → Ranges) (bytes : ByteMemory)

/-- The `reg` of the memory node. -/
def takeMemory (collector : Collector Ranges) (data : Nat) : Checked (Collector Ranges) := do
  let start := readBe64 bytes data
  let stop ← checkedAdd start (readBe64 bytes (data + 8))
  .ok { collector with memory := some ⟨start, stop⟩ }

def takeReserved (collector : Collector Ranges) (data : Nat) : Checked (Collector Ranges) := do
  let start := readBe64 bytes data
  let alignedStart := alignDown start
  let stop ← checkedAdd start (readBe64 bytes (data + 8))
  let alignedEnd ← alignUp stop
  ensure (alignedStart ≤ alignedEnd) "Invalid reserved memory region: start > end"
  .ok { collector with reserved := push collector.reserved ⟨alignedStart, alignedEnd⟩ }

def noteInitrd (collector : Collector Ranges) (name : List UInt8) (data : Nat) :
    Collector Ranges :=
  if name = literal "linux,initrd-start" then
    { collector with initrdStart := some (readBe64 bytes data) }
  else if name = literal "linux,initrd-end" then
    { collector with initrdEnd := some (readBe64 bytes data) }
  else
    collector

def takeInitrd (collector : Collector Ranges) : Checked (Collector Ranges) :=
  match collector.initrdStart, collector.initrdEnd with
  | some start, some stop => do
      let alignedEnd ← alignUp stop
      .ok { collector with
        reserved := push collector.reserved ⟨alignDown start, alignedEnd⟩
        initrd := ⟨start, stop⟩
        initrdStart := none
        initrdEnd := none }
  | _, _ => .ok collector

def takeProperty (collector : Collector Ranges) (depth : Nat) (property : Property) :
    Checked (Collector Ranges) :=
  if collector.memoryActive ∧ property.name = literal "reg" ∧ 16 ≤ property.length then
    collector.takeMemory bytes property.data
  else if collector.reservedActive ∧
      (property.name = literal "reg" ∨ property.name = literal "alloc-ranges") ∧
      16 ≤ property.length then
    collector.takeReserved push bytes property.data
  else if collector.chosenActive then
    (collector.noteInitrd bytes property.name property.data).takeInitrd push
  else if depth = 1 ∧ property.name = literal "#address-cells" then do
    ensure (readBe32 bytes property.data = 2) "DTB must have #address-cells = 2"
    .ok collector
  else if depth = 1 ∧ property.name = literal "#size-cells" then do
    ensure (readBe32 bytes property.data = 2) "DTB must have #size-cells = 2"
    .ok collector
  else
    .ok collector

/-- The visitor of `collect_memory_map`. -/
def visit (event : Event) (collector : Collector Ranges) : Checked (Collector Ranges) :=
  match event.token, event.name, event.property with
  | .beginNode, some name, _ => .ok (if event.depth = 1 then collector.enter name else collector)
  | .endNode, _, _ => .ok (if event.depth = 1 then collector.leave else collector)
  | .prop, _, some property => collector.takeProperty push bytes event.depth property
  | _, _, _ => .ok collector

end Properties

end Collector

/-- `collect_memory_map` over any collection of ranges. -/
def collectWith {Ranges : Type} (push : Ranges → Region → Ranges) (memory : ByteMemory)
    (bound dtb : Nat) (reserved : Ranges) (initrd : Initrd) : Checked (Collector Ranges) := do
  let context ← parseDtb memory dtb
  traverseDtb memory bound context (Collector.visit push memory) (Collector.new reserved initrd)

/-- `collect_memory_map` with a vector of bounded capacity, whose pushes it does
not check. -/
def collectMemoryMap {capacity : Nat} (memory : ByteMemory) (bound dtb : Nat)
    (reserved : BoundedVector Region capacity) (initrd : Initrd) :
    Checked (Option Region × BoundedVector Region capacity × Initrd) := do
  let collector ← collectWith BoundedVector.push memory bound dtb reserved initrd
  .ok (collector.memory, collector.reserved, collector.initrd)

section Runs

variable {State Other : Type} {memory : ByteMemory} {bound : Nat} {context : DtbContext}
  {visit : Event → State → Checked State} {image : State → Other}

theorem map_bind {Value : Type} {first : Checked Value} {rest : Value → Checked State}
    {others : Value → Checked Other} (commutes : ∀ value, (rest value).map image = others value) :
    (first >>= rest).map image = first >>= others := by
  cases first with
  | error fault => rfl
  | ok value => exact commutes value

theorem visit_bind {first : Checked State} {second : Checked Other} {rest : State → Checked State}
    {others : Other → Checked Other} (same : first.map image = second)
    (commutes : ∀ state, (rest state).map image = others (image state)) :
    (first >>= rest).map image = second >>= others := by
  subst same
  cases first with
  | error fault => rfl
  | ok state => exact commutes state

theorem map_ite {condition : Prop} [Decidable condition] {first second : Checked State}
    {firstImage secondImage : Checked Other} (sameFirst : first.map image = firstImage)
    (sameSecond : second.map image = secondImage) :
    (if condition then first else second).map image =
      if condition then firstImage else secondImage := by
  rw [apply_ite (Except.map image), sameFirst, sameSecond]

/-- A visitor that works on the image of another one's state traverses alike. -/
theorem traverseFrom_map {visitImage : Event → Other → Checked Other}
    (commutes : ∀ event state, (visit event state).map image = visitImage event (image state))
    (fuel address depth : Nat) (state : State) :
    (traverseFrom memory bound context visit fuel address depth state).map image =
      traverseFrom memory bound context visitImage fuel address depth (image state) := by
  induction fuel generalizing address depth state with
  | zero => rfl
  | succ fuel ih =>
    refine map_ite ?_ (map_ite ?_ (map_ite ?_ (map_ite ?_ (map_ite (commutes _ state) ?_))))
    · refine map_bind fun read => visit_bind (commutes _ state) fun next => ?_
      exact map_bind fun deeper => ih _ _ next
    · exact visit_bind (commutes _ state) fun next => ih _ _ next
    · exact map_bind fun read => visit_bind (commutes _ state) fun next => ih _ _ next
    · exact visit_bind (commutes _ state) fun next => ih _ _ next
    · exact visit_bind (commutes _ state) fun next => ih _ _ next

theorem traverseFrom_keeps {Kept : State → Prop}
    (keeps : ∀ event state, Kept state → Returns Kept (visit event state))
    (fuel address depth : Nat)
    {state : State} (kept : Kept state) :
    Returns Kept (traverseFrom memory bound context visit fuel address depth state) := by
  induction fuel generalizing address depth state with
  | zero =>
    intro result ran
    cases ran
  | succ fuel ih =>
    have visited : ∀ event next, visit event state = .ok next → Kept next :=
      fun event next ran => keeps event state kept next ran
    refine returns_ite ?_ (returns_ite ?_ (returns_ite ?_ (returns_ite ?_
      (returns_ite (keeps _ state kept) ?_))))
    · refine returns_bind fun read _ => returns_bind fun next ran => ?_
      exact returns_bind fun deeper _ => ih _ _ (visited _ next ran)
    · exact returns_bind fun next ran => ih _ _ (visited _ next ran)
    · exact returns_bind fun read _ => returns_bind fun next ran => ih _ _ (visited _ next ran)
    · exact returns_bind fun next ran => ih _ _ (visited _ next ran)
    · exact returns_bind fun next ran => ih _ _ (visited _ next ran)

end Runs

namespace Collector

variable {Ranges Others : Type} {push : Ranges → Region → Ranges}
  {pushOther : Others → Region → Others} {bytes : ByteMemory}

def mapReserved (image : Ranges → Others) (collector : Collector Ranges) : Collector Others :=
  ⟨image collector.reserved, collector.memory, collector.memoryActive, collector.reservedActive,
    collector.chosenActive, collector.initrdStart, collector.initrdEnd, collector.initrd⟩

section Images

variable {image : Ranges → Others}
  (commutes : ∀ ranges range, image (push ranges range) = pushOther (image ranges) range)
  (collector : Collector Ranges)

theorem enter_map (name : List UInt8) :
    (collector.enter name).mapReserved image = (collector.mapReserved image).enter name := by
  unfold enter
  split
  · rfl
  · split
    · rfl
    · split <;> rfl

theorem takeMemory_map (data : Nat) :
    (collector.takeMemory bytes data).map (mapReserved image) =
      (collector.mapReserved image).takeMemory bytes data :=
  map_bind fun _ => rfl

theorem noteInitrd_map (name : List UInt8) (data : Nat) :
    (collector.noteInitrd bytes name data).mapReserved image =
      (collector.mapReserved image).noteInitrd bytes name data := by
  unfold noteInitrd
  split
  · rfl
  · split <;> rfl

include commutes

theorem takeReserved_map (data : Nat) :
    (collector.takeReserved push bytes data).map (mapReserved image) =
      (collector.mapReserved image).takeReserved pushOther bytes data := by
  refine map_bind fun stop => map_bind fun alignedEnd => map_bind fun _ => ?_
  simp only [Except.map, mapReserved, commutes]

theorem takeInitrd_map :
    (collector.takeInitrd push).map (mapReserved image) =
      (collector.mapReserved image).takeInitrd pushOther := by
  obtain ⟨reserved, memory, memoryActive, reservedActive, chosenActive, initrdStart, initrdEnd,
    initrd⟩ := collector
  cases initrdStart with
  | none => rfl
  | some start =>
    cases initrdEnd with
    | none => rfl
    | some stop =>
      refine map_bind fun alignedEnd => ?_
      simp only [Except.map, mapReserved, commutes]

theorem takeProperty_map (depth : Nat) (property : Property) :
    (collector.takeProperty push bytes depth property).map (mapReserved image) =
      (collector.mapReserved image).takeProperty pushOther bytes depth property := by
  refine map_ite (collector.takeMemory_map property.data) ?_
  refine map_ite (collector.takeReserved_map commutes property.data) ?_
  refine map_ite ?_ (map_ite (map_bind fun _ => rfl) (map_ite (map_bind fun _ => rfl) rfl))
  rw [takeInitrd_map commutes, noteInitrd_map]

end Images

theorem visit_map {image : Ranges → Others}
    (commutes : ∀ ranges range, image (push ranges range) = pushOther (image ranges) range)
    (event : Event) (collector : Collector Ranges) :
    (collector.visit push bytes event).map (mapReserved image) =
      (collector.mapReserved image).visit pushOther bytes event := by
  obtain ⟨token, depth, name, property⟩ := event
  cases token with
  | beginNode =>
    cases name with
    | none => rfl
    | some name =>
      unfold visit
      dsimp only [Except.map]
      split
      · rw [enter_map]
      · rfl
  | endNode =>
    unfold visit
    dsimp only [Except.map]
    split <;> rfl
  | prop =>
    cases property with
    | none => cases name <;> rfl
    | some property =>
      cases name with
      | none => exact collector.takeProperty_map commutes depth property
      | some name => exact collector.takeProperty_map commutes depth property
  | nop => cases name <;> rfl
  | finish => cases name <;> rfl
  | unknown => cases name <;> rfl

def Bounded (collector : Collector Ranges) : Prop :=
  ∀ ram, collector.memory = some ram → ram.start ≤ ram.stop ∧ ram.stop < 2 ^ 64

theorem bounded_new (reserved : Ranges) (initrd : Initrd) : (new reserved initrd).Bounded := by
  intro ram found
  cases found

theorem bounded_takeProperty {collector : Collector Ranges} (bounded : collector.Bounded)
    (depth : Nat) (property : Property) :
    Returns Bounded (collector.takeProperty push bytes depth property) := by
  have noted : (collector.noteInitrd bytes property.name property.data).Bounded := by
    unfold noteInitrd
    split
    · exact bounded
    · split <;> exact bounded
  refine returns_ite ?_ (returns_ite ?_ (returns_ite ?_ (returns_ite ?_ (returns_ite ?_ ?_))))
  · refine returns_bind fun stop added => returns_ok ?_
    obtain ⟨fits, rfl⟩ := checkedAdd_eq_ok.mp added
    rintro ram ⟨⟩
    exact ⟨Nat.le_add_right _ _, fits⟩
  · refine returns_bind fun stop _ => returns_bind fun alignedEnd _ => ?_
    exact returns_bind fun _ _ => returns_ok bounded
  · unfold takeInitrd
    split
    · exact returns_bind fun alignedEnd _ => returns_ok noted
    · exact returns_ok noted
  · exact returns_bind fun _ _ => returns_ok bounded
  · exact returns_bind fun _ _ => returns_ok bounded
  · exact returns_ok bounded

theorem bounded_enter {collector : Collector Ranges} (bounded : collector.Bounded)
    (name : List UInt8) : (collector.enter name).Bounded := by
  unfold enter
  split
  · exact bounded
  · split
    · exact bounded
    · split <;> exact bounded

theorem bounded_visit (event : Event) (collector : Collector Ranges)
    (bounded : collector.Bounded) : Returns Bounded (collector.visit push bytes event) := by
  unfold visit
  split
  · refine returns_ok ?_
    split
    · exact bounded_enter bounded _
    · exact bounded
  · refine returns_ok ?_
    split <;> exact bounded
  · exact bounded_takeProperty bounded _ _
  · exact returns_ok bounded

end Collector

/-- Every range that `collect_memory_map` pushes, in order. -/
def collectAll (memory : ByteMemory) (bound dtb : Nat) (initrd : Initrd) :
    Checked (Collector (List Region)) :=
  collectWith (fun ranges range => ranges ++ [range]) memory bound dtb [] initrd

section Collection

variable {memory : ByteMemory} {bound dtb : Nat} {initrd : Initrd}

/-- A vector of bounded capacity collects as many ranges as it has room for. -/
theorem collectMemoryMap_eq (capacity : Nat) :
    collectMemoryMap memory bound dtb (BoundedVector.empty : BoundedVector Region capacity) initrd =
      (collectAll memory bound dtb initrd).map fun collector =>
        (collector.memory, collector.reserved.foldl BoundedVector.push BoundedVector.empty,
          collector.initrd) := by
  have pushes : ∀ (ranges : List Region) (range : Region),
      (ranges ++ [range]).foldl BoundedVector.push
          (BoundedVector.empty : BoundedVector Region capacity) =
        (ranges.foldl BoundedVector.push BoundedVector.empty).push range :=
    fun ranges range => List.foldl_append
  have collected : (collectAll memory bound dtb initrd).map
      (Collector.mapReserved fun ranges => ranges.foldl BoundedVector.push BoundedVector.empty) =
      collectWith BoundedVector.push memory bound dtb BoundedVector.empty initrd :=
    map_bind fun context => traverseFrom_map (Collector.visit_map pushes) _ _ _ _
  unfold collectMemoryMap
  rw [← collected]
  cases collectAll memory bound dtb initrd with
  | error fault => rfl
  | ok collector => rfl

theorem collectAll_bounded (memory : ByteMemory) (bound dtb : Nat) (initrd : Initrd) :
    Returns Collector.Bounded (collectAll memory bound dtb initrd) :=
  returns_bind fun _ _ =>
    traverseFrom_keeps Collector.bounded_visit _ _ _ (Collector.bounded_new _ _)

end Collection

end NanoOs.Dtb
