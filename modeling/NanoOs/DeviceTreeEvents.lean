import NanoOs.DeviceTree

/-!
# Traversing a device tree

A tree of nodes and properties, its encodings in memory, and that `traverse_dtb` calls
its visitor with the tree in preorder.
-/

namespace NanoOs.Dtb

open List

/-- The content of a node in its order: properties and nodes, each with what follows
it, and no-ops anywhere. -/
inductive Items
  | nil
  | nop (rest : Items)
  | prop (name data : List UInt8) (rest : Items)
  | node (name : List UInt8) (children rest : Items)

structure TreeEvent where
  token : DtbToken
  depth : Nat
  name : Option (List UInt8)
  property : Option (List UInt8 × List UInt8 × Nat)

/-- A call of the visitor, with the data that its pointer leads to. -/
def Event.resolve (memory : ByteMemory) (event : Event) : TreeEvent where
  token := event.token
  depth := event.depth
  name := event.name
  property := event.property.map fun property =>
    (property.name, slice memory property.data property.length, property.length)

namespace Items

/-- The calls for a tree in preorder, from a depth on. -/
def events (depth : Nat) : Items → List TreeEvent
  | .nil => []
  | .nop rest => ⟨.nop, depth, none, none⟩ :: rest.events depth
  | .prop name data rest =>
      ⟨.prop, depth, some [], some (name, data, data.length)⟩ :: rest.events depth
  | .node name children rest =>
      ⟨.beginNode, depth, some name, none⟩ ::
        (children.events (depth + 1) ++ ⟨.endNode, depth, none, none⟩ :: rest.events depth)

def tokens : Items → Nat
  | .nil => 0
  | .nop rest => rest.tokens + 1
  | .prop _ _ rest => rest.tokens + 1
  | .node _ children rest => children.tokens + rest.tokens + 2

/-- The number of tokens and of bytes in names. -/
def size : Items → Nat
  | .nil => 0
  | .nop rest => rest.size + 1
  | .prop name _ rest => rest.size + name.length + 1
  | .node name children rest => children.size + rest.size + name.length + 2

theorem tokens_le_size (items : Items) : items.tokens ≤ items.size := by
  induction items with
  | nil => exact Nat.le_refl _
  | nop rest ih => exact Nat.succ_le_succ ih
  | prop name data rest ih =>
    simp only [tokens, size]
    omega
  | node name children rest childrenIh restIh =>
    simp only [tokens, size]
    omega

end Items

def padded (length : Nat) : Nat := (length + 3) / 4 * 4

/-- A string without a zero in it stands at an address, with a zero behind it. -/
structure StringAt (memory : ByteMemory) (address : Nat) (text : List UInt8) : Prop where
  bytes : slice memory address text.length = text
  noNul : 0 ∉ text
  nul : memory (address + text.length) = 0

/-- Content is encoded from an address up to another one. -/
inductive Encodes (memory : ByteMemory) (strings : Nat) : Nat → Items → Nat → Prop
  | nil (address : Nat) : Encodes memory strings address .nil address
  | nop {address stop : Nat} {rest : Items} (token : readBe32 memory address = fdtNop)
      (following : Encodes memory strings (address + 4) rest stop) :
      Encodes memory strings address (.nop rest) stop
  | prop {address stop : Nat} {name data : List UInt8} {rest : Items}
      (token : readBe32 memory address = fdtProp)
      (length : readBe32 memory (address + 4) = data.length)
      (isName : StringAt memory (strings + readBe32 memory (address + 8)) name)
      (bytes : slice memory (address + 12) data.length = data)
      (following : Encodes memory strings (address + 12 + padded data.length) rest stop) :
      Encodes memory strings address (.prop name data rest) stop
  | node {address inner stop : Nat} {name : List UInt8} {children rest : Items}
      (token : readBe32 memory address = fdtBeginNode)
      (isName : StringAt memory (address + 4) name)
      (content : Encodes memory strings (address + 4 + padded (name.length + 1)) children inner)
      (ended : readBe32 memory inner = fdtEndNode)
      (following : Encodes memory strings (inner + 4) rest stop) :
      Encodes memory strings address (.node name children rest) stop

section Steps

variable {memory : ByteMemory} {State : Type} {bound fuel address depth : Nat}
  {context : DtbContext}
  {visit : Event → State → Checked State} {state : State} {name data : List UInt8}

theorem readBe_lt (memory : ByteMemory) (address count : Nat) :
    readBe memory address count < 256 ^ count := by
  induction count generalizing address with
  | zero => exact Nat.one_pos
  | succ count ih =>
    have first := (memory address).toNat_lt
    have rest := ih (address + 1)
    calc
      readBe memory address (count + 1) <
          (memory address).toNat * 256 ^ count + 256 ^ count := Nat.add_lt_add_left rest _
      _ = ((memory address).toNat + 1) * 256 ^ count := (Nat.succ_mul _ _).symm
      _ ≤ 256 * 256 ^ count := Nat.mul_le_mul_right _ first
      _ = 256 ^ (count + 1) := (pow_succ' _ _).symm

theorem slice_succ (memory : ByteMemory) (address length : Nat) :
    slice memory address (length + 1) = memory address :: slice memory (address + 1) length := by
  simp [slice, range_succ_eq_map, Nat.add_assoc, Nat.add_comm 1]

theorem StringAt.cons {byte : UInt8} (isString : StringAt memory address (byte :: name)) :
    memory address ≠ 0 ∧ StringAt memory (address + 1) name := by
  have bytes := isString.bytes
  rw [length_cons, slice_succ] at bytes
  obtain ⟨first, rest⟩ := cons_eq_cons.mp bytes
  have noNul : 0 ≠ byte ∧ 0 ∉ name := not_or.mp (mem_cons.not.mp isString.noNul)
  refine ⟨?_, rest, noNul.2, ?_⟩
  · rw [first]
    exact noNul.1.symm
  · rw [Nat.add_assoc, Nat.add_comm 1]
    exact isString.nul

theorem StringAt.findNul_eq (isString : StringAt memory address name)
    (enough : name.length < fuel) :
    findNul memory fuel address = .ok (address + name.length) := by
  induction name generalizing address fuel with
  | nil =>
    obtain ⟨fuel, rfl⟩ : ∃ more, fuel = more + 1 := ⟨fuel - 1, by omega⟩
    have nul : memory address = 0 := isString.nul
    rw [findNul, if_neg (not_not.mpr nul)]
    rfl
  | cons byte name ih =>
    obtain ⟨notNul, rest⟩ := isString.cons
    obtain ⟨fuel, rfl⟩ : ∃ more, fuel = more + 1 := ⟨fuel - 1, by omega⟩
    rw [length_cons] at enough ⊢
    rw [findNul, if_pos notNul, ih rest (by omega), Nat.add_assoc, Nat.add_comm 1]

theorem StringAt.slice_eq (isString : StringAt memory address name) :
    slice memory address (address + name.length - address) = name := by
  rw [Nat.add_sub_cancel_left]
  exact isString.bytes

theorem traverseFrom_nop (token : readBe32 memory address = fdtNop) :
    traverseFrom memory bound context visit (fuel + 1) address depth state =
      visit ⟨.nop, depth, none, none⟩ state >>=
        traverseFrom memory bound context visit fuel (address + 4) depth := by
  rw [traverseFrom, token]
  rfl

theorem traverseFrom_end (token : readBe32 memory address = fdtEnd) :
    traverseFrom memory bound context visit (fuel + 1) address depth state =
      visit ⟨.finish, depth, none, none⟩ state := by
  rw [traverseFrom, token]
  rfl

theorem traverseFrom_endNode (token : readBe32 memory address = fdtEndNode) :
    traverseFrom memory bound context visit (fuel + 1) address (depth + 1) state =
      visit ⟨.endNode, depth, none, none⟩ state >>=
        traverseFrom memory bound context visit fuel (address + 4) depth := by
  rw [traverseFrom, token]
  rfl

theorem traverseFrom_beginNode (token : readBe32 memory address = fdtBeginNode)
    (isName : StringAt memory (address + 4) name) (enough : name.length < bound)
    (aligned : address % 4 = 0) (fits : address + name.length + 8 < 2 ^ 64)
    (shallow : depth + 1 < 2 ^ 64) :
    traverseFrom memory bound context visit (fuel + 1) address depth state =
      visit ⟨.beginNode, depth, some name, none⟩ state >>=
        traverseFrom memory bound context visit fuel (address + 4 + padded (name.length + 1))
          (depth + 1) := by
  have read : readStrz memory bound (address + 4) =
      .ok (name, address + 4 + padded (name.length + 1)) := by
    rw [readStrz, isName.findNul_eq enough, ok_bind, checkedAdd_bind (by omega),
      isName.slice_eq, show complement 3 = complement (2 ^ 2 - 1) from rfl,
      and_complement_two_pow (by omega) (by omega)]
    refine congrArg (fun next => Except.ok (name, next)) ?_
    unfold padded
    omega
  rw [traverseFrom, token]
  rw [read, ok_bind]
  refine bind_congr fun next => ?_
  rw [checkedAdd_bind shallow]

theorem traverseFrom_prop (token : readBe32 memory address = fdtProp)
    (length : readBe32 memory (address + 4) = data.length)
    (isName : StringAt memory (context.stringsPtr + readBe32 memory (address + 8)) name)
    (enough : name.length < bound) :
    traverseFrom memory bound context visit (fuel + 1) address depth state =
      visit ⟨.prop, depth, some [], some ⟨name, address + 12, data.length⟩⟩ state >>=
        traverseFrom memory bound context visit fuel (address + 12 + padded data.length) depth := by
  have small : data.length < 256 ^ 4 := by
    rw [← length]
    exact readBe_lt memory (address + 4) 4
  have read : readProperty memory bound context (address + 4) =
      .ok (⟨name, address + 12, data.length⟩, address + 12 + padded data.length) := by
    rw [readProperty, length]
    dsimp only
    rw [checkedAdd_bind (by omega), isName.findNul_eq enough, ok_bind, isName.slice_eq,
      show complement 3 = complement (2 ^ 2 - 1) from rfl,
      and_complement_two_pow (by omega) (by omega)]
    rfl
  rw [traverseFrom, token]
  change (readProperty memory bound context (address + 4) >>= _) = _
  rw [read, ok_bind]

end Steps

section Traversal

variable {memory : ByteMemory} {strings address stop : Nat} {items : Items} {context : DtbContext}

theorem Encodes.aligned (encodes : Encodes memory strings address items stop)
    (aligned : address % 4 = 0) : stop % 4 = 0 := by
  induction encodes with
  | nil => exact aligned
  | nop _ _ ih => exact ih (by omega)
  | prop _ _ _ _ _ ih => exact ih (by unfold padded; omega)
  | node _ _ _ _ _ contentIh restIh =>
    have inner := contentIh (by unfold padded; omega)
    exact restIh (by omega)

theorem Encodes.le_stop (encodes : Encodes memory strings address items stop) :
    address ≤ stop := by
  induction encodes with
  | nil => exact Nat.le_refl _
  | nop _ _ ih => omega
  | prop _ _ _ _ _ ih => omega
  | node _ _ _ _ _ contentIh restIh => omega

/-- The traversal of encoded content calls the visitor with its events and goes on
behind it at the same depth. -/
theorem Encodes.traverseFrom_eq (encodes : Encodes memory context.stringsPtr address items stop)
    (depth : Nat) (aligned : address % 4 = 0) (shallow : depth ≤ address)
    (fits : stop + 4 ≤ 2 ^ 64) :
    ∃ events : List Event, events.map (Event.resolve memory) = items.events depth ∧
      ∀ (State : Type) (visit : Event → State → Checked State) (bound fuel : Nat) (state : State),
        items.size < bound →
          traverseFrom memory bound context visit (items.tokens + fuel) address depth state =
            events.foldlM (fun state event => visit event state) state >>=
              traverseFrom memory bound context visit fuel stop depth := by
  induction encodes generalizing depth with
  | nil address =>
    refine ⟨[], rfl, fun State visit bound fuel state _ => ?_⟩
    simp [Items.tokens]
  | nop token following ih =>
    obtain ⟨events, resolved, traversed⟩ := ih depth (by omega) (by omega) fits
    refine ⟨⟨.nop, depth, none, none⟩ :: events, by simp [Items.events, Event.resolve, resolved],
      fun State visit bound fuel state enough => ?_⟩
    have small := Nat.lt_of_succ_lt enough
    rw [Items.tokens, Nat.add_right_comm, traverseFrom_nop token, foldlM_cons, bind_assoc]
    exact bind_congr fun next => traversed State visit bound fuel next small
  | @prop address stop name data rest token length isName bytes following ih =>
    obtain ⟨events, resolved, traversed⟩ :=
      ih depth (by unfold padded; omega) (by omega) fits
    refine ⟨⟨.prop, depth, some [], some ⟨name, address + 12, data.length⟩⟩ :: events,
      by simp [Items.events, Event.resolve, resolved, bytes],
      fun State visit bound fuel state enough => ?_⟩
    have small : rest.size + name.length + 1 < bound := enough
    rw [Items.tokens, Nat.add_right_comm, traverseFrom_prop token length isName (by omega),
      foldlM_cons, bind_assoc]
    exact bind_congr fun next => traversed State visit bound fuel next (by omega)
  | @node address inner stop name children rest token isName content ended following contentIh
      restIh =>
      have nameRoom : name.length + 1 ≤ padded (name.length + 1) := by
        unfold padded
        omega
      have innerAligned := content.aligned (by unfold padded; omega)
      have innerLe := content.le_stop
      have stopLe := following.le_stop
      obtain ⟨childEvents, childResolved, childTraversed⟩ :=
        contentIh (depth + 1) (by unfold padded; omega) (by omega) (by omega)
      obtain ⟨restEvents, restResolved, restTraversed⟩ :=
        restIh depth (by omega) (by omega) fits
      refine ⟨⟨.beginNode, depth, some name, none⟩ ::
          (childEvents ++ ⟨.endNode, depth, none, none⟩ :: restEvents),
        by simp [Items.events, Event.resolve, childResolved, restResolved],
        fun State visit bound fuel state enough => ?_⟩
      have small : children.size + rest.size + name.length + 2 < bound := enough
      have split : children.tokens + rest.tokens + 2 + fuel =
          children.tokens + (rest.tokens + fuel + 1) + 1 := by omega
      rw [Items.tokens, split,
        traverseFrom_beginNode token isName (by omega) aligned (by omega) (by omega),
        foldlM_cons, bind_assoc]
      refine bind_congr fun next => ?_
      rw [childTraversed State visit bound _ next (by omega), foldlM_append, bind_assoc]
      refine bind_congr fun next => ?_
      rw [traverseFrom_endNode ended, foldlM_cons, bind_assoc]
      exact bind_congr fun next => restTraversed State visit bound fuel next (by omega)

end Traversal

/-- The traversal of an encoded tree ends, and it calls the visitor with the tree in
preorder and with the end. -/
theorem traverseDtb_events {memory : ByteMemory} {context : DtbContext} {items : Items} {stop : Nat}
    (aligned : context.structPtr % 4 = 0)
    (encodes : Encodes memory context.stringsPtr context.structPtr items stop)
    (ended : readBe32 memory stop = fdtEnd) (fits : stop + 4 ≤ 2 ^ 64) :
    ∃ events : List Event,
      events.map (Event.resolve memory) = items.events 0 ++ [⟨.finish, 0, none, none⟩] ∧
        ∀ (State : Type) (visit : Event → State → Checked State) (bound : Nat) (state : State),
          items.size < bound →
            traverseDtb memory bound context visit state =
              events.foldlM (fun state event => visit event state) state := by
  obtain ⟨events, resolved, traversed⟩ := encodes.traverseFrom_eq 0 aligned (Nat.zero_le _) fits
  refine ⟨events ++ [⟨.finish, 0, none, none⟩], by simp [resolved, Event.resolve],
    fun State visit bound state enough => ?_⟩
  have tokens := items.tokens_le_size
  obtain ⟨more, rfl⟩ : ∃ more, bound = items.tokens + (more + 1) :=
    ⟨bound - items.tokens - 1, by omega⟩
  rw [traverseDtb, traversed State visit _ (more + 1) state enough, foldlM_append]
  refine bind_congr fun next => ?_
  rw [traverseFrom_end ended, foldlM_cons]
  exact (bind_pure _).symm

/-- A root with a no-op, a property `reg` of five bytes and a child `cpu`. -/
def cpuTree : Items :=
  .node [] (.nop (.prop [114, 101, 103] [1, 2, 3, 4, 5] (.node [99, 112, 117] .nil .nil))) .nil

def cpuContext : DtbContext where
  totalSize := 56
  structPtr := 0x1000
  stringsPtr := 0x1034

def cpuBytes : List UInt8 :=
  [0, 0, 0, 1, 0, 0, 0, 0, 0, 0, 0, 4, 0, 0, 0, 3, 0, 0, 0, 5, 0, 0, 0, 0, 1, 2, 3, 4, 5, 0, 0, 0,
    0, 0, 0, 1, 99, 112, 117, 0, 0, 0, 0, 2, 0, 0, 0, 2, 0, 0, 0, 9, 114, 101, 103, 0]

def cpuMemory : ByteMemory := fun location => cpuBytes.getD (location - 0x1000) 0

theorem cpuTree_encodes : Encodes cpuMemory 0x1034 0x1000 cpuTree 0x1030 := by
  have child : Encodes cpuMemory 0x1034 0x1020 (.node [99, 112, 117] .nil .nil) 0x102c :=
    .node (by decide) ⟨by decide, by decide, by decide⟩ (.nil 0x1028) (by decide) (.nil 0x102c)
  have prop : Encodes cpuMemory 0x1034 0x100c
      (.prop [114, 101, 103] [1, 2, 3, 4, 5] (.node [99, 112, 117] .nil .nil)) 0x102c :=
    .prop (by decide) (by decide) ⟨by decide, by decide, by decide⟩ (by decide) child
  exact .node (by decide) ⟨by decide, by decide, by decide⟩ (.nop (by decide) prop) (by decide)
    (.nil 0x1030)

theorem cpuTree_events :
    ∃ events : List Event,
      events.map (Event.resolve cpuMemory) =
        [⟨.beginNode, 0, some [], none⟩,
          ⟨.nop, 1, none, none⟩,
          ⟨.prop, 1, some [], some ([114, 101, 103], [1, 2, 3, 4, 5], 5)⟩,
          ⟨.beginNode, 1, some [99, 112, 117], none⟩,
          ⟨.endNode, 1, none, none⟩,
          ⟨.endNode, 0, none, none⟩,
          ⟨.finish, 0, none, none⟩] ∧
        ∀ (State : Type) (visit : Event → State → Checked State) (bound : Nat) (state : State),
          cpuTree.size < bound →
            traverseDtb cpuMemory bound cpuContext visit state =
              events.foldlM (fun state event => visit event state) state := by
  have aligned : cpuContext.structPtr % 4 = 0 := rfl
  have ended : readBe32 cpuMemory 0x1030 = fdtEnd := by decide
  exact traverseDtb_events aligned cpuTree_encodes ended (by decide)

end NanoOs.Dtb
