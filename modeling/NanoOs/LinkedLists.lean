import Mathlib.Data.List.Nodup
import Mathlib.Order.Basic

/-!
# Lists threaded through link functions

A linked structure in memory is seen as functions that give each node its
successor or its predecessor.  `Segment` follows successors from a first node
through the listed nodes up to a final target, and `BackLinked` says that every
listed node points back to the one before it.  A doubly linked list is both at
once, ended by a null node; the section at the end gives its two editing
operations, insertion at the front and removal of a node.
-/

namespace NanoOs.LinkedLists

open Function List

variable {Node : Type*}

/-- Following `next` from `first` visits exactly the listed nodes and then
arrives at `target`. -/
def Segment (next : Node → Node) : Node → List Node → Node → Prop
  | first, [], target => first = target
  | first, node :: rest, target => first = node ∧ Segment next (next node) rest target

/-- Every listed node points back to its predecessor; the first one points to
`before`. -/
def BackLinked (previous : Node → Node) : Node → List Node → Prop
  | _, [] => True
  | before, node :: rest => previous node = before ∧ BackLinked previous node rest

variable {first target node before : Node} {next previous changed : Node → Node}
  {back front nodes : List Node}

@[simp]
theorem segment_nil : Segment next first [] target ↔ first = target :=
  Iff.rfl

@[simp]
theorem segment_cons {rest : List Node} :
    Segment next first (node :: rest) target ↔
      first = node ∧ Segment next (next node) rest target :=
  Iff.rfl

@[simp]
theorem backLinked_nil : BackLinked previous before [] :=
  trivial

@[simp]
theorem backLinked_cons {rest : List Node} :
    BackLinked previous before (node :: rest) ↔
      previous node = before ∧ BackLinked previous node rest :=
  Iff.rfl

theorem segment_append :
    Segment next first (front ++ back) target ↔
      ∃ middle, Segment next first front middle ∧ Segment next middle back target := by
  induction front generalizing first with
  | nil => simp
  | cons node front ih =>
    simp only [cons_append, segment_cons, ih]
    constructor
    · rintro ⟨rfl, middle, left, right⟩
      exact ⟨middle, ⟨rfl, left⟩, right⟩
    · rintro ⟨middle, ⟨rfl, left⟩, right⟩
      exact ⟨rfl, middle, left, right⟩

theorem Segment.congr (segment : Segment next first nodes target)
    (agree : ∀ node ∈ nodes, changed node = next node) : Segment changed first nodes target := by
  induction nodes generalizing first with
  | nil => exact segment
  | cons node rest ih =>
    refine ⟨segment.1, ?_⟩
    rw [agree node (by simp)]
    exact ih segment.2 fun other member => agree other (by simp [member])

/-- Up to a target that they do not pass, the nodes are determined. -/
theorem Segment.unique {others : List Node} (segment : Segment next first nodes target)
    (other : Segment next first others target) (absent : target ∉ nodes)
    (absentOther : target ∉ others) : nodes = others := by
  induction nodes generalizing first others with
  | nil =>
    cases others with
    | nil => rfl
    | cons node rest =>
      have isTarget : first = target := segment
      exact absurd (isTarget ▸ other.1 ▸ mem_cons_self) absentOther
  | cons node rest ih =>
    cases others with
    | nil =>
      have isTarget : first = target := other
      exact absurd (isTarget ▸ segment.1 ▸ mem_cons_self) absent
    | cons otherNode otherRest =>
      obtain ⟨rfl, segmentRest⟩ := segment
      obtain ⟨rfl, otherSegment⟩ := other
      rw [ih segmentRest otherSegment (fun member => absent (mem_cons_of_mem _ member))
        fun member => absentOther (mem_cons_of_mem _ member)]

theorem Segment.bounds [Preorder Node] (increasing : ∀ node, node ≤ next node)
    (segment : Segment next first nodes target) :
    first ≤ target ∧ ∀ node ∈ nodes, first ≤ node ∧ next node ≤ target := by
  induction nodes generalizing first with
  | nil => exact ⟨le_of_eq segment, by simp⟩
  | cons node rest ih =>
    obtain ⟨rfl, restSegment⟩ := segment
    obtain ⟨throughRest, inRest⟩ := ih restSegment
    have step := increasing first
    refine ⟨step.trans throughRest, ?_⟩
    intro other member
    rcases mem_cons.mp member with rfl | later
    · exact ⟨le_refl _, throughRest⟩
    · exact ⟨step.trans (inRest other later).1, (inRest other later).2⟩

theorem Segment.apart [Preorder Node] {next : Node → Node}
    (increasing : ∀ node, node ≤ next node) {first target node other : Node} {nodes : List Node}
    (segment : Segment next first nodes target) (member : node ∈ nodes)
    (otherMember : other ∈ nodes) (different : node ≠ other) :
    next node ≤ other ∨ next other ≤ node := by
  obtain ⟨front, back, rfl⟩ := append_of_mem member
  obtain ⟨middle, former, isNode, latter⟩ := segment_append.mp segment
  subst isNode
  rcases mem_append.mp otherMember with inFront | inRest
  · exact Or.inr ((former.bounds increasing).2 other inFront).2
  · rcases mem_cons.mp inRest with isNode | inBack
    · exact absurd isNode.symm different
    · exact Or.inl ((latter.bounds increasing).2 other inBack).1

theorem backLinked_append :
    BackLinked previous before (front ++ back) ↔
      BackLinked previous before front ∧
        BackLinked previous (front.getLastD before) back := by
  induction front generalizing before with
  | nil => simp
  | cons node front ih =>
    simp only [cons_append, backLinked_cons, ih, getLastD_cons, and_assoc]

theorem BackLinked.congr (linked : BackLinked previous before nodes)
    (agree : ∀ node ∈ nodes, changed node = previous node) : BackLinked changed before nodes := by
  induction nodes generalizing before with
  | nil => trivial
  | cons node rest ih =>
    refine ⟨(agree node (by simp)).trans linked.1, ?_⟩
    exact ih linked.2 fun other member => agree other (by simp [member])

theorem ne_of_nodup (nodup : (front ++ node :: back).Nodup) :
    ∀ other ∈ front ++ back, other ≠ node := by
  rintro other member rfl
  exact (nodup_cons.mp (nodup_middle.mp nodup)).1 member

theorem ne_of_nodup_neighbours {second : Node} (nodup : (front ++ node :: second :: back).Nodup) :
    second ≠ node ∧ ∀ other ∈ front ++ back, other ≠ node ∧ other ≠ second := by
  have notNode := ne_of_nodup nodup
  have rearranged : front ++ node :: second :: back = (front ++ [node]) ++ second :: back := by simp
  rw [rearranged] at nodup
  have notSecond := ne_of_nodup nodup
  simp only [mem_append, mem_cons] at notNode notSecond ⊢
  exact ⟨notNode second (Or.inr (Or.inl rfl)),
    fun other member => ⟨notNode other (by tauto), notSecond other (by tauto)⟩⟩

section

variable (linked : BackLinked previous before (front ++ node :: back))

include linked

/-- The predecessor of a node that does not come first is a listed node. -/
theorem BackLinked.previous_eq : previous node = front.getLastD before :=
  (backLinked_append.mp linked).2.1

theorem BackLinked.insertAfter {fresh : Node}
    (frontSame : ∀ other ∈ front, changed other = previous other)
    (nodeSame : changed node = previous node) (freshLink : changed fresh = node)
    (headLink : ∀ other ∈ back.head?, changed other = fresh)
    (backSame : ∀ other ∈ back.tail, changed other = previous other) :
    BackLinked changed before (front ++ node :: fresh :: back) := by
  obtain ⟨frontLinked, nodeLinked, backLinked⟩ := backLinked_append.mp linked
  refine backLinked_append.mpr ⟨frontLinked.congr frontSame, nodeSame.trans nodeLinked,
    freshLink, ?_⟩
  cases back with
  | nil => trivial
  | cons successor rest =>
    exact ⟨headLink successor (by simp), backLinked.2.congr backSame⟩

theorem BackLinked.remove (frontSame : ∀ other ∈ front, changed other = previous other)
    (headLink : ∀ other ∈ back.head?, changed other = front.getLastD before)
    (backSame : ∀ other ∈ back.tail, changed other = previous other) :
    BackLinked changed before (front ++ back) := by
  obtain ⟨frontLinked, nodeLinked, backLinked⟩ := backLinked_append.mp linked
  refine backLinked_append.mpr ⟨frontLinked.congr frontSame, ?_⟩
  cases back with
  | nil => trivial
  | cons successor rest =>
    exact ⟨headLink successor (by simp), backLinked.2.congr backSame⟩

end

theorem BackLinked.append [DecidableEq Node] {fresh : Node}
    (linked : BackLinked previous before (front ++ [node]))
    (nodup : (front ++ [node, fresh]).Nodup) :
    BackLinked (update previous fresh node) before (front ++ [node, fresh]) := by
  obtain ⟨freshNe, others⟩ := ne_of_nodup_neighbours nodup
  apply linked.insertAfter
  · exact fun other inFront => update_of_ne (others other (by simp [inFront])).2 _ _
  · exact update_of_ne freshNe.symm _ _
  · exact update_self _ _ _
  · simp
  · simp

/-- The links of a doubly linked list together with its first node. -/
structure DoubleLinks (Node : Type*) where
  first : Node
  next : Node → Node
  previous : Node → Node

namespace DoubleLinks

/-- The links thread the listed nodes in order, with `null` at both ends. -/
structure Threads (null : Node) (links : DoubleLinks Node) (nodes : List Node) : Prop where
  forward : Segment links.next links.first nodes null
  backward : BackLinked links.previous null nodes
  nodup : nodes.Nodup
  proper : null ∉ nodes

variable {links : DoubleLinks Node} {null : Node}

theorem Threads.congr {changed : DoubleLinks Node} (threads : Threads null links nodes)
    (first : changed.first = links.first)
    (next : ∀ node ∈ nodes, changed.next node = links.next node)
    (previous : ∀ node ∈ nodes, changed.previous node = links.previous node) :
    Threads null changed nodes where
  forward := by
    rw [first]
    exact threads.forward.congr next
  backward := threads.backward.congr previous
  nodup := threads.nodup
  proper := threads.proper

theorem Threads.previous_mem (threads : Threads null links (front ++ node :: back)) :
    links.previous node = null ∨ links.previous node ∈ front := by
  rw [threads.backward.previous_eq]
  cases front with
  | nil => exact Or.inl rfl
  | cons first rest =>
    rw [getLastD_cons]
    exact Or.inr getLastD_mem_cons

theorem Threads.next_mem (threads : Threads null links (front ++ node :: back)) :
    links.next node = null ∨ links.next node ∈ back := by
  obtain ⟨middle, -, rfl, backSegment⟩ := segment_append.mp threads.forward
  cases back with
  | nil => exact Or.inl backSegment
  | cons successor rest =>
    right
    rw [backSegment.1]
    simp

variable [DecidableEq Node]

/-- Make `node` the first node of the list. -/
def insertFront (null : Node) (links : DoubleLinks Node) (node : Node) : DoubleLinks Node where
  first := node
  next := Function.update links.next node links.first
  previous :=
    if links.first = null then
      Function.update links.previous node null
    else
      Function.update (Function.update links.previous node null) links.first node

/-- Take `node` out of the list and clear its own links. -/
def unlink (null : Node) (links : DoubleLinks Node) (node : Node) : DoubleLinks Node where
  first := if links.previous node = null then links.next node else links.first
  next :=
    Function.update
      (if links.previous node = null then links.next
        else Function.update links.next (links.previous node) (links.next node))
      node null
  previous :=
    Function.update
      (if links.next node = null then links.previous
        else Function.update links.previous (links.next node) (links.previous node))
      node null

theorem Threads.insertFront (threads : Threads null links nodes) (fresh : node ∉ nodes)
    (proper : node ≠ null) : Threads null (links.insertFront null node) (node :: nodes) := by
  have different : ∀ other ∈ nodes, other ≠ node := by
    rintro other member rfl
    exact fresh member
  refine ⟨⟨rfl, ?_⟩, ?_, nodup_cons.mpr ⟨fresh, threads.nodup⟩, ?_⟩
  · simp only [DoubleLinks.insertFront, update_self]
    apply threads.forward.congr
    intro other member
    exact update_of_ne (different other member) _ _
  · cases nodes with
    | nil =>
      have empty : links.first = null := threads.forward
      simp [DoubleLinks.insertFront, empty]
    | cons successor rest =>
      have firstEq : links.first = successor := threads.forward.1
      have successorProper : successor ≠ null := by
        rintro rfl
        exact threads.proper (by simp)
      have successorFresh : successor ∉ rest := (nodup_cons.mp threads.nodup).1
      have nodeNe : node ≠ successor := (different successor (by simp)).symm
      simp only [DoubleLinks.insertFront, firstEq, if_neg successorProper, backLinked_cons,
        update_of_ne nodeNe, update_self, true_and]
      apply threads.backward.2.congr
      intro other member
      rw [update_of_ne, update_of_ne]
      · exact different other (by simp [member])
      · rintro rfl
        exact successorFresh member
  · simp [threads.proper, proper.symm]

section

variable {null node : Node} {links : DoubleLinks Node} {front back : List Node}
  (threads : Threads null links (front ++ node :: back))

include threads

private theorem unlink_forward :
    Segment (links.unlink null node).next (links.unlink null node).first
      (front ++ back) null := by
  have predecessor := threads.backward.previous_eq
  have same := ne_of_nodup threads.nodup
  rcases eq_nil_or_concat front with rfl | ⟨initial, last, rfl⟩
  · have atFront : links.previous node = null := predecessor
    have forward := threads.forward
    simp only [DoubleLinks.unlink, if_pos atFront, nil_append]
    apply forward.2.congr
    intro other member
    exact update_of_ne (same other (by simp [member])) _ _
  · rw [concat_eq_append, getLastD_concat] at predecessor
    rw [concat_eq_append] at threads same ⊢
    have lastProper : last ≠ null := by
      rintro rfl
      exact threads.proper (by simp)
    have lastNe : last ≠ node := same last (by simp)
    have nodup := threads.nodup
    rw [append_assoc, singleton_append] at nodup
    have lastFresh : ∀ other ∈ initial ++ back, other ≠ last := fun other member =>
      ((ne_of_nodup_neighbours nodup).2 other member).1
    have forward := threads.forward
    rw [segment_append] at forward
    obtain ⟨middle, frontSegment, rfl, backSegment⟩ := forward
    rw [segment_append] at frontSegment
    obtain ⟨lastStart, initialSegment, rfl, lastNext⟩ := frontSegment
    have untouched : ∀ other ∈ initial ++ back,
        (links.unlink null middle).next other = links.next other := by
      intro other member
      have otherNe : other ≠ middle := same other (by
        simp only [mem_append] at member ⊢
        tauto)
      simp only [DoubleLinks.unlink, predecessor, if_neg lastProper,
        update_of_ne otherNe, update_of_ne (lastFresh other member)]
    rw [append_assoc, singleton_append, segment_append]
    refine ⟨lastStart, ?_, rfl, ?_⟩
    · simp only [DoubleLinks.unlink, predecessor, if_neg lastProper]
      apply initialSegment.congr
      intro other member
      simpa only [DoubleLinks.unlink, predecessor, if_neg lastProper] using
        untouched other (by simp [member])
    · have bridge : (links.unlink null middle).next lastStart = links.next middle := by
        simp only [DoubleLinks.unlink, predecessor, if_neg lastProper,
          update_of_ne lastNe, update_self]
      rw [bridge]
      exact backSegment.congr fun other member => untouched other (by simp [member])

private theorem unlink_backward :
    BackLinked (links.unlink null node).previous null (front ++ back) := by
  have predecessor := threads.backward.previous_eq
  have proper := threads.proper
  obtain ⟨middle, -, rfl, backSegment⟩ := segment_append.mp threads.forward
  have same := ne_of_nodup threads.nodup
  apply threads.backward.remove
  · intro other member
    have otherNe : other ≠ links.next middle ∨ links.next middle = null := by
      cases back with
      | nil => exact Or.inr backSegment
      | cons successor rest =>
        left
        rw [backSegment.1]
        exact ((ne_of_nodup_neighbours threads.nodup).2 other (by simp [member])).2
    simp only [DoubleLinks.unlink, update_of_ne (same other (by simp [member]))]
    split
    · rfl
    · rename_i nextProper
      exact update_of_ne (otherNe.resolve_right nextProper) _ _
  · intro successor member
    cases back with
    | nil => simp at member
    | cons head rest =>
      have headEq : head = successor := by simpa using member
      subst headEq
      have nextEq : links.next middle = head := backSegment.1
      have headNe : head ≠ middle := same head (by simp)
      have headProper : head ≠ null := by
        rintro rfl
        exact proper (by simp)
      simp only [DoubleLinks.unlink, update_of_ne headNe, nextEq,
        if_neg headProper, update_self]
      exact predecessor
  · intro other member
    cases back with
    | nil => simp at member
    | cons head rest =>
      have nextEq : links.next middle = head := backSegment.1
      obtain ⟨otherNe, otherNeHead⟩ :=
        (ne_of_nodup_neighbours threads.nodup).2 other (mem_append_right _ member)
      simp only [DoubleLinks.unlink, update_of_ne otherNe, nextEq]
      split
      · rfl
      · exact update_of_ne otherNeHead _ _

theorem Threads.unlink :
    Threads null (links.unlink null node) (front ++ back) where
  forward := unlink_forward threads
  backward := unlink_backward threads
  nodup := (nodup_middle.mp threads.nodup |> nodup_cons.mp).2
  proper := by
    have proper := threads.proper
    simp only [mem_append, mem_cons] at proper ⊢
    tauto

end

end DoubleLinks

end NanoOs.LinkedLists
