import Mathlib.Data.List.Infix

/-!
# Walks along named paths

Nodes whose children have names, given by a lookup that may fail.  A walk looks
up one name after the other.  Where every child has one parent and one name,
different paths lead to different nodes, so a change to one entry of one node
only changes the paths through that entry.
-/

namespace NanoOs.PathWalks

open List

variable {Node Name Failure : Type}

/-- Look up one name after the other, up to the first failure. -/
def walk (look : Node → Name → Except Failure Node) : Node → List Name → Except Failure Node
  | node, [] => .ok node
  | node, name :: rest =>
      match look node name with
      | .ok child => walk look child rest
      | .error failure => .error failure

variable {look newLook : Node → Name → Except Failure Node} {root node child : Node}
  {name : Name} {path rest : List Name} {failure : Failure}

@[simp] theorem walk_nil : walk look node [] = .ok node := rfl

@[simp] theorem walk_singleton : walk look node [name] = look node name := by
  rw [walk]
  split <;> simp [*]

theorem walk_append_of_ok (found : walk look root path = .ok node) (rest : List Name) :
    walk look root (path ++ rest) = walk look node rest := by
  induction path generalizing root with
  | nil =>
    cases found
    rfl
  | cons name path ih =>
    rw [walk] at found
    rw [cons_append, walk]
    cases looked : look root name with
    | ok child =>
      rw [looked] at found
      exact ih found
    | error failure => simp [looked] at found

theorem walk_append_of_error (missing : walk look root path = .error failure)
    (rest : List Name) : walk look root (path ++ rest) = .error failure := by
  induction path generalizing root with
  | nil => cases missing
  | cons name path ih =>
    rw [walk] at missing
    rw [cons_append, walk]
    cases looked : look root name with
    | ok child =>
      rw [looked] at missing
      exact ih missing
    | error other =>
      rw [looked] at missing
      exact missing

theorem walk_concat (found : walk look root path = .ok node) (name : Name) :
    walk look root (path ++ [name]) = look node name := by
  rw [walk_append_of_ok found, walk_singleton]

theorem walk_concat_ok (found : walk look root (path ++ [name]) = .ok child) :
    ∃ node, walk look root path = .ok node ∧ look node name = .ok child := by
  cases first : walk look root path with
  | ok node => exact ⟨node, rfl, walk_concat first name ▸ found⟩
  | error failure =>
    rw [walk_append_of_error first] at found
    cases found

theorem walk_keeps (holds : Node → Prop)
    (keeps : ∀ {node name child}, holds node → look node name = .ok child → holds child)
    (start : holds root) (found : walk look root path = .ok node) : holds node := by
  induction path using reverseRecOn generalizing node with
  | nil =>
    cases found
    exact start
  | append_singleton path name ih =>
    obtain ⟨parent, foundParent, looked⟩ := walk_concat_ok found
    exact keeps (ih foundParent) looked

structure Rooted (look : Node → Name → Except Failure Node) (root : Node) : Prop where
  single : ∀ {first second firstName secondName child},
    look first firstName = .ok child → look second secondName = .ok child →
      first = second ∧ firstName = secondName
  top : ∀ node name, look node name ≠ .ok root

theorem Rooted.path_unique (rooted : Rooted look root) {second : List Name}
    (found : walk look root path = .ok node) (again : walk look root second = .ok node) :
    path = second := by
  induction path using reverseRecOn generalizing second node with
  | nil =>
    cases found
    rcases eq_nil_or_concat' second with rfl | ⟨init, last, rfl⟩
    · rfl
    · obtain ⟨parent, -, looked⟩ := walk_concat_ok again
      exact absurd looked (rooted.top parent last)
  | append_singleton path name ih =>
    obtain ⟨parent, foundParent, looked⟩ := walk_concat_ok found
    rcases eq_nil_or_concat' second with rfl | ⟨init, last, rfl⟩
    · cases again
      exact absurd looked (rooted.top parent name)
    · obtain ⟨other, foundOther, lookedOther⟩ := walk_concat_ok again
      obtain ⟨rfl, rfl⟩ := rooted.single looked lookedOther
      rw [ih foundParent foundOther]

theorem walk_congr
    (same : ∀ {init name node}, init ++ [name] <+: path → walk look root init = .ok node →
      newLook node name = look node name) :
    walk newLook root path = walk look root path := by
  induction path using reverseRecOn with
  | nil => rfl
  | append_singleton path name ih =>
    have before : walk newLook root path = walk look root path :=
      ih fun inside => same (inside.trans (prefix_append path [name]))
    cases found : walk look root path with
    | ok node =>
      rw [walk_concat found, walk_concat (before.trans found)]
      exact same (prefix_refl _) found
    | error failure =>
      rw [walk_append_of_error found, walk_append_of_error (before.trans found)]

/-- Both lookups agree at the nodes of the tree, but for one entry. -/
def AgreeBut (look newLook : Node → Name → Except Failure Node) (root parent : Node)
    (name : Name) : Prop :=
  ∀ {path node other}, walk look root path = .ok node → (node ≠ parent ∨ other ≠ name) →
    newLook node other = look node other

section

variable {parent : Node} (rooted : Rooted look root)
  (agree : AgreeBut look newLook root parent name) (found : walk look root path = .ok parent)

include rooted agree found

/-- A change to one entry is only seen by the paths through it. -/
theorem Rooted.walk_elsewhere {query : List Name} (apart : ¬ path ++ [name] <+: query) :
    walk newLook root query = walk look root query := by
  refine walk_congr fun {init other node} inside foundInit => agree foundInit ?_
  by_contra both
  rw [not_or, not_not, not_not] at both
  obtain ⟨rfl, rfl⟩ := both
  rw [rooted.path_unique foundInit found] at inside
  exact apart inside

theorem Rooted.walk_entry (entry : newLook parent name = .ok child) :
    walk newLook root (path ++ [name]) = .ok child := by
  have kept : walk newLook root path = .ok parent := by
    rw [rooted.walk_elsewhere agree found, found]
    intro inside
    have := inside.length_le
    rw [length_append, length_singleton] at this
    omega
  rw [walk_concat kept, entry]

/-- A new entry that leads to an empty node changes the result of one path. -/
theorem Rooted.walk_create [DecidableEq Name] {query : List Name}
    (missing : look parent name = .error failure) (entry : newLook parent name = .ok child)
    (empty : ∀ other, newLook child other = .error failure) :
    walk newLook root query =
      if query = path ++ [name] then .ok child else walk look root query := by
  by_cases inside : path ++ [name] <+: query
  · obtain ⟨rest, rfl⟩ := inside
    have before : walk look root (path ++ [name]) = .error failure := by
      rw [walk_concat found, missing]
    have after := rooted.walk_entry agree found entry
    cases rest with
    | nil => rw [append_nil, if_pos rfl, after]
    | cons next rest =>
      rw [if_neg (by simp), walk_append_of_error before, walk_append_of_ok after, walk, empty]
  · rw [rooted.walk_elsewhere agree found inside, if_neg]
    rintro rfl
    exact inside (prefix_refl _)

end

end NanoOs.PathWalks
