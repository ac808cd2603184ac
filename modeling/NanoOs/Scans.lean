import NanoOs.CheckedArithmetic

/-!
# Scans

A scan collects the items at consecutive positions, up to a number of them or
until a position stops it or fails. A scan in two parts is the scan of the whole.
-/

namespace NanoOs.Scans

inductive Found (Item : Type) where
  | item (value : Item)
  | stop
  | failed

inductive Ending where
  | full
  | stop
  | failed
  deriving DecidableEq

structure Scanned (Item : Type) where
  items : List Item
  ending : Ending

def Scanned.andThen {Item : Type} (first : Scanned Item) (rest : Checked (Scanned Item)) :
    Checked (Scanned Item) :=
  match first.ending with
  | .full => do
      let second ← rest
      .ok ⟨first.items ++ second.items, second.ending⟩
  | .stop | .failed => .ok first

section Scan

variable {Item : Type} (look : Nat → Checked (Found Item))

def scan : Nat → Nat → Checked (Scanned Item)
  | 0, _ => .ok ⟨[], .full⟩
  | count + 1, position => do
      match ← look position with
      | .item value => do
          let rest ← scan count (position + 1)
          .ok ⟨value :: rest.items, rest.ending⟩
      | .stop => .ok ⟨[], .stop⟩
      | .failed => .ok ⟨[], .failed⟩

variable {look} {position count : Nat}

theorem scan_item {value : Item} (found : look position = .ok (.item value)) (count : Nat) :
    scan look (count + 1) position = (do
      let rest ← scan look count (position + 1)
      .ok ⟨value :: rest.items, rest.ending⟩) := by
  rw [scan, found, ok_bind]

theorem scan_stop (found : look position = .ok .stop) (count : Nat) :
    scan look (count + 1) position = .ok ⟨[], .stop⟩ := by
  rw [scan, found, ok_bind]

theorem scan_failed (found : look position = .ok .failed) (count : Nat) :
    scan look (count + 1) position = .ok ⟨[], .failed⟩ := by
  rw [scan, found, ok_bind]

theorem scan_fault {fault : Fault} (found : look position = .error fault) (count : Nat) :
    scan look (count + 1) position = .error fault := by
  rw [scan, found]
  rfl

theorem scan_add (first second position : Nat) :
    scan look (first + second) position = (do
      let scanned ← scan look first position
      scanned.andThen (scan look second (position + first))) := by
  induction first generalizing position with
  | zero =>
    rw [Nat.zero_add, scan, ok_bind]
    cases scan look second position <;> rfl
  | succ first ih =>
    rw [Nat.succ_add]
    cases found : look position with
    | error fault =>
      rw [scan_fault found, scan_fault found]
      rfl
    | ok answer =>
      cases answer with
      | stop =>
        rw [scan_stop found, scan_stop found]
        rfl
      | failed =>
        rw [scan_failed found, scan_failed found]
        rfl
      | item value =>
        have next : position + 1 + first = position + (first + 1) := by omega
        rw [scan_item found, scan_item found, ih, next]
        cases scan look first (position + 1) with
        | error fault => rfl
        | ok scanned =>
          obtain ⟨items, ending⟩ := scanned
          cases ending with
          | full => cases scan look second (position + (first + 1)) <;> rfl
          | stop => rfl
          | failed => rfl

/-- What a scan returns: the items before the position where it ended. -/
structure Collects (look : Nat → Checked (Found Item)) (count position : Nat)
    (scanned : Scanned Item) : Prop where
  within : scanned.items.length ≤ count
  found : ∀ index < scanned.items.length, ∃ value, look (position + index) = .ok (.item value)
  full_iff : scanned.ending = .full ↔ scanned.items.length = count
  failed : scanned.ending = .failed → look (position + scanned.items.length) = .ok .failed

theorem scan_collects {scanned : Scanned Item} (ran : scan look count position = .ok scanned) :
    Collects look count position scanned := by
  induction count generalizing position scanned with
  | zero =>
    cases ran
    exact ⟨Nat.le_refl _, nofun, by simp, nofun⟩
  | succ count ih =>
    cases found : look position with
    | error fault =>
      rw [scan_fault found] at ran
      cases ran
    | ok answer =>
      cases answer with
      | stop =>
        rw [scan_stop found] at ran
        cases ran
        exact ⟨Nat.zero_le _, nofun, by simp, nofun⟩
      | failed =>
        rw [scan_failed found] at ran
        cases ran
        exact ⟨Nat.zero_le _, nofun, by simp, fun _ => found⟩
      | item value =>
        rw [scan_item found] at ran
        obtain ⟨rest, restRan, joined⟩ := bind_eq_ok.mp ran
        cases joined
        obtain ⟨within, restFound, full_iff, failed⟩ := ih restRan
        refine ⟨Nat.succ_le_succ within, ?_, by simp [full_iff], ?_⟩
        · intro index bound
          cases index with
          | zero => exact ⟨value, found⟩
          | succ index =>
            rw [Nat.add_comm index, ← Nat.add_assoc]
            exact restFound index (Nat.lt_of_succ_lt_succ bound)
        · intro ending
          rw [List.length_cons, Nat.add_comm _ 1, ← Nat.add_assoc]
          exact failed ending

theorem scan_values {value : Nat → Item}
    (found : ∀ index < count, look (position + index) = .ok (.item (value index))) :
    scan look count position = .ok ⟨(List.range count).map value, .full⟩ := by
  induction count with
  | zero => rfl
  | succ count ih =>
    have first := ih fun index bound => found index (Nat.lt_succ_of_lt bound)
    rw [scan_add, first, ok_bind, Scanned.andThen, scan_item (found count (Nat.lt_succ_self _)),
      scan, ok_bind, ok_bind, List.range_succ, List.map_append]
    rfl

theorem scan_items (found : ∀ index < count, ∃ value, look (position + index) = .ok (.item value)) :
    ∃ items, items.length = count ∧ scan look count position = .ok ⟨items, .full⟩ := by
  induction count generalizing position with
  | zero => exact ⟨[], rfl, rfl⟩
  | succ count ih =>
    obtain ⟨value, first⟩ := found 0 (Nat.succ_pos _)
    obtain ⟨items, length, rest⟩ := @ih (position + 1) (by
      intro index bound
      rw [Nat.add_assoc, Nat.add_comm 1]
      exact found (index + 1) (Nat.succ_lt_succ bound))
    refine ⟨value :: items, by rw [List.length_cons, length], ?_⟩
    rw [Nat.add_zero] at first
    rw [scan_item first, rest]
    rfl

theorem scan_fault_behind {before : Nat} {fault : Fault} (inside : before < count)
    (found : ∀ index < before, ∃ value, look (position + index) = .ok (.item value))
    (stuck : look (position + before) = .error fault) :
    scan look count position = .error fault := by
  obtain ⟨items, length, ran⟩ := scan_items found
  obtain ⟨rest, rfl⟩ := Nat.exists_eq_add_of_lt inside
  rw [Nat.add_assoc, scan_add, ran, ok_bind, Scanned.andThen, scan_fault stuck]
  rfl

def FailsBehind (look : Nat → Checked (Found Item)) (position before : Nat) : Prop :=
  look (position + before) = .ok .failed ∧
    ∀ index < before, ∃ value, look (position + index) = .ok (.item value)

theorem scan_failed_iff {before : Nat} :
    (∃ items, items.length = before ∧ scan look count position = .ok ⟨items, .failed⟩) ↔
      before < count ∧ FailsBehind look position before := by
  constructor
  · rintro ⟨items, rfl, ran⟩
    obtain ⟨within, found, full_iff, failed⟩ := scan_collects ran
    have short : items.length ≠ count := fun whole => nomatch full_iff.mpr whole
    exact ⟨Nat.lt_of_le_of_ne within short, failed rfl, found⟩
  · rintro ⟨inside, failed, found⟩
    obtain ⟨items, length, ran⟩ := scan_items found
    obtain ⟨rest, rfl⟩ := Nat.exists_eq_add_of_lt inside
    refine ⟨items, length, ?_⟩
    rw [Nat.add_assoc, scan_add, ran, ok_bind, Scanned.andThen, scan_failed failed, ok_bind,
      List.append_nil]

end Scan

end NanoOs.Scans
