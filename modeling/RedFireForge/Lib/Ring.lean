/-
# `RedFireForge.Lib.Ring` — a ring buffer is a bounded queue

An array of a fixed capacity, the index of its oldest element and the number of elements.
Read from the oldest on, it is a list to which a push appends; at capacity, the oldest
element goes.
-/
import Mathlib.Data.List.Rotate

namespace RedFireForge.Lib

/-- The array grows up to its capacity before its head moves. -/
structure Ring (α : Type*) (cap : ℕ) where
  buffer : List α
  head : ℕ
  count : ℕ
  filled : buffer.length = count
  bounded : count ≤ cap
  wrapped : head = 0 ∨ count = cap ∧ head < cap

namespace Ring

variable {α β : Type*} {cap : ℕ}

def empty : Ring α cap := ⟨[], 0, 0, rfl, Nat.zero_le _, Or.inl rfl⟩

def ofList (l : List α) (h : l.length ≤ cap) : Ring α cap := ⟨l, 0, l.length, rfl, h, Or.inl rfl⟩

/-- From the oldest element on. -/
def toList (r : Ring α cap) : List α :=
  (List.range r.count).filterMap fun i => r.buffer[(r.head + i) % cap]?

/-- `buffer[i] = x`, at an index up to the length. -/
def assign (l : List α) (i : ℕ) (x : α) : List α := if i < l.length then l.set i x else l ++ [x]

theorem next_index (r : Ring α cap) (h : r.count < cap) :
    (r.head + r.count) % cap = r.buffer.length := by
  have hhead : r.head = 0 := r.wrapped.resolve_right fun hw => h.ne hw.1
  rw [hhead, Nat.zero_add, Nat.mod_eq_of_lt h, r.filled]

theorem head_lt (r : Ring α cap) (hcap : 0 < cap) : r.head < cap := by
  rcases r.wrapped with h | h
  · exact h ▸ hcap
  · exact h.2

def push (r : Ring α cap) (hcap : 0 < cap) (x : α) : Ring α cap :=
  if h : r.count < cap then
    { buffer := assign r.buffer ((r.head + r.count) % cap) x
      head := r.head
      count := r.count + 1
      filled := by
        rw [r.next_index h, assign, if_neg (Nat.lt_irrefl _), List.length_append, r.filled]
        rfl
      bounded := h
      wrapped := Or.inl (r.wrapped.resolve_right fun hw => h.ne hw.1) }
  else
    { buffer := r.buffer.set r.head x
      head := (r.head + 1) % cap
      count := r.count
      filled := by rw [List.length_set, r.filled]
      bounded := r.bounded
      wrapped := Or.inr ⟨r.bounded.antisymm (not_lt.mp h), Nat.mod_lt _ hcap⟩ }

/-- The elements are replaced where they stand. -/
def withList (r : Ring α cap) (l : List β) (h : l.length = r.count) : Ring β cap :=
  { buffer := l.rotate (r.count - r.head)
    head := r.head
    count := r.count
    filled := by rw [List.length_rotate, h]
    bounded := r.bounded
    wrapped := r.wrapped }

variable {r : Ring α cap} {x : α}

theorem toList_eq : r.toList = r.buffer.rotate r.head := by
  have hget : ∀ i < r.count, r.buffer[(r.head + i) % cap]? = (r.buffer.rotate r.head)[i]? := by
    intro i hi
    rw [List.getElem?_rotate (by rw [r.filled]; exact hi), r.filled, Nat.add_comm r.head]
    rcases r.wrapped with h | h
    · rw [h, Nat.add_zero, Nat.mod_eq_of_lt hi, Nat.mod_eq_of_lt (hi.trans_le r.bounded)]
    · rw [h.1]
  have hlen : (r.buffer.rotate r.head).length = r.count := by rw [List.length_rotate, r.filled]
  have hmap : r.toList =
      (List.range (r.buffer.rotate r.head).length).filterMap ((r.buffer.rotate r.head)[·]?) := by
    rw [toList, hlen]
    exact List.filterMap_congr fun i hi => hget i (List.mem_range.mp hi)
  rw [hmap]
  generalize r.buffer.rotate r.head = l
  induction l with
  | nil => rfl
  | cons a l ih =>
      rw [List.length_cons, List.range_succ_eq_map, List.filterMap_cons]
      simp only [List.getElem?_cons_zero, List.filterMap_map]
      exact congrArg (a :: ·) ih

theorem length_toList : r.toList.length = r.count := by
  rw [toList_eq, List.length_rotate, r.filled]

@[simp] theorem toList_empty : (empty : Ring α cap).toList = [] := rfl

@[simp] theorem toList_ofList {l : List α} (h : l.length ≤ cap) : (ofList l h).toList = l := by
  rw [toList_eq]
  exact List.rotate_zero l

theorem head_le (r : Ring α cap) : r.head ≤ r.count := by
  rcases r.wrapped with h | h
  · exact h.le.trans (Nat.zero_le _)
  · exact h.2.le.trans_eq h.1.symm

@[simp] theorem toList_withList {l : List β} (h : l.length = r.count) :
    (r.withList l h).toList = l := by
  rw [toList_eq]
  show (l.rotate (r.count - r.head)).rotate r.head = l
  rw [List.rotate_rotate, Nat.sub_add_cancel r.head_le, ← h, List.rotate_length]

theorem toList_push_of_lt (hcap : 0 < cap) (h : r.count < cap) :
    (r.push hcap x).toList = r.toList ++ [x] := by
  have hhead : r.head = 0 := r.wrapped.resolve_right fun hw => h.ne hw.1
  rw [toList_eq, toList_eq, push, dif_pos h]
  dsimp only
  rw [r.next_index h, assign, if_neg (Nat.lt_irrefl _), hhead, List.rotate_zero, List.rotate_zero]

theorem toList_push_full (hcap : 0 < cap) (h : r.count = cap) :
    (r.push hcap x).toList = r.toList.tail ++ [x] := by
  have hlen : r.buffer.length = cap := r.filled.trans h
  have hhead : r.head < r.buffer.length := (r.head_lt hcap).trans_eq hlen.symm
  have hmod : (r.buffer.set r.head x).rotate ((r.head + 1) % cap) =
      (r.buffer.set r.head x).rotate (r.head + 1) := by
    rw [← List.rotate_mod _ (r.head + 1), List.length_set, hlen]
  have hold : (r.buffer.rotate r.head).tail =
      r.buffer.drop (r.head + 1) ++ r.buffer.take r.head := by
    rw [List.rotate_eq_drop_append_take hhead.le, List.drop_eq_getElem_cons hhead]
    rfl
  rw [toList_eq, toList_eq, hold, push, dif_neg (not_lt.mpr h.ge)]
  dsimp only
  rw [hmod, List.rotate_eq_drop_append_take (by rw [List.length_set]; exact hhead),
    List.drop_set_of_lt (Nat.lt_succ_self _), List.take_add_one, List.take_set_of_le le_rfl,
    List.getElem?_set_self hhead]
  simp

end Ring

end RedFireForge.Lib
