import Mathlib.Tactic.SplitIfs
import Oscilloscope.Ring

/-!
# Oscilloscope.Proofs.Ring.Contents

A ring is a bounded queue: what it holds is `Ring.contents`, oldest first, and the positions of its
two ends do not show.

Element `i` of the contents stands in slot `Ring.slot i`, counted from the read end on and over the
end of the slots. The two bulk copies are compared with that, place by place.

* `Ring.push_spec`: a push takes the longest prefix that fits and puts it behind the contents.
* `Ring.pop_spec`: a pop takes the oldest elements off.
* `Ring.length_contents`, `Ring.length_add_free`: the two counts say what they should.
-/

namespace Oscilloscope.Ring

variable {α : Type} {r : Ring α} {slots values : List α}

/-- Both ends point at a slot. -/
structure Valid (r : Ring α) : Prop where
  head_lt : r.head < r.slotCount
  tail_lt : r.tail < r.slotCount

/-- The slot that is `i` places behind the read end. -/
def slot (r : Ring α) (i : Nat) : Nat :=
  if r.tail + i < r.slotCount then r.tail + i else r.tail + i - r.slotCount

/-- An index that has run over the end at most once is brought back by one subtraction. -/
theorem mod_of_lt_double {a n : Nat} (h : a < 2 * n) : a % n = if a < n then a else a - n := by
  split
  · exact Nat.mod_eq_of_lt ‹_›
  · rw [Nat.mod_eq_sub_mod (by omega), Nat.mod_eq_of_lt (by omega)]

/-! ## The two counts -/

namespace Valid

theorem length_add_free (h : r.Valid) : r.length + r.free = r.capacity := by
  obtain ⟨h₁, h₂⟩ := h
  unfold Ring.length free capacity
  split <;> omega

theorem length_le (h : r.Valid) : r.length ≤ r.capacity := by
  have := h.length_add_free
  omega

theorem length_lt (h : r.Valid) : r.length < r.slotCount := by
  have := h.length_le
  have := h.head_lt
  unfold capacity at *
  omega

end Valid

/-! ## Reading -/

theorem length_peek {n : Nat} (h : r.Valid) (hn : n ≤ r.slotCount) : (r.peek n).length = n := by
  have := h.tail_lt
  unfold slotCount at *
  simp only [peek, slotCount, List.length_append, List.length_take, List.length_drop]
  omega

theorem getElem?_peek {n i : Nat} (h : r.Valid) (hn : n ≤ r.slotCount) :
    (r.peek n)[i]? = if i < n then r.slots[r.slot i]? else none := by
  have ht := h.tail_lt
  have hlen := length_peek h hn
  split
  · rename_i hi
    have hfirst : ((r.slots.drop r.tail).take (min n (r.slotCount - r.tail))).length =
        min n (r.slotCount - r.tail) := by
      simp only [List.length_take, List.length_drop, slotCount]
      omega
    unfold peek slot
    rw [List.getElem?_append, hfirst]
    by_cases hw : r.tail + i < r.slotCount
    · rw [if_pos (by omega), if_pos hw, List.getElem?_take, if_pos (by omega), List.getElem?_drop]
    · rw [if_neg (by omega), if_neg hw, List.getElem?_take, if_pos (by omega)]
      congr 1
      omega
  · exact List.getElem?_eq_none (by omega)

theorem length_contents (h : r.Valid) : r.contents.length = r.length :=
  length_peek h (Nat.le_of_lt h.length_lt)

theorem getElem?_contents {i : Nat} (h : r.Valid) :
    r.contents[i]? = if i < r.length then r.slots[r.slot i]? else none :=
  getElem?_peek h (Nat.le_of_lt h.length_lt)

/-- Looking at fewer elements shows the oldest ones. -/
theorem peek_eq_take {n : Nat} (h : r.Valid) (hn : n ≤ r.length) :
    r.peek n = r.contents.take n := by
  have := h.length_lt
  apply List.ext_getElem?
  intro i
  rw [getElem?_peek h (by omega), List.getElem?_take, getElem?_contents h]
  by_cases hi : i < n
  · rw [if_pos hi, if_pos hi, if_pos (by omega)]
  · rw [if_neg hi, if_neg hi]

/-! ## Writing over slots -/

theorem length_overwrite {start : Nat} (h : start + values.length ≤ slots.length) :
    (overwrite slots start values).length = slots.length := by
  simp only [overwrite, List.length_append, List.length_take, List.length_drop]
  omega

theorem getElem?_overwrite {start j : Nat} (h : start + values.length ≤ slots.length) :
    (overwrite slots start values)[j]? =
      if start ≤ j ∧ j < start + values.length then values[j - start]? else slots[j]? := by
  have hs : (slots.take start).length = start := by rw [List.length_take]; omega
  unfold overwrite
  rw [List.append_assoc, List.getElem?_append, hs, List.getElem?_append, List.getElem?_drop]
  split_ifs with h₁ h₂ h₃ h₄
  · omega
  · rw [List.getElem?_take, if_pos h₁]
  · rfl
  · omega
  · omega
  · congr 1
    omega

/-! ## One write -/

/-- The ring with `values` written from the write end on, over the end of the slots. -/
def write (r : Ring α) (values : List α) : Ring α :=
  let first := min values.length (r.slotCount - r.head)
  { r with
    slots := overwrite (overwrite r.slots r.head (values.take first)) 0 (values.drop first)
    head := (r.head + values.length) % r.slotCount }

/-- A push is one write of what fits; that nothing may fit is no case of its own. -/
theorem push_eq (h : r.Valid) (values : List α) :
    r.push values = (min values.length r.free, r.write (values.take r.free)) := by
  unfold push write
  rw [List.length_take, Nat.min_comm r.free]
  generalize hn : min values.length r.free = n
  have htake : values.take r.free = values.take n := by
    rw [← hn, List.take_eq_take_iff]
    omega
  rw [htake]
  by_cases h0 : n = 0
  · subst h0
    simp [overwrite, Nat.mod_eq_of_lt h.head_lt]
  · have hfirst : min n (r.slotCount - r.head) ≤ n := Nat.min_le_left _ _
    simp only [if_neg h0, List.take_take, List.drop_take, Nat.min_eq_left hfirst]

namespace Valid

theorem free_lt (h : r.Valid) : r.free < r.slotCount := by
  have := h.length_add_free
  have := h.head_lt
  unfold capacity at *
  omega

theorem slotCount_write (h : r.Valid) (hfit : values.length ≤ r.free) :
    (r.write values).slotCount = r.slotCount := by
  have := h.head_lt
  have := h.free_lt
  unfold slotCount at *
  simp only [write, slotCount]
  rw [length_overwrite, length_overwrite]
  · simp only [List.length_take]
    omega
  · rw [length_overwrite]
    · simp only [List.length_drop]
      omega
    · simp only [List.length_take]
      omega

/-- What a slot holds after a write: a value in front of the end of the slots, one behind it, or
what it held before. -/
theorem getElem?_slots_write (h : r.Valid) (hfit : values.length ≤ r.free) (j : Nat) :
    (r.write values).slots[j]? =
      if j + r.slotCount < r.head + values.length then values[j + r.slotCount - r.head]?
      else if r.head ≤ j ∧ j < min (r.head + values.length) r.slotCount then values[j - r.head]?
      else r.slots[j]? := by
  have := h.head_lt
  have := h.free_lt
  have hs : r.slotCount = r.slots.length := rfl
  have h₁ : (values.take (min values.length (r.slotCount - r.head))).length =
      min values.length (r.slotCount - r.head) := by
    rw [List.length_take]
    omega
  have h₂ : (values.drop (min values.length (r.slotCount - r.head))).length =
      values.length - min values.length (r.slotCount - r.head) := List.length_drop
  unfold write
  rw [getElem?_overwrite, getElem?_overwrite, h₁, h₂]
  · by_cases hback : j + r.slotCount < r.head + values.length
    · rw [if_pos hback, if_pos (by omega), List.getElem?_drop]
      congr 1
      omega
    · rw [if_neg hback, if_neg (by omega)]
      by_cases hfront : r.head ≤ j ∧ j < min (r.head + values.length) r.slotCount
      · rw [if_pos hfront, if_pos (by omega), List.getElem?_take, if_pos (by omega)]
      · rw [if_neg hfront, if_neg (by omega)]
  · rw [h₁]
    omega
  · rw [h₂, length_overwrite]
    · omega
    · rw [h₁]
      omega

protected theorem write (h : r.Valid) (hfit : values.length ≤ r.free) : (r.write values).Valid where
  head_lt := by
    rw [h.slotCount_write hfit]
    exact Nat.mod_lt _ (Nat.zero_lt_of_lt h.head_lt)
  tail_lt := by
    rw [h.slotCount_write hfit]
    exact h.tail_lt

theorem length_write (h : r.Valid) (hfit : values.length ≤ r.free) :
    (r.write values).length = r.length + values.length := by
  have hcount := h.slotCount_write hfit
  have hfree := h.free_lt
  obtain ⟨h₁, h₂⟩ := h
  unfold Ring.length free at *
  rw [hcount]
  simp only [write, mod_of_lt_double (show r.head + values.length < 2 * r.slotCount by omega)]
  split_ifs at * <;> omega

/-- The slots of the contents are not written on. -/
theorem slots_write_of_lt (h : r.Valid) (hfit : values.length ≤ r.free) {i : Nat}
    (hi : i < r.length) : (r.write values).slots[r.slot i]? = r.slots[r.slot i]? := by
  rw [h.getElem?_slots_write hfit]
  obtain ⟨h₁, h₂⟩ := h
  unfold Ring.length free slot at *
  rw [if_neg (by split_ifs at * <;> omega), if_neg (by split_ifs at * <;> omega)]

/-- The values stand in the slots behind the contents. -/
theorem slots_write_of_le (h : r.Valid) (hfit : values.length ≤ r.free) {i : Nat}
    (hi : i < values.length) : (r.write values).slots[r.slot (r.length + i)]? = values[i]? := by
  rw [h.getElem?_slots_write hfit]
  obtain ⟨h₁, h₂⟩ := h
  unfold Ring.length free slot at *
  by_cases hback : r.slotCount ≤ r.head + i
  · rw [if_pos (by split_ifs at * <;> omega)]
    congr 1
    split_ifs at * <;> omega
  · rw [if_neg (by split_ifs at * <;> omega), if_pos (by split_ifs at * <;> omega)]
    congr 1
    split_ifs at * <;> omega

theorem contents_write (h : r.Valid) (hfit : values.length ≤ r.free) :
    (r.write values).contents = r.contents ++ values := by
  have hslot (i : Nat) : (r.write values).slot i = r.slot i := by
    unfold slot
    rw [h.slotCount_write hfit]
    rfl
  apply List.ext_getElem?
  intro i
  rw [getElem?_contents (h.write hfit), h.length_write hfit, hslot, List.getElem?_append,
    length_contents h, getElem?_contents h]
  by_cases hold : i < r.length
  · rw [if_pos (by omega), if_pos hold, if_pos hold, h.slots_write_of_lt hfit hold]
  · rw [if_neg hold]
    obtain ⟨k, rfl⟩ : ∃ k, i = r.length + k := ⟨i - r.length, by omega⟩
    rw [Nat.add_sub_cancel_left]
    by_cases hnew : k < values.length
    · rw [if_pos (by omega), h.slots_write_of_le hfit hnew]
    · rw [if_neg (by omega), List.getElem?_eq_none (by omega)]

end Valid

/-- A push takes the longest prefix that fits and puts it behind the contents. -/
theorem push_spec (h : r.Valid) (values : List α) :
    ∃ r', r.push values = (min values.length r.free, r') ∧ r'.Valid ∧
      r'.contents = r.contents ++ values.take r.free ∧ r'.capacity = r.capacity ∧
      r'.closed = r.closed := by
  have hfit : (values.take r.free).length ≤ r.free := List.length_take_le _ _
  refine ⟨r.write (values.take r.free), push_eq h values, h.write hfit, h.contents_write hfit, ?_,
    rfl⟩
  unfold capacity
  rw [h.slotCount_write hfit]

/-! ## Taking off -/

/-- The ring with the `n` oldest elements gone. -/
def advance (r : Ring α) (n : Nat) : Ring α := { r with tail := (r.tail + n) % r.slotCount }

theorem discard_eq (h : r.Valid) (limit : Nat) :
    r.discard limit = (min r.length limit, r.advance (min r.length limit)) := by
  unfold discard advance
  by_cases h0 : min r.length limit = 0
  · simp [h0, Nat.mod_eq_of_lt h.tail_lt]
  · simp only [if_neg h0]

namespace Valid

protected theorem advance (h : r.Valid) (n : Nat) : (r.advance n).Valid where
  head_lt := h.head_lt
  tail_lt := Nat.mod_lt _ (Nat.zero_lt_of_lt h.tail_lt)

theorem length_advance (h : r.Valid) {n : Nat} (hn : n ≤ r.length) :
    (r.advance n).length = r.length - n := by
  obtain ⟨h₁, h₂⟩ := h
  unfold Ring.length advance slotCount at *
  simp only
  rw [mod_of_lt_double (by split_ifs at hn <;> omega)]
  split_ifs at * <;> omega

theorem slot_advance (h : r.Valid) {n i : Nat} (hi : n + i < r.length) :
    (r.advance n).slot i = r.slot (n + i) := by
  have := h.length_lt
  obtain ⟨h₁, h₂⟩ := h
  unfold advance slot slotCount at *
  simp only
  rw [mod_of_lt_double (by omega)]
  split_ifs <;> omega

theorem contents_advance (h : r.Valid) {n : Nat} (hn : n ≤ r.length) :
    (r.advance n).contents = r.contents.drop n := by
  apply List.ext_getElem?
  intro i
  rw [getElem?_contents (h.advance n), h.length_advance hn, List.getElem?_drop,
    getElem?_contents h]
  by_cases hi : n + i < r.length
  · rw [if_pos (by omega), if_pos hi, h.slot_advance hi]
    rfl
  · rw [if_neg (by omega), if_neg hi]

end Valid

/-- A pop takes the oldest elements off, as many as asked for or all there are. -/
theorem pop_spec (h : r.Valid) (limit : Nat) :
    ∃ r', r.pop limit = (r.contents.take limit, r') ∧ r'.Valid ∧
      r'.contents = r.contents.drop limit ∧ r'.capacity = r.capacity ∧ r'.closed = r.closed := by
  have hn : min r.length limit ≤ r.length := Nat.min_le_left _ _
  refine ⟨r.advance (min r.length limit), ?_, h.advance _, ?_, rfl, rfl⟩
  · unfold pop
    rw [discard_eq h, peek_eq_take h hn, ← length_contents h, Nat.min_comm,
      ← List.take_eq_take_min]
  · rw [h.contents_advance hn, ← length_contents h]
    rcases Nat.le_total limit r.contents.length with hle | hle
    · rw [Nat.min_eq_right hle]
    · rw [Nat.min_eq_left hle, List.drop_length, List.drop_of_length_le hle]

/-! ## The ends of a life -/

theorem new_valid (capacity : Nat) (filler : α) : (new capacity filler).Valid := by
  constructor <;> simp [new, slotCount]

theorem capacity_new (capacity : Nat) (filler : α) :
    (new capacity filler).capacity = max capacity 1 := by
  simp [new, Ring.capacity, slotCount]

theorem contents_new (capacity : Nat) (filler : α) : (new capacity filler).contents = [] := by
  simp [new, contents, peek, Ring.length]

theorem Valid.close (h : r.Valid) : r.close.Valid := ⟨h.head_lt, h.tail_lt⟩

end Oscilloscope.Ring
