import Mathlib.Data.List.Infix

/-! A queue of blocks that is written away a piece at a time.

Blocks are posted at the end. The first one that is not done is written from where the last
piece ended, and is done with the piece that takes the rest of it. What has been written is
always the beginning of what has been posted (`Faithful.front`), and a block is done exactly
when the last of it has been written (`Faithful.done_iff`). -/
namespace HyperTransfer

/-- `offset` counts what is written of the first block that is not done. -/
structure Outbox (B : Type) where
  posted : List (List B)
  done : Nat
  offset : Nat
  written : List B

namespace Outbox
variable {B : Type} {a b : Outbox B}

def start : Outbox B := {posted := [], done := 0, offset := 0, written := []}

/-- The block under way. -/
def block (a : Outbox B) : List B := a.posted[a.done]?.getD []

inductive Step : Outbox B → Outbox B → Prop where
  | stay (a : Outbox B) : Step a a
  | post (a : Outbox B) (block : List B) : Step a {a with posted := a.posted ++ [block]}
  | write (a : Outbox B) (k : Nat) (hleft : a.offset + k < a.block.length) :
      Step a {a with offset := a.offset + k, written := a.written ++ (a.block.drop a.offset).take k}
  | finish (a : Outbox B) (hposted : a.done < a.posted.length) :
      Step a {a with done := a.done + 1, offset := 0, written := a.written ++ a.block.drop a.offset}

/-- What has been written is the blocks that are done and the front of the one under way, which
is not done. -/
structure Faithful (a : Outbox B) : Prop where
  done : a.done ≤ a.posted.length
  written : a.written = (a.posted.take a.done).flatten ++ a.block.take a.offset
  unfinished : a.offset = 0 ∨ a.offset < a.block.length

theorem faithful_start : (start : Outbox B).Faithful := ⟨Nat.le_refl 0, rfl, Or.inl rfl⟩

theorem take_succ (a : Outbox B) (hposted : a.done < a.posted.length) :
    (a.posted.take (a.done + 1)).flatten = (a.posted.take a.done).flatten ++ a.block := by
  rw [← List.take_append_getElem hposted, List.flatten_append, List.flatten_singleton, block,
    List.getElem?_eq_getElem hposted, Option.getD_some]

/-- There is something in the block under way only if there is one. -/
theorem posted_of_block {n : Nat} (h : n < a.block.length) : a.done < a.posted.length := by
  by_contra hnone
  rw [block, List.getElem?_eq_none (Nat.le_of_not_lt hnone)] at h
  exact absurd h (Nat.not_lt_zero n)

theorem faithful_step (h : Step a b) (ha : a.Faithful) : b.Faithful := by
  cases h with
  | stay => exact ha
  | post new =>
    have hdone : a.done ≤ (a.posted ++ [new]).length := by
      rw [List.length_append]
      exact Nat.le_add_right_of_le ha.done
    have htake : (a.posted ++ [new]).take a.done = a.posted.take a.done := List.take_append_of_le_length ha.done
    have hwritten := ha.written
    rcases ha.unfinished with hzero | hpart
    · refine ⟨hdone, ?_, Or.inl hzero⟩
      rw [hzero, List.take_zero, List.append_nil] at hwritten
      rw [htake, hzero, List.take_zero, List.append_nil, hwritten]
    · -- the block under way stays the first that is not done
      have hblock : block {a with posted := a.posted ++ [new]} = a.block := by
        rw [block, List.getElem?_append_left (posted_of_block hpart)]
        rfl
      refine ⟨hdone, ?_, Or.inr ?_⟩
      · rw [htake, hblock, hwritten]
      · rw [hblock]
        exact hpart
  | write k hleft =>
    refine ⟨ha.done, ?_, Or.inr hleft⟩
    show a.written ++ _ = _ ++ a.block.take (a.offset + k)
    rw [ha.written, List.append_assoc, List.take_add]
  | finish hposted =>
    refine ⟨hposted, ?_, Or.inl rfl⟩
    rw [take_succ a hposted, List.take_zero, List.append_nil, ha.written, List.append_assoc, List.take_append_drop]

/-- What has been written is the beginning of what was posted. -/
theorem Faithful.front (ha : a.Faithful) : a.written <+: a.posted.flatten := by
  rw [ha.written]
  by_cases hposted : a.done < a.posted.length
  · have hsplit : a.posted.flatten =
        (a.posted.take a.done).flatten ++ a.block ++ (a.posted.drop (a.done + 1)).flatten := by
      rw [← take_succ a hposted, ← List.flatten_append, List.take_append_drop]
    rw [hsplit]
    exact (List.prefix_append_right_inj _).mpr (List.take_prefix ..) |>.trans (List.prefix_append ..)
  · have hall : a.posted.take a.done = a.posted := List.take_of_length_le (Nat.le_of_not_lt hposted)
    have hnone : a.block = [] := by
      rw [block, List.getElem?_eq_none (Nat.le_of_not_lt hposted)]
      rfl
    rw [hall, hnone, List.take_nil, List.append_nil]

/-- A block that has anything in it is done exactly when all of it has been written. -/
theorem Faithful.done_iff (ha : a.Faithful) {k : Nat} {block : List B} (hblock : a.posted[k]? = some block)
    (hne : block ≠ []) : k < a.done ↔ (a.posted.take (k + 1)).flatten <+: a.written := by
  have hmore {m n : Nat} (hle : m ≤ n) : (a.posted.take m).flatten <+: (a.posted.take n).flatten := by
    obtain ⟨rest, hrest⟩ := List.take_prefix_take_left hle (l := a.posted)
    rw [← hrest, List.flatten_append]
    exact List.prefix_append ..
  constructor
  · intro hdone
    rw [ha.written]
    exact (hmore hdone).trans (List.prefix_append ..)
  · intro hwritten
    by_contra hnot
    have hle := hwritten.length_le
    have hlen := congrArg List.length ha.written
    rw [List.length_append, List.length_take] at hlen
    rcases ha.unfinished with hzero | hpart
    · obtain ⟨hk, hget⟩ := List.getElem?_eq_some_iff.mp hblock
      have hsplit : (a.posted.take (k + 1)).flatten = (a.posted.take k).flatten ++ block := by
        rw [← List.take_append_getElem hk, hget, List.flatten_append, List.flatten_singleton]
      rw [hsplit, List.length_append] at hle
      have hbefore := (hmore (Nat.le_of_not_lt hnot)).length_le
      have hpos := List.length_pos_iff.mpr hne
      omega
    · have hunder := congrArg List.length (take_succ a (posted_of_block hpart))
      rw [List.length_append] at hunder
      have hbefore : (a.posted.take (a.done + 1)).flatten.length ≤ (a.posted.take (k + 1)).flatten.length :=
        (hmore (by omega)).length_le
      omega

end Outbox
end HyperTransfer
