import Mathlib.Data.List.Infix

/-! A relay that hands on a source one block at a time.

A block is read, written away piece by piece, and only then is the next one read. An
empty block is read when nothing is left and says so; once it is gone the relay reports
the end. What has been written is always the beginning of the source, and all of it when
the end is reported (`Relay.Exact`). -/
namespace HyperTransfer

/-- `block` is what is left to write of the block under way, if there is one; `last`
says that it is, or was, the empty one. -/
structure Relay (B : Type) where
  unread : List B
  block : Option (List B)
  last : Bool
  delivered : List B
  reports : Nat

namespace Relay
variable {B : Type}

/-- Before the first block of a source. -/
def start (source : List B) : Relay B :=
  {unread := source, block := none, last := false, delivered := [], reports := 0}

inductive Step : Relay B → Relay B → Prop where
  | stay (a : Relay B) : Step a a
  | load (a : Relay B) (b rest : List B) (hblock : a.block = none) (hlast : a.last = false)
      (hread : a.unread = b ++ rest) (hend : b = [] → rest = []) :
      Step a {a with unread := rest, block := some b, last := b.isEmpty}
  | write (a : Relay B) (b : List B) (k : Nat) (hblock : a.block = some b) :
      Step a {a with block := some (b.drop k), delivered := a.delivered ++ b.take k}
  | finish (a : Relay B) (b : List B) (hblock : a.block = some b) :
      Step a {a with block := none, delivered := a.delivered ++ b}
  | report (a : Relay B) (hblock : a.block = none) (hlast : a.last = true) (hreports : a.reports = 0) :
      Step a {a with reports := 1}

/-- Every element of the source is accounted for, in order. -/
structure Exact (source : List B) (a : Relay B) : Prop where
  accounted : a.delivered ++ a.block.getD [] ++ a.unread = source
  ended : a.last = true → a.block.getD [] = [] ∧ a.unread = []
  reported : a.reports ≠ 0 → a.last = true
  once : a.reports ≤ 1

theorem exact_start (source : List B) : (start source).Exact source where
  accounted := rfl
  ended h := nomatch h
  reported h := absurd rfl h
  once := Nat.zero_le 1

theorem exact_step {source : List B} {a b : Relay B} (h : Step a b) (ha : a.Exact source) : b.Exact source := by
  cases h with
  | stay => exact ha
  | load blk rest hblock hlast hread hend =>
    have haccounted := ha.accounted
    rw [hblock, Option.getD_none, List.append_nil, hread] at haccounted
    refine ⟨?_, ?_, ?_, ha.once⟩
    · rwa [Option.getD_some, List.append_assoc]
    · intro hempty
      have hnil : blk = [] := List.isEmpty_iff.mp hempty
      exact ⟨hnil, hend hnil⟩
    · intro hreports
      rw [ha.reported hreports] at hlast
      exact nomatch hlast
  | write blk k hblock =>
    have haccounted := ha.accounted
    rw [hblock, Option.getD_some] at haccounted
    refine ⟨?_, ?_, ha.reported, ha.once⟩
    · rwa [Option.getD_some, List.append_assoc a.delivered, List.take_append_drop]
    · intro hlast
      obtain ⟨hnil, hunread⟩ := ha.ended hlast
      rw [hblock, Option.getD_some] at hnil
      exact ⟨by rw [Option.getD_some, hnil, List.drop_nil], hunread⟩
  | finish blk hblock =>
    have haccounted := ha.accounted
    rw [hblock, Option.getD_some] at haccounted
    refine ⟨?_, fun hlast => ⟨rfl, (ha.ended hlast).2⟩, ha.reported, ha.once⟩
    rwa [Option.getD_none, List.append_nil]
  | report hblock hlast hreports =>
    exact ⟨ha.accounted, ha.ended, fun _ => hlast, Nat.le_refl 1⟩

/-- What has been written is the beginning of the source. -/
theorem Exact.delivered_front {source : List B} {a : Relay B} (ha : a.Exact source) : a.delivered <+: source := by
  rw [← ha.accounted, List.append_assoc]
  exact List.prefix_append ..

/-- When the end has been reported, all of it has been written. -/
theorem Exact.complete {source : List B} {a : Relay B} (ha : a.Exact source) (h : a.reports ≠ 0) :
    a.delivered = source := by
  obtain ⟨hblock, hunread⟩ := ha.ended (ha.reported h)
  have haccounted := ha.accounted
  rwa [hblock, hunread, List.append_nil, List.append_nil] at haccounted

end Relay
end HyperTransfer
