import Mathlib.Data.List.Infix

/-! A stream of messages that show where they end.

A reader gathers what comes until it `ends`, hands that on and begins anew. A message is what ends
and has no beginning that does (`Message`). Messages sent one after the other are read back, and of
a beginning of such a stream those that are there as a whole (`read_front`); in what pieces the
stream comes makes no difference (`feed_append`). Messages may be made of messages: then
one reader reads what the other hands on (`read_nested`). -/
namespace HyperTransfer.Messages

section
variable {A : Type} (ends : List A → Bool)

/-- A reader that has gathered `part` is fed: what it hands on, and what it has gathered then. -/
def feed (part : List A) : List A → List (List A) × List A
  | [] => ([], part)
  | a :: rest =>
    if ends (part ++ [a]) then ((part ++ [a]) :: (feed [] rest).1, (feed [] rest).2) else feed (part ++ [a]) rest

/-- The messages of a stream. -/
def read (stream : List A) : List (List A) := (feed ends [] stream).1

structure Message (text : List A) : Prop where
  nonempty : text ≠ []
  whole : ends text = true
  first : ∀ part, part ≠ [] → part <+: text → part ≠ text → ends part = false

end

section
variable {A : Type} {ends : List A → Bool} {part text stream : List A} {ms : List (List A)}

theorem feed_ends {a : A} (h : ends (part ++ [a]) = true) (rest : List A) :
    feed ends part (a :: rest) = ((part ++ [a]) :: (feed ends [] rest).1, (feed ends [] rest).2) := if_pos h

theorem feed_goes {a : A} (h : ends (part ++ [a]) = false) (rest : List A) :
    feed ends part (a :: rest) = feed ends (part ++ [a]) rest := if_neg (by rw [h]; exact Bool.false_ne_true)

/-- In what pieces the stream comes makes no difference. -/
theorem feed_append (part a b : List A) : feed ends part (a ++ b) =
    ((feed ends part a).1 ++ (feed ends (feed ends part a).2 b).1, (feed ends (feed ends part a).2 b).2) := by
  induction a generalizing part with
  | nil => rfl
  | cons x rest ih =>
    rw [List.cons_append]
    cases hends : ends (part ++ [x]) with
    | true =>
      rw [feed_ends hends, feed_ends hends, ih]
      rfl
    | false =>
      rw [feed_goes hends, feed_goes hends]
      exact ih _

/-- What does not end is gathered. -/
theorem feed_gathers (h : ∀ p, p ≠ [] → p <+: text → ends (part ++ p) = false) :
    feed ends part text = ([], part ++ text) := by
  induction text generalizing part with
  | nil => rw [List.append_nil, feed]
  | cons a rest ih =>
    have hfirst : ends (part ++ [a]) = false := h [a] (List.cons_ne_nil _ _) (List.prefix_append ..)
    rw [feed_goes hfirst, ih, List.append_assoc, List.singleton_append]
    intro p _ hprefix
    rw [List.append_assoc, List.singleton_append]
    exact h (a :: p) (List.cons_ne_nil _ _) (List.cons_prefix_cons.mpr ⟨rfl, hprefix⟩)

/-- Less than a message is gathered. -/
theorem feed_part (h : Message ends text) (hpart : part <+: text) (hne : part ≠ text) :
    feed ends [] part = ([], part) := by
  refine feed_gathers fun p hp hstarts => h.first p hp (hstarts.trans hpart) fun heq => hne ?_
  rw [heq] at hstarts
  exact hpart.eq_of_length (Nat.le_antisymm hpart.length_le hstarts.length_le)

/-- A message is handed on. -/
theorem feed_message (h : Message ends text) : feed ends [] text = ([text], []) := by
  cases text using List.reverseRecOn with
  | nil => exact absurd rfl h.nonempty
  | append_singleton body a _ =>
    have hbody := feed_part h (List.prefix_append ..) (by simp)
    rw [feed_append, hbody, feed_ends h.whole]
    rfl

/-- **Of a beginning of a stream of messages, those that are there as a whole are read**, and the rest is gathered. -/
theorem read_front (h : ∀ m ∈ ms, Message ends m) (hstream : stream <+: ms.flatten) :
    read ends stream <+: ms ∧ stream = (read ends stream).flatten ++ (feed ends [] stream).2 := by
  induction ms generalizing stream with
  | nil =>
    rw [List.prefix_nil.mp hstream]
    exact ⟨List.prefix_refl _, rfl⟩
  | cons m rest ih =>
    obtain ⟨hm, hrest⟩ := List.forall_mem_cons.mp h
    rw [List.flatten_cons] at hstream
    rcases List.prefix_or_prefix_of_prefix hstream (List.prefix_append m rest.flatten) with hpart | ⟨more, rfl⟩
    · by_cases hwhole : stream = m
      · rw [hwhole, read, feed_message hm]
        exact ⟨List.cons_prefix_cons.mpr ⟨rfl, List.nil_prefix⟩, by simp⟩
      · rw [read, feed_part hm hpart hwhole]
        exact ⟨List.nil_prefix, rfl⟩
    · obtain ⟨hread, hsame⟩ := ih hrest ((List.prefix_append_right_inj m).mp hstream)
      rw [read, feed_append, feed_message hm]
      refine ⟨List.cons_prefix_cons.mpr ⟨rfl, hread⟩, ?_⟩
      show m ++ more = m ++ (read ends more).flatten ++ (feed ends [] more).2
      rw [List.append_assoc, ← hsame]

/-- The stream as a whole is read back. -/
theorem read_flatten (h : ∀ m ∈ ms, Message ends m) : read ends ms.flatten = ms := by
  induction ms with
  | nil => rfl
  | cons m rest ih =>
    obtain ⟨hm, hrest⟩ := List.forall_mem_cons.mp h
    rw [List.flatten_cons, read, feed_append, feed_message hm]
    exact congrArg (m :: ·) (ih hrest)

end

/-! ### Messages of messages -/

section
variable {A : Type} {ends : List A → Bool} {groups : List (List A) → Bool} {gs : List (List (List A))} {stream : List A}

/-- **Groups of messages are read back**, and of a beginning those that are there as a whole. -/
theorem read_nested (hgroups : ∀ g ∈ gs, Message groups g ∧ ∀ m ∈ g, Message ends m) :
    (stream <+: (gs.map List.flatten).flatten → read groups (read ends stream) <+: gs) ∧
      read groups (read ends (gs.map List.flatten).flatten) = gs := by
  have hmessages : ∀ m ∈ gs.flatten, Message ends m := by
    intro m hm
    obtain ⟨g, hg, hm⟩ := List.mem_flatten.mp hm
    exact (hgroups g hg).2 m hm
  have hflat : (gs.map List.flatten).flatten = gs.flatten.flatten := List.flatten_flatten.symm
  rw [hflat]
  constructor
  · intro hstream
    exact (read_front (fun g hg => (hgroups g hg).1) (read_front hmessages hstream).1).1
  · rw [read_flatten hmessages, read_flatten fun g hg => (hgroups g hg).1]

end

end HyperTransfer.Messages
