import HyperTransfer.Lib.Bytes
import HyperTransfer.Session.Lines

/-! The receive buffer byte by byte.

`cat_recv_command` copies behind what is there, with the size of the whole array as its
count; the two functions that take a line out copy to the array's first byte. A session's
own text is what the array starts with (`Session.Holds`), and as long as the copies stay
inside, the text of `State.lean` is the string in the array (`cat_string`).
`buffer_bounded_iff` says for whole runs when they do. -/
namespace HyperTransfer
open CString

/-- `strncpy(recv_command + k, src, COMMANDSIZE)` writes the array only, and a terminator
is in it afterwards. -/
structure CopyFits (m : Memory) (k : Nat) (src : List Char) : Prop where
  inside : ∀ j, Memory.Written k commandSize j → j < commandSize
  ends : (m.strncpy k commandSize src).Ends commandSize

namespace Session

/-- The array starts with the text that `recv_command_len` counts. -/
def Holds (s : Session) (m : Memory) : Prop := m.Starts s.recvCommand

/-- The buffer's text has the length stored for it, fits, and has no NUL. -/
structure Sound (s : Session) : Prop where
  length : s.recvCommandLen = s.recvCommand.length
  fits : s.recvCommand.length < commandSize
  clean : '\x00' ∉ s.recvCommand

/-- The copies of a read: the one behind the text, and the one that takes a line out. -/
def ReadFits (s : Session) (t : SessionTask) : Prop :=
  ∀ m, s.Holds m → CopyFits m s.recvCommandLen (terminated t.buf) ∧
    ∀ line u, t.line s = some (line, u) → CopyFits (m.strncpy s.recvCommandLen commandSize (terminated t.buf)) 0 u.recvCommand

end Session

theorem terminated_clean (bytes : List Char) : '\x00' ∉ terminated bytes := by
  intro h
  have hne := List.mem_takeWhile_imp h
  exact absurd hne (by decide)

section
variable {s r : Session} {m : Memory} {buf : List Char}

/-- A copy fits exactly when it starts at the array's first byte and brings less than its size. -/
theorem copyFits_iff {text src : List Char} (htext : m.Starts text) (hnul : '\x00' ∉ text) (hsrc : '\x00' ∉ src) :
    CopyFits m text.length src ↔ text.length = 0 ∧ src.length < commandSize := by
  constructor
  · intro h
    have hzero := (Memory.written_inside (by decide)).mp h.inside
    have hlen := (Memory.strncpy_ends htext hnul hsrc).mp h.ends
    exact ⟨hzero, by omega⟩
  · intro h
    exact ⟨(Memory.written_inside (by decide)).mpr h.1, (Memory.strncpy_ends htext hnul hsrc).mpr (by omega)⟩

/-- A copy to the array's first byte. -/
theorem copyFits_start {src : List Char} (hsrc : '\x00' ∉ src) (hlen : src.length < commandSize) :
    CopyFits m 0 src := by
  have hempty : m.Starts [] := fun _ h => absurd h (Nat.not_lt_zero _)
  exact (copyFits_iff hempty List.not_mem_nil hsrc).mpr ⟨rfl, hlen⟩

/-- The session's text is the string in the array. -/
theorem cat_string (hs : s.Sound) (hm : s.Holds m) (hr : s.catRecvCommand buf = .ok r) :
    (m.strncpy s.recvCommandLen commandSize (terminated buf)).string commandSize = r.recvCommand := by
  obtain ⟨text, htext, hr⟩ := bind_eq_ok.mp hr
  cases hr
  obtain ⟨rfl, hlen⟩ := cstr_eq_ok.mp htext
  rw [hs.length, List.take_length] at hlen ⊢
  have hshort : (terminated buf).length < commandSize := by
    rw [List.length_append, strncpy, List.length_take] at hlen
    omega
  rw [strncpy_of_le (Nat.le_of_lt hshort)] at hlen ⊢
  refine Memory.string_of_starts (Memory.strncpy_starts hm (Nat.le_of_lt hshort)) ?_ hlen ?_
  · rw [List.mem_append, not_or]
    exact ⟨hs.clean, terminated_clean buf⟩
  · rw [List.length_append] at hlen ⊢
    rw [Memory.strncpy_inside (by omega)]
    exact List.getD_eq_default _ _ (Nat.le_refl _)

/-! ### What a task leaves in the buffer -/

theorem sound_of_buffer {t : Session} (hs : s.Sound) (h : t.buffer = s.buffer) : t.Sound := by
  injection h with htext hcount
  exact ⟨by rw [hcount, htext, hs.length], by rw [htext]; exact hs.fits, by rw [htext]; exact hs.clean⟩

theorem setRecvCommand_sound {text : List Char} (hlen : text.length < commandSize) (hnul : '\x00' ∉ text) :
    (s.setRecvCommand text).Sound := by
  refine ⟨rfl, ?_, ?_⟩
  · show (strncpy commandSize text).length < commandSize
    rwa [strncpy_of_le (Nat.le_of_lt hlen)]
  · exact fun h => hnul (List.mem_of_mem_take h)

theorem cat_sound (hs : s.Sound) : Returns (s.catRecvCommand buf) Session.Sound := by
  intro r hr
  obtain ⟨text, htext, hr⟩ := bind_eq_ok.mp hr
  cases hr
  obtain ⟨rfl, hlen⟩ := cstr_eq_ok.mp htext
  refine ⟨rfl, hlen, fun h => ?_⟩
  rcases List.mem_append.mp h with h | h
  · exact hs.clean (List.mem_of_mem_take h)
  · exact terminated_clean buf (List.mem_of_mem_take h)

/-- What is left of the buffer was in it. -/
theorem frame_sound (hs : s.Sound) : Returns (frame s) fun p => ∀ line u, p = some (line, u) → u.Sound := by
  rw [frame_eq ⟨rfl, hs.length⟩ hs.fits]
  split
  · exact .error _
  · split
    · exact .ok fun _ _ h => nomatch h
    · split
      · refine .ok fun line u h => ?_
        cases h
        refine setRecvCommand_sound ?_ fun h => hs.clean (List.mem_of_mem_drop h)
        rw [List.length_drop]
        exact Nat.lt_of_le_of_lt (Nat.sub_le ..) hs.fits
      · split
        · rename_i left hleft
          have hsuffix : left <:+ s.recvCommand := (List.mem_tails _ _).mp (List.mem_of_find?_eq_some hleft)
          refine .ok fun line u h => ?_
          cases h
          refine setRecvCommand_sound ?_ fun h => hs.clean (hsuffix.subset (List.mem_of_mem_drop h))
          rw [List.length_drop]
          exact Nat.lt_of_le_of_lt (Nat.sub_le ..) (Nat.lt_of_le_of_lt hsuffix.length_le hs.fits)
        · exact .error _

theorem line_sound {t : SessionTask} {line : List Char} {u : Session} (hs : s.Sound)
    (h : t.line s = some (line, u)) : u.Sound := by
  unfold SessionTask.line at h
  split at h
  · cases hp : (do frame (← (s.setAction (.task .read)).catRecvCommand t.buf)) with
    | error f =>
      rw [hp] at h
      exact nomatch h
    | ok p =>
      rw [hp] at h
      obtain ⟨r, hr, hp⟩ := bind_eq_ok.mp hp
      have haction : (s.setAction (.task .read)).Sound := sound_of_buffer hs rfl
      exact frame_sound (cat_sound haction r hr) p hp line u h
  · exact nomatch h

theorem wait_buffer (h : Handled) : h.wait.session.buffer = h.session.buffer := by
  unfold Handled.wait
  split <;> rfl

/-- Only reads change the receive buffer. -/
theorem rollSession_sound {env : Env} {fs : FileSystem} {t : SessionTask} (hs : s.Sound) :
    Returns (rollSession env fs t s) fun h => h.session.Sound := by
  have haction : (s.setAction (.task .read)).Sound := sound_of_buffer hs rfl
  intro h hh
  cases rollSession_comes env fs t s h hh with
  | unheard _ r hr => exact cat_sound haction r hr
  | heard _ r hr deal u hframe g hg =>
    have hu : u.Sound := frame_sound (cat_sound haction r hr) _ hframe deal u rfl
    exact sound_of_buffer hu ((wait_buffer g).trans (dispatch_lines deal g hg).1)
  | idle => exact hs
  | announced | busy | listLoad | storLoad | retrLoad | storStart | transOk => exact sound_of_buffer hs rfl

/-- A read whose copy stays inside finds the buffer empty. -/
theorem readFits_empty {t : SessionTask} (h : s.ReadFits t) : s.recvCommandLen = 0 :=
  (Memory.written_inside (by decide)).mp (h (fun j => s.recvCommand.getD j '\x00') fun _ _ => rfl).1.inside

/-- The copies of a read fit exactly when nothing is in the buffer and less than its size comes in. -/
theorem readFits_iff {t : SessionTask} (hs : s.Sound) :
    s.ReadFits t ↔ s.recvCommandLen = 0 ∧ (terminated t.buf).length < commandSize := by
  unfold Session.ReadFits
  rw [hs.length]
  constructor
  · intro h
    have hm : s.Holds fun j => s.recvCommand.getD j '\x00' := fun _ _ => rfl
    exact (copyFits_iff hm hs.clean (terminated_clean _)).mp (h _ hm).1
  · intro h m hm
    refine ⟨(copyFits_iff hm hs.clean (terminated_clean _)).mpr h, fun line u hline => ?_⟩
    have hu := line_sound hs hline
    exact copyFits_start hu.clean hu.fits

end

/-! ### Runs -/

theorem acceptSession_sound (cfg : Config) (address : Nat) (garbage : List Char) (t : SessionTask) :
    Returns (acceptSession cfg address garbage t) fun h => h.session.Sound := by
  have hempty (s : Session) (hs : s.buffer = ([], 0)) : s.Sound := by
    injection hs with htext hcount
    exact ⟨by rw [hcount, htext]; rfl, by rw [htext]; decide, by rw [htext]; exact List.not_mem_nil⟩
  refine .bind (P := fun s => s.buffer = ([], 0)) (.bind_any fun _ => .ok rfl) fun s hs => ?_
  refine .bind (P := fun g => g.session.buffer = ([], 0)) ?_ fun g hg => .ok (hempty _ hg)
  refine .bind (P := fun r => r.buffer = s.buffer) ?_ fun r hr => .ok (hr.trans hs)
  unfold Session.setServerIp
  dsimp only
  split
  · exact .ok rfl
  · split
    · exact .ok rfl
    · split
      · refine .bind_any fun a => ?_
        split <;> exact .ok rfl
      · exact .ok rfl

/-- Every read a session comes to writes inside the array and leaves a terminator there, and no
length stored for it reaches the array's size. -/
def Session.Bounded (env : Env) (s : Session) (inputs : List SessionInput) : Prop :=
  (∀ a ∈ (session env).attempts s inputs, a.2.task.action = .read → a.1.ReadFits a.2.task) ∧
    ∀ t ∈ (session env).states s inputs, t.recvCommandLen ≤ commandSize - 1

/-- The receive buffer of a session stays in bounds exactly when every read finds it empty and
brings fewer bytes before a NUL than it has. -/
theorem buffer_bounded_iff (env : Env) (address : Nat) (garbage : List Char) (t : SessionTask) (h : Handled)
    (hnew : acceptSession env.config address garbage t = .ok h) (inputs : List SessionInput) :
    h.session.Bounded env inputs ↔ ∀ a ∈ (session env).attempts h.session inputs, a.2.task.action = .read →
      a.1.recvCommandLen = 0 ∧ (terminated a.2.task.buf).length < commandSize := by
  have hstart : h.session.Sound := acceptSession_sound _ _ _ _ h hnew
  have hstep (e : Edge SessionInput Session Effect) (he : (session env).Takes e) (hs : e.before.Sound) :
      e.after.Sound := by
    obtain ⟨r, hr, hafter, _⟩ := takes_roll he
    rw [← hafter]
    exact rollSession_sound hs r hr
  have hattempts : ∀ a ∈ (session env).attempts h.session inputs, a.1.Sound :=
    Machine.attempts_invariant hstart hstep
  have hstates : ∀ s ∈ (session env).states h.session inputs, s.Sound :=
    Machine.invariant_states (fun _ => True) hstart (fun e he _ => hstep e he) fun _ _ => trivial
  constructor
  · intro hb a ha hread
    exact (readFits_iff (hattempts a ha)).mp (hb.1 a ha hread)
  · intro hc
    refine ⟨fun a ha hread => (readFits_iff (hattempts a ha)).mpr (hc a ha hread), fun s hs => ?_⟩
    have hsound := hstates s hs
    rw [hsound.length]
    exact Nat.le_sub_one_of_lt hsound.fits

/-- Two commands, each in a read of its own. -/
def oneByOne : List SessionInput :=
  [.read (.constant none) 7 "USER share\r\n".toList, .read (.constant none) 7 "PWD\r\n".toList]

theorem buffer_bounded_oneByOne :
    ∃ h, acceptSession Env.shipped.config 0 [] (.accept 7 "10.0.0.9".toList) = .ok h ∧
      h.session.Bounded Env.shipped oneByOne :=
  ⟨_, rfl, (buffer_bounded_iff Env.shipped 0 [] (.accept 7 "10.0.0.9".toList) _ rfl oneByOne).mpr
    (by decide +kernel)⟩

/-- A command cut inside its line end: the second read's copy starts at the fifth byte and
writes as many bytes as the array has. -/
theorem buffer_not_bounded_cut :
    ∃ h, acceptSession Env.shipped.config 0 [] (.accept 7 "10.0.0.9".toList) = .ok h ∧
      ¬ h.session.Bounded Env.shipped
        [.read (.constant none) 7 "PWD\r".toList, .read (.constant none) 7 "\n".toList] := by
  refine ⟨_, rfl, fun h => ?_⟩
  have hempty := fun a ha hread => readFits_empty (h.1 a ha hread)
  revert hempty
  decide +kernel

end HyperTransfer
