import HyperTransfer.Session.Framing

/-! Receive buffers of any shape.

`run_fsm_command` looks for the end of a command three times: `get_recv_command` and the
length test by `strtok`, which cuts at either character of a line end and skips those in
front, and the rest of the buffer by `strstr`, which wants the pair. `waits_iff` says
which buffers are left to wait for more, and `frames_iff` which ones are cut at their
first line end. -/
namespace HyperTransfer
open CString

/-- What `strtok` does to a buffer decides how the line is taken out of it. -/
theorem frame_eq {s : Session} {b : List Char} (hs : s.Buffers b) (hlen : b.length < commandSize) :
    frame s =
      if b.length = (strtok b Session.crlf).length then .error .nullPointer
      else if b.length < (strtok b Session.crlf).length + 2 then .ok none
      else if (strtok b Session.crlf).length + 2 = b.length then
        .ok (some (strtok b Session.crlf, s.resetRecvCommand b.length))
      else
        match strstr b Session.crlf with
        | some left => .ok (some (strtok b Session.crlf, s.setRecvCommand (left.drop 2)))
        | none => .error .nullPointer := by
  rw [frame, getRecvCommand_of_token hs rfl]
  by_cases hwhole : b.length = (strtok b Session.crlf).length
  · rw [if_pos hwhole, if_pos hwhole]
  · rw [if_neg hwhole]
    simp only [strncpy_whole hlen]
    exact (if_neg hwhole).symm

/-! ### Incomplete lines -/

/-- Nothing but delimiters stands in front of a line end: there is no whole line. -/
def Incomplete (b : List Char) : Prop := ∀ a rest, b = a ++ Session.crlf ++ rest → ∀ c ∈ a, Session.crlf.contains c

theorem incomplete_of_no_end {b : List Char} (h : ¬ Session.crlf <:+: b) : Incomplete b :=
  fun a rest hb => absurd ⟨a, rest, hb.symm⟩ h

/-- One token and one delimiter behind it. -/
def HalfEnded (b : List Char) : Prop := ∃ t d, OneToken Session.crlf t ∧ Session.crlf.contains d ∧ b = t ++ [d]

/-- The receive buffer after the bytes of a read were put behind it. -/
def SessionTask.buffered (t : SessionTask) (s : Session) : List Char :=
  s.recvCommand.take s.recvCommandLen ++ strncpy commandSize (terminated t.buf)

/-- The task only changes the receive buffer, its length and the action, and returns -1. -/
def Session.Waits (env : Env) (fs : FileSystem) (t : SessionTask) (s : Session) : Prop :=
  ∃ text len, rollSession env fs t s = .ok {
    ret := -1
    session := {s with action := .task .read, recvCommand := text, recvCommandLen := len} }

theorem frame_waits {s : Session} {b : List Char} (hs : s.Buffers b) (hlen : b.length < commandSize) :
    frame s = .ok none ↔ HalfEnded b := by
  rw [frame_eq hs hlen]
  constructor
  · intro h
    rcases strtok_cases b Session.crlf with hwhole | ⟨htoken, d, rest, hd, hb⟩
    · rw [hwhole, if_pos rfl] at h
      exact nomatch h
    · have hsum := congrArg List.length hb
      rw [List.length_append, List.length_cons] at hsum
      split at h
      · exact nomatch h
      · split at h
        · have hrest : rest = [] := List.length_eq_zero_iff.mp (by omega)
          rw [hrest] at hb
          exact ⟨_, d, htoken, hd, hb⟩
        · split at h
          · exact nomatch h
          · split at h <;> exact nomatch h
  · intro h
    obtain ⟨t, d, ht, hd, rfl⟩ := h
    have htoken : strtok (t ++ [d]) Session.crlf = t := strtok_append ht fun c hc => by cases hc; exact hd
    rw [htoken, List.length_append, List.length_singleton, if_neg (by omega), if_pos (by omega)]

/-- The session once the bytes of a read are in its buffer: the padding of the copy may have
cleared the reply. -/
def Session.appended (s : Session) (t : SessionTask) : Session :=
  {s with
    recvCommand := t.buffered s, recvCommandLen := (t.buffered s).length
    retCommand := if s.recvCommandLen ≤ Session.retCommandGap then s.retCommand else [] }

theorem catRecvCommand_eq_ok {s r : Session} {t : SessionTask} : s.catRecvCommand t.buf = .ok r ↔
    (t.buffered s).length < commandSize ∧ r = s.appended t := by
  constructor
  · intro h
    obtain ⟨text, htext, h⟩ := bind_eq_ok.mp h
    obtain ⟨rfl, hlen⟩ := cstr_eq_ok.mp htext
    cases h
    exact ⟨hlen, rfl⟩
  · intro h
    obtain ⟨hlen, rfl⟩ := h
    exact bind_eq_ok.mpr ⟨_, cstr_of_lt hlen, rfl⟩

/-- The reply is behind what the copy of a read pads, or has been empty before. -/
def Session.ReplyClear (s : Session) : Prop := s.recvCommandLen ≤ Session.retCommandGap ∨ s.retCommand = []

instance (s : Session) : Decidable s.ReplyClear := inferInstanceAs (Decidable (_ ∨ _))

theorem appended_reply {s : Session} (t : SessionTask) : (s.appended t).retCommand = s.retCommand ↔ s.ReplyClear := by
  unfold Session.ReplyClear Session.appended
  dsimp only
  split
  · rename_i hshort
    exact iff_of_true rfl (Or.inl hshort)
  · rename_i hlong
    rw [or_iff_right hlong, eq_comm]

theorem appended_clear {s : Session} (t : SessionTask) (h : s.ReplyClear) :
    s.appended t = {s with recvCommand := t.buffered s, recvCommandLen := (t.buffered s).length} := by
  have hreply : (if s.recvCommandLen ≤ Session.retCommandGap then s.retCommand else []) = s.retCommand :=
    (appended_reply t).mpr h
  unfold Session.appended
  rw [hreply]

/-- A read is left to wait for more, and nothing else is changed, exactly when its bytes fit
and end right behind the first token's delimiter, and the reply is not cleared. -/
theorem waits_iff (env : Env) (fs : FileSystem) (s : Session) {t : SessionTask} (ht : t.action = .read) :
    s.Waits env fs t ↔ (t.buffered s).length < commandSize ∧ HalfEnded (t.buffered s) ∧ s.ReplyClear := by
  have hread : rollSession env fs t s = (do
      let r ← (s.setAction (.task .read)).catRecvCommand t.buf
      return (← runFsmCommand env fs r).wait) := by
    unfold rollSession
    rw [ht]
  unfold Session.Waits
  constructor
  · intro h
    obtain ⟨text, len, h⟩ := h
    rw [hread] at h
    obtain ⟨r, hr, h⟩ := bind_eq_ok.mp h
    obtain ⟨hlen, rfl⟩ := catRecvCommand_eq_ok.mp hr
    obtain ⟨g, hg, h⟩ := bind_eq_ok.mp h
    obtain ⟨p, hp, hg⟩ := bind_eq_ok.mp hg
    cases p with
    | none =>
      cases hg
      injection h with h
      have hreply : ((s.setAction (.task .read)).appended t).retCommand = s.retCommand :=
        congrArg (fun k => k.session.retCommand) h
      exact ⟨hlen, (frame_waits ⟨rfl, rfl⟩ hlen).mp hp, (appended_reply (s := s.setAction (.task .read)) t).mp hreply⟩
    | some p =>
      -- a line handed on is among the effects
      obtain ⟨k, _, _, heffects⟩ := dispatch_writes _ g hg
      have hnone : g.wait.effects = [] := by
        injection h with h
        rw [h]
      rw [(wait_writes g).2.2, heffects] at hnone
      exact nomatch hnone
  · intro h
    obtain ⟨hlen, hhalf, hclear⟩ := h
    refine ⟨t.buffered s, (t.buffered s).length, ?_⟩
    rw [hread]
    refine bind_eq_ok.mpr ⟨_, catRecvCommand_eq_ok.mpr ⟨hlen, rfl⟩, ?_⟩
    rw [appended_clear (s := s.setAction (.task .read)) t hclear]
    rw [runFsmCommand, (frame_waits ⟨rfl, rfl⟩ hlen).mpr hhalf]
    rfl

/-- A buffer without a whole line is kept for later, and nothing else is changed, exactly when
it fits, one delimiter ends it, right behind its first token, and the bytes that were there
before are too few for the padding behind them to get to the reply. -/
theorem incomplete_kept_iff (env : Env) (fs : FileSystem) (s : Session) (t : SessionTask) (ht : t.action = .read) :
    (Incomplete (t.buffered s) → s.Waits env fs t) ↔
      (Incomplete (t.buffered s) →
        (t.buffered s).length < commandSize ∧ HalfEnded (t.buffered s) ∧ s.ReplyClear) :=
  imp_congr_right fun _ => waits_iff env fs s ht

theorem incomplete_kept_half :
    ∃ h, acceptSession Env.shipped.config 0 [] (.accept 7 "10.0.0.9".toList) = .ok h ∧
      h.session.Waits Env.shipped (.constant none) {fd := 7, action := .read, buf := "PWD\r".toList} :=
  ⟨_, rfl, (incomplete_kept_iff Env.shipped (.constant none) _
    {fd := 7, action := .read, buf := "PWD\r".toList} rfl).mpr
      (fun _ => ⟨by decide, ⟨"PWD".toList, '\r',
        ⟨[], "PWD".toList, rfl, by simp, by decide, by simp [Session.crlf]⟩, by decide, rfl⟩, Or.inl (by decide)⟩)
      (incomplete_of_no_end (by decide))⟩

/-- Half a command with nothing behind it brings the server down. -/
theorem incomplete_not_kept_unended :
    ∃ h, acceptSession Env.shipped.config 0 [] (.accept 7 "10.0.0.9".toList) = .ok h ∧
      Incomplete (({fd := 7, action := .read, buf := "PW".toList} : SessionTask).buffered h.session) ∧
      rollSession Env.shipped (.constant none) {fd := 7, action := .read, buf := "PW".toList} h.session =
        .error .nullPointer ∧
      ¬ h.session.Waits Env.shipped (.constant none) {fd := 7, action := .read, buf := "PW".toList} := by
  refine ⟨_, rfl, incomplete_of_no_end (by decide), by decide, fun h => ?_⟩
  obtain ⟨text, len, h⟩ := h
  exact nomatch h

/-- With eight bytes waiting, half a line end is kept, and the reply is cleared. -/
example : (do
    let h ← acceptSession Env.shipped.config 0 [] (.accept 7 "10.0.0.9".toList)
    let s := (session Env.shipped).final h.session [.read (.constant none) 7 "NOOP\r\nUSER sha".toList]
    let g ← rollSession Env.shipped (.constant none) {fd := 7, action := .read, buf := "re\r".toList} s
    return (s.retCommand, g.ret, g.session.recvCommand, g.session.retCommand) : Except Fault _) =
      .ok ("501 Bad or missing parameters.\r\n".toList, -1, "USER share\r".toList, []) := by
  decide

/-! ### The first line end -/

/-- The line handed on is what `strtok` leaves of the buffer. -/
theorem frame_token {s u : Session} {b line : List Char} (hs : s.Buffers b) (hlen : b.length < commandSize)
    (h : frame s = .ok (some (line, u))) : OneToken Session.crlf line := by
  rw [frame_eq hs hlen] at h
  rcases strtok_cases b Session.crlf with hwhole | ⟨htoken, _⟩
  · rw [hwhole, if_pos rfl] at h
    exact nomatch h
  · have hline (v : Session) (hv : (.ok (some (strtok b Session.crlf, v)) : Except Fault _) = .ok (some (line, u))) :
        strtok b Session.crlf = line := by
      injection hv with hv
      injection hv with hv
      exact congrArg Prod.fst hv
    have hcut : strtok b Session.crlf = line := by
      split at h
      · exact nomatch h
      · split at h
        · exact nomatch h
        · split at h
          · exact hline _ h
          · split at h
            · exact hline _ h
            · exact nomatch h
    rwa [hcut] at htoken

/-- `run_fsm_command` hands on `line` and leaves `rest` in the buffer. -/
def Session.Frames (s : Session) (line rest : List Char) : Prop :=
  (∃ u, frame s = .ok (some (line, u)) ∧ u.Buffers rest) ∧
    ∀ env fs, Returns (runFsmCommand env fs s) fun h =>
      h.session.Buffers rest ∧ h.effects.filterMap Effect.line? = [line]

/-- What the handlers are given a line from is left to the next read. -/
theorem frames_of_frame {s u : Session} {line rest : List Char} (hu : frame s = .ok (some (line, u)))
    (hrest : u.Buffers rest) : s.Frames line rest := by
  refine ⟨⟨u, hu, hrest⟩, fun env fs h hh => ?_⟩
  rw [runFsmCommand, hu] at hh
  obtain ⟨hbuffer, hlines⟩ := dispatch_lines line h hh
  injection hbuffer with htext hcount
  exact ⟨⟨htext.trans hrest.1, hcount.trans hrest.2⟩, hlines⟩

/-- A buffer is cut at its first line end, and no byte is lost, exactly when the delimiters
in front of that line end, if there are any, all stand at the very start, before some other
byte. -/
theorem frames_iff (s : Session) (line rest : List Char) (hs : s.Buffers (line ++ Session.crlf ++ rest))
    (hlen : (line ++ Session.crlf ++ rest).length < commandSize)
    (hfirst : strstr (line ++ Session.crlf ++ rest) Session.crlf = some (Session.crlf ++ rest)) :
    s.Frames line rest ↔ OneToken Session.crlf line := by
  have hsum : (line ++ Session.crlf ++ rest).length = line.length + 2 + rest.length := by
    rw [List.length_append, List.length_append]
    rfl
  constructor
  · intro h
    obtain ⟨⟨u, hu, _⟩, _⟩ := h
    exact frame_token hs hlen hu
  · intro h
    have htoken : strtok (line ++ Session.crlf ++ rest) Session.crlf = line := by
      rw [List.append_assoc]
      exact strtok_append h fun c hc => by cases hc; rfl
    have hframe := frame_eq hs hlen
    rw [htoken, hfirst, if_neg (by omega), if_neg (by omega)] at hframe
    split at hframe
    · rename_i hwhole
      have hrest : rest = [] := List.length_eq_zero_iff.mp (by omega)
      apply frames_of_frame hframe
      have hdrop : s.recvCommand.drop (line ++ Session.crlf ++ rest).length = rest := by
        rw [hs.1, List.drop_length, hrest]
      rw [Session.resetRecvCommand, hdrop]
      exact setRecvCommand_buffers (by omega) s
    · exact frames_of_frame hframe (setRecvCommand_buffers (by show rest.length ≤ _; omega) s)

theorem frames_two :
    ∃ h, acceptSession Env.shipped.config 0 [] (.accept 7 "10.0.0.9".toList) = .ok h ∧
      (h.session.setRecvCommand "\nPWD\r\nSYST\n\r\n".toList).Frames "\nPWD".toList "SYST\n\r\n".toList :=
  ⟨_, rfl, (frames_iff _ "\nPWD".toList "SYST\n\r\n".toList ⟨rfl, rfl⟩ (by decide) (by decide)).mpr
    ⟨['\n'], "PWD".toList, rfl, by simp [Session.crlf], by decide, by simp [Session.crlf]⟩⟩

/-- With a line feed in the middle of the command, what stands behind it is lost. -/
theorem not_frames_fed :
    ∃ h, acceptSession Env.shipped.config 0 [] (.accept 7 "10.0.0.9".toList) = .ok h ∧
      ¬ (h.session.setRecvCommand "CWD a\nb\r\nPWD\r\n".toList).Frames "CWD a\nb".toList "PWD\r\n".toList ∧
      ∃ u, frame (h.session.setRecvCommand "CWD a\nb\r\nPWD\r\n".toList) = .ok (some ("CWD a".toList, u)) ∧
        u.Buffers "PWD\r\n".toList := by
  refine ⟨_, rfl, fun h => ?_, _, rfl, rfl, rfl⟩
  obtain ⟨⟨u, hu, _⟩, _⟩ := h
  injection hu with hu
  injection hu with hu
  have hline : "CWD a".toList = "CWD a\nb".toList := congrArg Prod.fst hu
  exact absurd hline (by decide)

end HyperTransfer
