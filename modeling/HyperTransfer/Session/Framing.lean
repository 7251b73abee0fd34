import HyperTransfer.Session.Writes

/-! The command stream and the reads it arrives in.

A read appends to the receive buffer and hands at most one line on. Commands that arrive
faster than one a read are left behind, and a read that leaves no line end in the buffer
makes `get_recv_command` return the null pointer; `stream_dispatched_iff` says that a
stream of lines is dispatched line by line exactly when its cuts avoid both. -/
namespace HyperTransfer
open CString

/-- A command line: not empty, without line ends or NUL. -/
structure Line (l : List Char) : Prop where
  nonempty : l ≠ []
  clean : ∀ c ∈ l, c ≠ '\r' ∧ c ≠ '\n' ∧ c ≠ '\x00'

theorem line_of_all {l : List Char} (hne : l ≠ [])
    (hall : l.all (fun c => c != '\r' && c != '\n' && c != '\x00') = true) : Line l := by
  refine ⟨hne, fun c hc => ?_⟩
  simpa [and_assoc] using List.all_eq_true.mp hall c hc

/-- The lines as they are sent. -/
def encode (lines : List (List Char)) : List Char := lines.flatMap (· ++ Session.crlf)

/-- Lines dispatched among the effects. -/
def Effect.line? : Effect → Option (List Char)
  | .dispatch line => some line
  | _ => none

/-- With `waiting` whole lines in the buffer, every read finds or brings a whole line,
or ends in the middle of a line end; and none is left behind at the last. -/
def Keeps : Nat → List (List Char) → Prop
  | waiting, [] => waiting = 0
  | waiting, piece :: rest =>
    if waiting + piece.count '\n' = 0 then piece.getLast? = some '\r' ∧ Keeps 0 rest
    else Keeps (waiting + piece.count '\n' - 1) rest

/-! ### One line in the buffer -/

/-- From the start of a line up to its end, if it has one, a line is one token. -/
theorem strtok_line {l b : List Char} (hl : Line l)
    (hb : b = [] ∨ ∃ c rest, b = c :: rest ∧ Session.crlf.contains c) :
    strtok (l ++ b) Session.crlf = l := by
  have hclean : ∀ c ∈ l, Session.crlf.contains c = false := by
    intro c hc
    obtain ⟨hcr, hlf, _⟩ := hl.clean c hc
    simp [Session.crlf, hcr, hlf]
  have hend : b.takeWhile (fun c => !Session.crlf.contains c) = [] := by
    rcases hb with hb | ⟨c, rest, hb, hc⟩
    · rw [hb, List.takeWhile_nil]
    · rw [hb, List.takeWhile_cons_of_neg (by rw [hc]; decide)]
  obtain ⟨c, rest, hcons⟩ := List.exists_cons_of_ne_nil hl.nonempty
  have hc : ¬ Session.crlf.contains c = true := by
    rw [hclean c (by rw [hcons]; exact List.mem_cons_self ..)]
    exact Bool.false_ne_true
  have hstart : (l ++ b).takeWhile Session.crlf.contains = [] ∧ (l ++ b).dropWhile Session.crlf.contains = l ++ b := by
    rw [hcons, List.cons_append]
    exact ⟨List.takeWhile_cons_of_neg hc, List.dropWhile_cons_of_neg hc⟩
  rw [strtok, hstart.1, hstart.2, List.nil_append, List.takeWhile_append_of_pos, hend, List.append_nil]
  intro x hx
  rw [hclean x hx]
  rfl

/-- How much of a stream that starts with a line has come in: part of the line, the
line with half of its end, or all of it. -/
theorem cut_cases {b future l : List Char} {rest : List (List Char)}
    (h : b ++ future = encode (l :: rest)) :
    (∃ more, l = b ++ more) ∨ b = l ++ ['\r'] ∨
      ∃ left, b = l ++ Session.crlf ++ left ∧ left ++ future = encode rest := by
  have h : b ++ future = (l ++ Session.crlf) ++ encode rest := by
    rw [h]
    simp [encode]
  rcases List.append_eq_append_iff.mp h with ⟨a, ha, hfuture⟩ | ⟨left, hb, hleft⟩
  · rcases List.append_eq_append_iff.mp ha with ⟨c, hc, hcut⟩ | ⟨more, hmore, _⟩
    · -- what has come in of the line end
      rcases c with _ | ⟨x, _ | ⟨y, c⟩⟩
      · exact Or.inl ⟨[], by rw [hc, List.append_nil, List.append_nil]⟩
      · injection hcut with hx _
        rw [← hx] at hc
        exact Or.inr (Or.inl hc)
      · injection hcut with hx hcut
        injection hcut with hy hcut
        obtain ⟨rfl, rfl⟩ := List.append_eq_nil_iff.mp hcut.symm
        refine Or.inr (Or.inr ⟨[], ?_, ?_⟩)
        · rw [hc, ← hx, ← hy, List.append_nil]
          rfl
        · exact hfuture
    · exact Or.inl ⟨more, hmore⟩
  · exact Or.inr (Or.inr ⟨left, hb, hleft.symm⟩)

/-! ### One read -/

section
variable {s : Session} {b l : List Char}

/-- The session with `b` in its receive buffer. -/
def Session.Buffers (s : Session) (b : List Char) : Prop := s.recvCommand = b ∧ s.recvCommandLen = b.length

theorem setRecvCommand_buffers {b : List Char} (hb : b.length ≤ commandSize) (s : Session) :
    (s.setRecvCommand b).Buffers b := by
  simp only [Session.Buffers, Session.setRecvCommand, strncpy_of_le hb, and_self]

theorem getRecvCommand_of_token (hs : s.Buffers b) (h : strtok b Session.crlf = l) :
    s.getRecvCommand = if b.length = l.length then none else some b := by
  obtain ⟨hb, hlen⟩ := hs
  rw [Session.getRecvCommand, hb, hlen, List.take_length, h]

/-- In the middle of a line there is nothing to read. -/
theorem frame_middle (hl : Line l) (hs : s.Buffers l) : frame s = .error .nullPointer := by
  have htoken : strtok l Session.crlf = l := by
    have := strtok_line hl (b := []) (Or.inl rfl)
    rwa [List.append_nil] at this
  rw [frame, getRecvCommand_of_token hs htoken, if_pos rfl]

theorem strncpy_whole (hb : b.length < commandSize) : (strncpy commandSize b).take (commandSize - 1) = b := by
  rw [strncpy_of_le (Nat.le_of_lt hb), List.take_of_length_le (Nat.le_sub_one_of_lt hb)]

/-- Half of a line end is waited for. -/
theorem frame_half (hl : Line l) (hs : s.Buffers (l ++ ['\r'])) (hlen : (l ++ ['\r']).length < commandSize) :
    frame s = .ok none := by
  have htoken : strtok (l ++ ['\r']) Session.crlf = l := strtok_line hl (Or.inr ⟨_, _, rfl, by decide⟩)
  have hne : (l ++ ['\r']).length ≠ l.length := by simp
  rw [frame, getRecvCommand_of_token hs htoken, if_neg hne]
  simp only [strncpy_whole hlen, htoken]
  rw [if_pos (by simp)]

/-- A whole line is taken out of the buffer. -/
theorem frame_line {left : List Char} (hl : Line l) (hs : s.Buffers (l ++ Session.crlf ++ left))
    (hlen : (l ++ Session.crlf ++ left).length < commandSize) :
    frame s = .ok (some (l, s.setRecvCommand left)) := by
  have htoken : strtok (l ++ Session.crlf ++ left) Session.crlf = l := by
    rw [List.append_assoc]
    exact strtok_line hl (Or.inr ⟨_, _, rfl, by decide⟩)
  have hsum : (l ++ Session.crlf ++ left).length = l.length + 2 + left.length := by
    simp [Session.crlf]
    omega
  have hne : (l ++ Session.crlf ++ left).length ≠ l.length := by omega
  rw [frame, getRecvCommand_of_token hs htoken, if_neg hne]
  simp only [strncpy_whole hlen, htoken]
  rw [if_neg (by omega)]
  cases left with
  | nil =>
    have hdrop : s.recvCommand.drop (l ++ Session.crlf ++ []).length = [] := by
      rw [hs.1, List.drop_length]
    have hwhole : l.length + 2 = (l ++ Session.crlf ++ []).length := hsum.symm
    rw [if_pos hwhole, Session.resetRecvCommand, hdrop]
  | cons c left =>
    have hcr : '\r' ∉ l := fun h => (hl.clean _ h).1 rfl
    have hfind : strstr (l ++ Session.crlf ++ c :: left) Session.crlf = some (Session.crlf ++ c :: left) :=
      strstr_append hcr
    have hmore : l.length + 2 ≠ (l ++ Session.crlf ++ c :: left).length := by
      rw [hsum, List.length_cons]
      omega
    rw [if_neg hmore, hfind]
    rfl

/-- What a read brings is appended, as long as it fits. -/
theorem catRecvCommand_appends {bytes : List Char} (hs : s.Buffers b)
    (hlen : (b ++ terminated bytes).length < commandSize) :
    ∃ r, s.catRecvCommand bytes = .ok r ∧ r.Buffers (b ++ terminated bytes) := by
  obtain ⟨hb, hblen⟩ := hs
  have hfits : (terminated bytes).length ≤ commandSize := by
    rw [List.length_append] at hlen
    omega
  refine ⟨_, bind_eq_ok.mpr ⟨b ++ terminated bytes, ?_, rfl⟩, rfl, rfl⟩
  rw [hb, hblen, List.take_length, strncpy_of_le hfits]
  exact cstr_of_lt hlen

end

/-! ### One step -/

/-- The bytes a read brings. -/
def SessionInput.text (i : SessionInput) : List Char := terminated i.task.buf

/-- A read that brings something. -/
structure SessionInput.Reads (i : SessionInput) : Prop where
  read : i.task.action = .read
  nonempty : i.text ≠ []

/-- A command dispatches its own line and no other. -/
theorem dispatch_lines {env : Env} {fs : FileSystem} {s : Session} (l : List Char) :
    Returns (dispatch env fs l s) fun h =>
      h.session.buffer = s.buffer ∧ h.effects.filterMap Effect.line? = [l] := by
  intro h hh
  obtain ⟨g, hg, hsession, heffects⟩ := dispatch_writes l h hh
  have hquiet : g.effects.filterMap Effect.line? = [] := by
    rw [List.filterMap_eq_nil_iff]
    intro x hx
    cases hline : x with
    | dispatch line =>
      have hmem : Effect.dispatch line ∈ g.effects.filter Effect.moves :=
        List.mem_filter.mpr ⟨hline ▸ hx, rfl⟩
      rcases handle_moves g hg with hreplies | ⟨_, harms⟩
      · rw [hreplies.moves] at hmem
        exact nomatch hmem
      · rw [harms.moves] at hmem
        simp at hmem
    | _ => rfl
  refine ⟨?_, ?_⟩
  · rw [hsession]
    exact (handle_link g hg).2
  · rw [heffects, List.filterMap_cons, hquiet]
    rfl

section
variable {env : Env} {s r : Session} {i : SessionInput} {b l : List Char}

theorem step_read (hi : i.task.action = .read)
    (hr : (s.setAction (.task .read)).catRecvCommand i.task.buf = .ok r) :
    (session env).step i s = (do
      let h := (← runFsmCommand env i.fs r).wait
      return (h.session, h.effects)) := by
  show (rollSession env i.fs i.task s >>= _) = _
  unfold rollSession
  rw [hi]
  show ((s.setAction (.task .read)).catRecvCommand i.task.buf >>= _) >>= _ = _
  rw [hr]
  show (runFsmCommand env i.fs r >>= _) >>= _ = _
  cases runFsmCommand env i.fs r <;> rfl

/-- A read that ends in the middle of a line fails. -/
theorem step_middle (hi : i.Reads) (hs : s.Buffers b) (hlen : (b ++ i.text).length < commandSize)
    (hl : Line (b ++ i.text)) : (session env).step i s = .error .nullPointer := by
  obtain ⟨r, hr, hbuf⟩ := catRecvCommand_appends (s := s.setAction (.task .read)) hs hlen
  rw [step_read hi.read hr, runFsmCommand, frame_middle hl hbuf]
  rfl

variable (env)

/-- A read that ends in the middle of a line end does nothing yet. -/
theorem step_half (hi : i.Reads) (hs : s.Buffers b) (hlen : (b ++ i.text).length < commandSize)
    (hl : Line l) (hcut : b ++ i.text = l ++ ['\r']) :
    i.task.line s = none ∧
      ∃ r, (session env).step i s = .ok (r, []) ∧ r.Buffers (b ++ i.text) := by
  obtain ⟨r, hr, hbuf⟩ := catRecvCommand_appends (s := s.setAction (.task .read)) hs hlen
  change r.Buffers (b ++ i.text) at hbuf
  have hframe : frame r = .ok none := frame_half hl (hcut ▸ hbuf) (hcut ▸ hlen)
  refine ⟨line_read hi.read hr hframe, r, ?_, hbuf⟩
  rw [step_read hi.read hr, runFsmCommand, hframe]
  rfl

/-- A read that leaves a whole line in the buffer hands it on. -/
theorem step_line (hi : i.Reads) (hs : s.Buffers b) (hlen : (b ++ i.text).length < commandSize)
    (hl : Line l) {left : List Char} (hcut : b ++ i.text = l ++ Session.crlf ++ left) :
    ∃ u, i.task.line s = some (l, u) ∧
      (∀ f, dispatch env i.fs l u = .error f → (session env).step i s = .error f) ∧
      ∀ h, dispatch env i.fs l u = .ok h → ∃ t es, (session env).step i s = .ok (t, es) ∧
        t.Buffers left ∧ es.filterMap Effect.line? = [l] := by
  obtain ⟨r, hr, hbuf⟩ := catRecvCommand_appends (s := s.setAction (.task .read)) hs hlen
  change r.Buffers (b ++ i.text) at hbuf
  have hframe : frame r = .ok (some (l, r.setRecvCommand left)) :=
    frame_line hl (hcut ▸ hbuf) (hcut ▸ hlen)
  have hleft : (r.setRecvCommand left).Buffers left := by
    refine setRecvCommand_buffers ?_ r
    rw [hcut, List.length_append] at hlen
    omega
  refine ⟨_, line_read hi.read hr hframe, ?_, ?_⟩
  · intro f hf
    rw [step_read hi.read hr, runFsmCommand, hframe]
    show (dispatch env i.fs l (r.setRecvCommand left) >>= _) = _
    rw [hf]
    rfl
  · intro h hh
    obtain ⟨hbuffer, hlines⟩ := dispatch_lines l h hh
    obtain ⟨hwait, -, heffects⟩ := wait_writes h
    refine ⟨h.wait.session, h.wait.effects, ?_, ?_, ?_⟩
    · rw [step_read hi.read hr, runFsmCommand, hframe]
      show (dispatch env i.fs l (r.setRecvCommand left) >>= _) = _
      rw [hh]
      rfl
    · have hsame : h.wait.session.buffer = (r.setRecvCommand left).buffer := by
        rw [← hbuffer]
        unfold Handled.wait
        split <;> rfl
      injection hsame with htext hcount
      exact ⟨htext.trans hleft.1, hcount.trans hleft.2⟩
    · rw [heffects, hlines]

end

/-! ### The stream -/

theorem count_middle {l : List Char} (hl : Line l) : l.count '\n' = 0 :=
  List.count_eq_zero.mpr fun h => (hl.clean _ h).2.1 rfl

/-- A line and its end hold one line feed. -/
theorem count_line {l : List Char} (hl : Line l) (b : List Char) :
    (l ++ Session.crlf ++ b).count '\n' = 1 + b.count '\n' := by
  rw [List.append_assoc, List.count_append, List.count_append, count_middle hl, Nat.zero_add]
  rfl

theorem count_encode {lines : List (List Char)} (hlines : ∀ l ∈ lines, Line l) :
    (encode lines).count '\n' = lines.length := by
  induction lines with
  | nil => rfl
  | cons l rest ih =>
    have hrest := ih fun x hx => hlines x (List.mem_cons_of_mem _ hx)
    have hcons : encode (l :: rest) = l ++ Session.crlf ++ encode rest := by simp [encode]
    rw [hcons, count_line (hlines l (List.mem_cons_self ..)), hrest, List.length_cons, Nat.add_comm]

/-- The lines a run dispatches, in order. -/
def dispatched (trace : List (Edge SessionInput Session Effect)) : List (List Char) :=
  trace.flatMap fun e => e.effects.filterMap Effect.line?

/-- Every read is handled, and the lines dispatched are `lines`, in order and each once. -/
def Session.Delivers (env : Env) (s : Session) (inputs : List SessionInput) (lines : List (List Char)) :
    Prop :=
  ((session env).trace s inputs).length = inputs.length ∧ dispatched ((session env).trace s inputs) = lines

/-- The handlers of the lines a run comes to all return. -/
def Session.Survives (env : Env) (s : Session) (inputs : List SessionInput) : Prop :=
  ∀ a ∈ (session env).attempts s inputs, ∀ l u, a.2.task.line a.1 = some (l, u) →
    ∃ h, dispatch env a.2.fs l u = .ok h

/-! A read ends in the middle of a line, in the middle of a line end, or with a whole line
in the buffer. -/

section
variable {b l left piece : List Char} {pieces : List (List Char)}

/-- A read that ends in the middle of a line breaks the rule. -/
theorem keeps_middle (hl : Line (b ++ piece)) : ¬ Keeps (b.count '\n') (piece :: pieces) := by
  rw [Keeps, ← List.count_append, if_pos (count_middle hl)]
  intro h
  have hmem : '\r' ∈ piece := List.mem_of_getLast? h.1
  exact (hl.clean _ (List.mem_append_right _ hmem)).1 rfl

/-- One that ends in the middle of a line end keeps to it. -/
theorem keeps_half (hpiece : piece ≠ []) (hl : Line l) (hcut : b ++ piece = l ++ ['\r']) :
    Keeps (b.count '\n') (piece :: pieces) ↔ Keeps ((b ++ piece).count '\n') pieces := by
  have hcount : (b ++ piece).count '\n' = 0 := by
    rw [hcut, List.count_append, count_middle hl]
    rfl
  have hlast : piece.getLast? = some '\r' := by
    have h := congrArg List.getLast? hcut
    rw [List.getLast?_append_of_ne_nil _ hpiece, List.getLast?_concat] at h
    exact h
  rw [Keeps, ← List.count_append, if_pos hcount, hcount]
  exact and_iff_right hlast

/-- One that leaves a whole line in the buffer uses that line up. -/
theorem keeps_line (hl : Line l) (hcut : b ++ piece = l ++ Session.crlf ++ left) :
    Keeps (b.count '\n') (piece :: pieces) ↔ Keeps (left.count '\n') pieces := by
  have hcount : (b ++ piece).count '\n' = 1 + left.count '\n' := by rw [hcut, count_line hl]
  rw [Keeps, ← List.count_append, if_neg (by omega), hcount, Nat.add_sub_cancel_left]

end

section
variable {env : Env} {s t : Session} {i : SessionInput} {rest : List SessionInput} {lines : List (List Char)}

theorem delivers_error {f : Fault} (hstep : (session env).step i s = .error f) :
    ¬ s.Delivers env (i :: rest) lines := by
  rw [Session.Delivers, Machine.trace_error hstep]
  intro h
  exact nomatch h.1

/-- The lines of the first read, and then those of the others. -/
theorem delivers_ok {es : List Effect} {now : List (List Char)} (hstep : (session env).step i s = .ok (t, es))
    (hes : es.filterMap Effect.line? = now) :
    s.Delivers env (i :: rest) (now ++ lines) ↔ t.Delivers env rest lines := by
  unfold Session.Delivers
  rw [Machine.trace_ok hstep, List.length_cons, List.length_cons, Nat.add_right_cancel_iff, dispatched,
    List.flatMap_cons, hes, List.append_cancel_left_eq]
  rfl

theorem survives_ok {es : List Effect} (hi : (session env).step i s = .ok (t, es)) :
    s.Survives env (i :: rest) ↔
      (∀ l u, i.task.line s = some (l, u) → ∃ h, dispatch env i.fs l u = .ok h) ∧ t.Survives env rest := by
  unfold Session.Survives
  rw [Machine.attempts, hi]
  exact List.forall_mem_cons

/-- No handler runs on a read that hands nothing on. -/
theorem survives_half (hstep : (session env).step i s = .ok (t, [])) (hline : i.task.line s = none) :
    s.Survives env (i :: rest) ↔ t.Survives env rest := by
  rw [survives_ok hstep, hline]
  exact and_iff_right fun _ _ h => nomatch h

theorem survives_line {es : List Effect} {l : List Char} {u : Session} {h : Handled}
    (hstep : (session env).step i s = .ok (t, es)) (hline : i.task.line s = some (l, u))
    (hd : dispatch env i.fs l u = .ok h) : s.Survives env (i :: rest) ↔ t.Survives env rest := by
  rw [survives_ok hstep, hline]
  apply and_iff_right
  intro l' u' h'
  injection h' with h'
  injection h' with hl hu
  exact ⟨h, hl ▸ hu ▸ hd⟩

theorem survives_error {l : List Char} {u : Session} {f : Fault} (hline : i.task.line s = some (l, u))
    (hd : dispatch env i.fs l u = .error f) : ¬ s.Survives env (i :: rest) := by
  intro hsurvives
  obtain ⟨h, hh⟩ := hsurvives (s, i) (List.mem_cons_self ..) l u hline
  rw [hd] at hh
  exact nomatch hh

/-- From `b` in the buffer on. -/
theorem stream_from {inputs : List SessionInput} {b : List Char}
    (hs : s.Buffers b) (hlines : ∀ l ∈ lines, Line l) (hreads : ∀ i ∈ inputs, i.Reads)
    (hstream : b ++ (inputs.map SessionInput.text).flatten = encode lines)
    (hlen : (encode lines).length < commandSize) :
    s.Delivers env inputs lines ↔
      Keeps (b.count '\n') (inputs.map SessionInput.text) ∧ s.Survives env inputs := by
  induction inputs generalizing s b lines with
  | nil =>
    rw [List.map_nil, List.flatten_nil, List.append_nil] at hstream
    rw [List.map_nil, Keeps, hstream, count_encode hlines, List.length_eq_zero_iff]
    constructor
    · intro ⟨_, h⟩
      exact ⟨h.symm, fun a ha => nomatch ha⟩
    · intro ⟨h, _⟩
      exact ⟨rfl, h.symm⟩
  | cons i rest ih =>
    have hi : i.Reads := hreads i (List.mem_cons_self ..)
    have hrest : ∀ j ∈ rest, j.Reads := fun j hj => hreads j (List.mem_cons_of_mem _ hj)
    have hcut : (b ++ i.text) ++ (rest.map SessionInput.text).flatten = encode lines := by
      rw [← hstream, List.map_cons, List.flatten_cons, List.append_assoc]
    have hfits : (b ++ i.text).length < commandSize := by
      rw [← hcut, List.length_append] at hlen
      omega
    rw [List.map_cons]
    cases lines with
    | nil =>
      have hnil : i.text = [] := by
        have h := (List.append_eq_nil_iff.mp hcut).1
        exact (List.append_eq_nil_iff.mp h).2
      exact absurd hnil hi.nonempty
    | cons l lines =>
      have hl : Line l := hlines l (List.mem_cons_self ..)
      rcases cut_cases hcut with ⟨more, hmore⟩ | hhalf | ⟨left, hwhole, hleft⟩
      · -- the read fails, and the stream has no line end for it
        have hpart : Line (b ++ i.text) :=
          ⟨fun h => hi.nonempty (List.append_eq_nil_iff.mp h).2,
            fun c hc => hl.clean c (hmore ▸ List.mem_append_left _ hc)⟩
        apply iff_of_false (delivers_error (step_middle hi hs hfits hpart))
        exact fun h => keeps_middle hpart h.1
      · obtain ⟨hline, r, hstep, hbuf⟩ := step_half env hi hs hfits hl hhalf
        have hfollow := ih hbuf hlines hrest hcut hlen
        rw [keeps_half hi.nonempty hl hhalf, survives_half hstep hline, ← hfollow]
        exact delivers_ok hstep rfl
      · obtain ⟨u, hline, herror, hok⟩ := step_line env hi hs hfits hl hwhole
        cases hd : dispatch env i.fs l u with
        | error f =>
          apply iff_of_false (delivers_error (herror f hd))
          exact fun h => survives_error hline hd h.2
        | ok h =>
          obtain ⟨t, es, hstep, hbuf, hes⟩ := hok h hd
          have hlines' : ∀ x ∈ lines, Line x := fun x hx => hlines x (List.mem_cons_of_mem _ hx)
          have hlen' : (encode lines).length < commandSize := by
            rw [← hleft, List.length_append]
            rw [← hcut, hwhole, List.length_append, List.length_append] at hlen
            omega
          have hfollow := ih hbuf hlines' hrest hleft hlen'
          rw [keeps_line hl hwhole, survives_line hstep hline hd, ← hfollow]
          exact delivers_ok hstep hes

end

/-- A stream of lines is dispatched line by line exactly when its cuts keep to `Keeps` and
no handler fails. -/
theorem stream_dispatched_iff (env : Env) (s : Session) (hs : s.Buffers []) (lines : List (List Char))
    (hlines : ∀ l ∈ lines, Line l) (hlen : (encode lines).length < commandSize)
    (inputs : List SessionInput) (hreads : ∀ i ∈ inputs, i.Reads)
    (hstream : (inputs.map SessionInput.text).flatten = encode lines) :
    s.Delivers env inputs lines ↔ Keeps 0 (inputs.map SessionInput.text) ∧ s.Survives env inputs :=
  stream_from hs hlines hreads hstream hlen

/-- Two commands, cut inside both line ends. -/
def cutInLineEnds : List SessionInput :=
  [.read (.constant none) 7 "USER share\r".toList, .read (.constant none) 7 "\nPWD\r".toList,
    .read (.constant none) 7 "\n".toList]

theorem stream_dispatched_cut :
    ∃ h, acceptSession Env.shipped.config 0 [] (.accept 7 "10.0.0.9".toList) = .ok h ∧
      Keeps 0 (cutInLineEnds.map SessionInput.text) ∧ h.session.Survives Env.shipped cutInLineEnds :=
  ⟨_, rfl,
    (stream_dispatched_iff Env.shipped _ ⟨rfl, rfl⟩ ["USER share".toList, "PWD".toList]
      (List.forall_mem_cons.mpr
        ⟨line_of_all (by decide) (by decide), List.forall_mem_singleton.mpr (line_of_all (by decide) (by decide))⟩)
      (by decide) cutInLineEnds
      (List.forall_mem_cons.mpr ⟨⟨rfl, by decide⟩,
        List.forall_mem_cons.mpr ⟨⟨rfl, by decide⟩, List.forall_mem_singleton.mpr ⟨rfl, by decide⟩⟩⟩)
      (by decide)).mp ⟨by decide +kernel, by decide +kernel⟩⟩

/-- Two commands in one read. -/
def oneSegment : List SessionInput := [.read (.constant none) 7 "PWD\r\nSYST\r\n".toList]

/-- The second of two commands in one read is not dispatched. -/
theorem stream_not_dispatched_together :
    ∃ h, acceptSession Env.shipped.config 0 [] (.accept 7 "10.0.0.9".toList) = .ok h ∧
      h.session.Buffers [] ∧ (∀ l ∈ ["PWD".toList, "SYST".toList], Line l) ∧
      (encode ["PWD".toList, "SYST".toList]).length < commandSize ∧ (∀ i ∈ oneSegment, i.Reads) ∧
      (oneSegment.map SessionInput.text).flatten = encode ["PWD".toList, "SYST".toList] ∧
      ¬ h.session.Delivers Env.shipped oneSegment ["PWD".toList, "SYST".toList] ∧
      h.session.Delivers Env.shipped oneSegment ["PWD".toList] :=
  ⟨_, rfl, ⟨rfl, rfl⟩,
    List.forall_mem_cons.mpr
      ⟨line_of_all (by decide) (by decide), List.forall_mem_singleton.mpr (line_of_all (by decide) (by decide))⟩,
    by decide, List.forall_mem_singleton.mpr ⟨rfl, by decide⟩, by decide,
    fun h => absurd h.2 (by decide +kernel), by decide +kernel, by decide +kernel⟩

end HyperTransfer
