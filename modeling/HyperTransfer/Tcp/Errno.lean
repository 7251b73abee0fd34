import HyperTransfer.Tcp.Upload

/-! The end of an upload and `errno`.

`errno` belongs to the thread: a call that fails sets it, one that succeeds leaves it as the
last failure of any client has left it. A read that brings nothing is such a call, and the
read callback looks at `errno` all the same before it believes that the file has ended
(`end_seen_iff`). -/
namespace HyperTransfer

inductive Errno where
  | clear | intr | again
  | other (code : Int)
deriving DecidableEq

/-- `EINTR`, `EAGAIN`, or `EWOULDBLOCK`, which is the same. -/
def Errno.retry : Errno → Bool
  | .intr => true
  | .again => true
  | _ => false

/-- What `read` returns on the data socket. -/
inductive ReadCall where
  | read (bytes : List Char) (le : bytes.length ≤ dataSize)
  | failed (e : Errno)

/-- What `write` returns on a socket. -/
inductive WriteCall where
  | wrote (count : Nat)
  | failed (e : Errno)
deriving DecidableEq

/-- What happens to a client, with what the calls return. -/
inductive ThreadEvent where
  | notify (n : EventNotify) (ports : List (Option (Fd × Int)))
  | write (r : WriteCall)
  | dataAccept (r : Except Errno Fd)
  | dataRead (r : ReadCall)
  | dataWrite (r : WriteCall)

/-- What the callback makes of a read, given `errno` as it was before. -/
def ReadCall.seen (errno : Errno) : ReadCall → DataReadResult
  | .read bytes le => if pos : 0 < bytes.length then .read bytes pos le else .eof errno.retry
  | .failed e => .failed e.retry

def WriteCall.seen : WriteCall → WriteResult
  | .wrote count => .wrote count
  | .failed e => if e.retry then .again else .failed

def ThreadEvent.seen (errno : Errno) : ThreadEvent → ClientEvent
  | .notify n ports => .notify n ports
  | .write r => .callback (.write r.seen)
  | .dataAccept (.ok fd) => .callback (.dataAccept (some fd))
  | .dataAccept (.error _) => .callback (.dataAccept none)
  | .dataRead r => .callback (.dataRead (r.seen errno))
  | .dataWrite r => .callback (.dataWrite r.seen)

/-- The error of the call the event makes on the client, if it makes one and that fails. -/
def ThreadEvent.fails (c : Client) : ThreadEvent → Option Errno
  | .write (.failed e) => if c.writePending && !c.writeQ.isEmpty then some e else none
  | .dataAccept (.error e) => if c.acceptPending then some e else none
  | .dataRead (.failed e) => if c.dataFd.isSome then some e else none
  | .dataWrite (.failed e) => if c.dataWritePending && !c.dataWriteQ.isEmpty then some e else none
  | _ => none

/-- An event of the client, after other calls of the thread, each with the error it fails with. -/
structure ThreadInput where
  calls : List (Option Errno)
  event : ThreadEvent

/-- `errno` after a number of calls. -/
def Errno.after (errno : Errno) (calls : List (Option Errno)) : Errno := calls.foldl (fun e call => call.getD e) errno

/-- One client, and the `errno` of the thread that serves it. -/
def clientThread (cfg : Config) : Machine ThreadInput (Errno × Option Client) NetEffect Halt where
  step i s := do
    let errno := s.1.after i.calls
    let (c, es) ← (tcpClient cfg).step (i.event.seen errno) s.2
    return ((((s.2.bind i.event.fails).getD errno), c), es)

abbrev ThreadEdge := Edge ThreadInput (Errno × Option Client) NetEffect

/-- A read that brings nothing. -/
def ThreadEvent.ends : ThreadEvent → Bool
  | .dataRead (.read [] _) => true
  | _ => false

/-- The upload's end is seen: its last task is posted with what is held, nothing is held any
more, and the data connection is closed. -/
def EndSeen (e : ThreadEdge) : Prop :=
  e.input.event.ends = true → ∀ c ∈ e.before.2, c.dataFd.isSome = true →
    e.effects = [.data (.postToDisk (c.bufferTask .storOk))] ∧
      ∃ d, e.after.2 = some d ∧ d.fileBuffer = [] ∧ d.dataFd = none

/-- A read that brings nothing finds that the last call to fail, whoever it was for, was not
one to be tried again. -/
def EndClear (e : ThreadEdge) : Prop :=
  e.input.event.ends = true → ∀ c ∈ e.before.2, c.dataFd.isSome = true → (e.before.1.after e.input.calls).retry = false

/-- The tasks a run posts to the disk threads. -/
def diskTasks (run : List ThreadEdge) : List DiskTask :=
  run.flatMap fun e => e.effects.filterMap fun
    | .data (.postToDisk t) => some t
    | _ => none

instance (e : ThreadEdge) : Decidable (EndClear e) := inferInstanceAs (Decidable (_ → ∀ c ∈ _, _ → _))

section
variable {cfg : Config} {e : ThreadEdge}

theorem seen_ends {i : ThreadEvent} (h : i.ends = true) (errno : Errno) :
    i.seen errno = .callback (.dataRead (.eof errno.retry)) := by
  unfold ThreadEvent.ends at h
  split at h
  · rfl
  · exact nomatch h

/-- Only a read that brings nothing looks at `errno` as it was. -/
theorem seen_other {i : ThreadEvent} (h : i.ends = false) (errno errno' : Errno) : i.seen errno = i.seen errno' := by
  cases i with
  | dataRead r =>
    cases r with
    | failed e => rfl
    | read bytes le =>
      cases bytes with
      | nil => exact nomatch h
      | cons b bytes => rfl
  | dataAccept r => cases r <;> rfl
  | _ => rfl

theorem takes_client (h : (clientThread cfg).Takes e) :
    (tcpClient cfg).step (e.input.event.seen (e.before.1.after e.input.calls)) e.before.2 = .ok (e.after.2, e.effects) := by
  obtain ⟨r, hr, he⟩ := bind_eq_ok.mp h
  injection he with he
  injection he with hafter heffects
  rw [hr, ← hafter, ← heffects]

theorem end_seen_step (h : (clientThread cfg).Takes e) : EndSeen e ↔ EndClear e := by
  refine imp_congr_right fun hends => forall₂_congr fun c hc => imp_congr_right fun hfd => ?_
  have hstep := takes_client h
  rw [seen_ends hends] at hstep
  rw [show e.before.2 = some c from hc] at hstep
  have hstep : c.handle cfg (.callback (.dataRead (.eof (e.before.1.after e.input.calls).retry))) =
      .ok (e.after.2, e.effects) := hstep
  rw [handle_dataRead hfd] at hstep
  obtain ⟨p, hp, hstep⟩ := bind_eq_ok.mp hstep
  injection hstep with hstep
  injection hstep with hafter heffects
  rw [← hafter, ← heffects]
  cases hretry : (e.before.1.after e.input.calls).retry with
  | true =>
    rw [hretry] at hp
    cases hp
    exact iff_of_false (fun hseen => nomatch hseen.1) (fun hclear => nomatch hclear)
  | false =>
    rw [hretry] at hp
    cases dataRead_cases hp with
    | again _ hr => rcases hr with hr | hr <;> exact nomatch hr
    | ended =>
      refine iff_of_true ⟨rfl, _, rfl, ?_, (clearDatafd_fields _).2⟩ rfl
      rw [clearDatafd_fileBuffer]
      rfl

/-! ### Two runs -/

/-- The event where the end is believed. -/
def ThreadEvent.settled (i : ThreadEvent) : ClientEvent := i.seen .clear

/-- Where the end is believed if it comes, `errno` makes no difference to the step. -/
theorem step_settled {i : ThreadEvent} {errno : Errno} {s : Option Client}
    (hclear : i.ends = true → ∀ c ∈ s, c.dataFd.isSome = true → errno.retry = false) :
    (tcpClient cfg).step (i.seen errno) s = (tcpClient cfg).step i.settled s := by
  cases hends : i.ends with
  | false => rw [ThreadEvent.settled, seen_other hends errno .clear]
  | true =>
    rw [ThreadEvent.settled, seen_ends hends, seen_ends hends]
    cases s with
    | none => rfl
    | some c =>
      cases hfd : c.dataFd.isSome with
      | false =>
        have hidle (r : DataReadResult) : c.handle cfg (.callback (.dataRead r)) = .ok (some c, []) := handle_idle hfd
        exact (hidle _).trans (hidle _).symm
      | true =>
        rw [hclear hends c rfl hfd]
        rfl

/-- A read that brings nothing and is put off does not fail. -/
theorem step_put_off (cfg : Config) (s : Option Client) {i : ThreadEvent} {errno : Errno} (hends : i.ends = true)
    (hretry : errno.retry = true) : ∃ r, (tcpClient cfg).step (i.seen errno) s = .ok r := by
  rw [seen_ends hends, hretry]
  cases s with
  | none => exact ⟨_, rfl⟩
  | some c =>
    cases hfd : c.dataFd.isSome with
    | false =>
      have hidle : c.handle cfg (.callback (.dataRead (.eof true))) = .ok (some c, []) := handle_idle hfd
      exact ⟨_, hidle⟩
    | true =>
      have hread : c.handle cfg (.callback (.dataRead (.eof true))) = .ok (some c, []) := by
        rw [handle_dataRead hfd]
        rfl
      exact ⟨_, hread⟩

/-- A clear run is the run of the client alone. -/
theorem run_settled {inputs : List ThreadInput} {s : Errno × Option Client}
    (hclear : ∀ e ∈ (clientThread cfg).trace s inputs, EndClear e) :
    ((clientThread cfg).trace s inputs).flatMap Edge.effects =
      ((tcpClient cfg).trace s.2 (inputs.map fun i => i.event.settled)).flatMap Edge.effects := by
  induction inputs generalizing s with
  | nil => rfl
  | cons i inputs ih =>
    rw [List.map_cons]
    cases hstep : (tcpClient cfg).step (i.event.seen (s.1.after i.calls)) s.2 with
    | error f =>
      have hfails : (clientThread cfg).step i s = .error f := by
        show ((tcpClient cfg).step (i.event.seen (s.1.after i.calls)) s.2 >>= _) = _
        rw [hstep]
        rfl
      have hsettled : (tcpClient cfg).step i.event.settled s.2 = .error f := by
        have hclear : i.event.ends = true → ∀ c ∈ s.2, c.dataFd.isSome = true → (s.1.after i.calls).retry = false := by
          intro hends c _ _
          by_contra hretry
          obtain ⟨r, hr⟩ := step_put_off cfg s.2 hends (Bool.not_eq_false _ ▸ hretry)
          exact nomatch hstep.symm.trans hr
        rw [← step_settled hclear, hstep]
      rw [Machine.trace_error hfails, Machine.trace_error hsettled]
      rfl
    | ok r =>
      obtain ⟨c, es⟩ := r
      have htakes : (clientThread cfg).step i s = .ok (((s.2.bind i.event.fails).getD (s.1.after i.calls), c), es) := by
        show ((tcpClient cfg).step (i.event.seen (s.1.after i.calls)) s.2 >>= _) = _
        rw [hstep]
        rfl
      rw [Machine.trace_ok htakes] at hclear ⊢
      obtain ⟨hfirst, hrest⟩ := List.forall_mem_cons.mp hclear
      have hsettled : (tcpClient cfg).step i.event.settled s.2 = .ok (c, es) := by
        rw [← step_settled hfirst, hstep]
      rw [Machine.trace_ok hsettled, List.flatMap_cons, List.flatMap_cons, ih hrest]

end

/-- **The end of an upload is seen**, and runs that differ in the calls made for others post
the same tasks, exactly where no read that brings nothing finds an `errno` that asks for
another try. -/
theorem end_seen_iff (cfg : Config) (c : Option Client) (errno errno' : Errno) (inputs inputs' : List ThreadInput)
    (hsame : inputs.map ThreadInput.event = inputs'.map ThreadInput.event) :
    ((∀ e ∈ (clientThread cfg).trace (errno, c) inputs, EndSeen e) ∧
        (∀ e ∈ (clientThread cfg).trace (errno', c) inputs', EndSeen e) ∧
        diskTasks ((clientThread cfg).trace (errno, c) inputs) = diskTasks ((clientThread cfg).trace (errno', c) inputs')) ↔
      (∀ e ∈ (clientThread cfg).trace (errno, c) inputs, EndClear e) ∧
        ∀ e ∈ (clientThread cfg).trace (errno', c) inputs', EndClear e := by
  have hrun (errno : Errno) (inputs : List ThreadInput) :
      (∀ e ∈ (clientThread cfg).trace (errno, c) inputs, EndSeen e) ↔
        ∀ e ∈ (clientThread cfg).trace (errno, c) inputs, EndClear e := by
    apply forall₂_congr
    intro e he
    exact end_seen_step (Machine.takes_of_mem he)
  rw [hrun, hrun, ← and_assoc]
  apply and_iff_left_of_imp
  intro hclear
  have hevents (inputs : List ThreadInput) : inputs.map (fun i => i.event.settled) =
      (inputs.map ThreadInput.event).map ThreadEvent.settled := by rw [List.map_map]; rfl
  have htasks (run : List ThreadEdge) : diskTasks run = (run.flatMap Edge.effects).filterMap fun
      | .data (.postToDisk t) => some t
      | _ => none := by
    rw [List.filterMap_flatMap]
    rfl
  rw [htasks, htasks, run_settled hclear.1, run_settled hclear.2, hevents, hevents, hsame]

theorem ab_length_le : "ab".toList.length ≤ dataSize := by decide

/-- An upload of two bytes, its end read after other calls of the thread. -/
def uploadAfter (calls : List (Option Errno)) : List ThreadInput :=
  [⟨[], .notify {fd := 7, action := .pasv} [some (9, 2024)]⟩, ⟨[], .dataAccept (.ok 10)⟩,
    ⟨[], .dataRead (.read "ab".toList ab_length_le)⟩, ⟨calls, .dataRead (.read [] (by decide))⟩]

theorem end_seen_clear :
    (∀ e ∈ (clientThread Env.shipped.config).trace (.clear, some (.new 0 7)) (uploadAfter []), EndSeen e) ∧
      (∀ e ∈ (clientThread Env.shipped.config).trace (.clear, some (.new 0 7)) (uploadAfter [some (.other 104)]), EndSeen e) ∧
      diskTasks ((clientThread Env.shipped.config).trace (.clear, some (.new 0 7)) (uploadAfter [])) =
        diskTasks ((clientThread Env.shipped.config).trace (.clear, some (.new 0 7)) (uploadAfter [some (.other 104)])) :=
  (end_seen_iff Env.shipped.config (some (.new 0 7)) .clear .clear (uploadAfter []) (uploadAfter [some (.other 104)])
    rfl).mpr (by decide +kernel)

/-- A write for another client that could not be done at once, and the upload's end is missed. -/
theorem end_missed :
    ¬ (∀ e ∈ (clientThread Env.shipped.config).trace (.clear, some (.new 0 7)) (uploadAfter [some .again, none]), EndSeen e) ∧
      diskTasks ((clientThread Env.shipped.config).trace (.clear, some (.new 0 7)) (uploadAfter [some .again, none])) = [] ∧
      (diskTasks ((clientThread Env.shipped.config).trace (.clear, some (.new 0 7)) (uploadAfter []))).map
          (fun t => (t.action, t.payload)) =
        [(.storOk, "ab".toList)] := by
  refine ⟨fun h => ?_, by decide +kernel, by decide +kernel⟩
  obtain ⟨hposts, _⟩ := h _ (List.mem_of_getLast? rfl) rfl _ rfl rfl
  exact absurd hposts (by decide +kernel)

end HyperTransfer
