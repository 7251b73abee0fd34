import HyperTransfer.Session.Commands
import HyperTransfer.Tcp.Events

/-! Whom a reply reaches.

A worker posts for its connection, but the notification only names a descriptor. The loop
looks the descriptor up when it reads the pipe; by then the connection may be gone, and its
descriptor nobody's or another connection's (`drops_removed_iff`). -/
namespace HyperTransfer
open CString

namespace TcpManager

/-- The connection is gone. -/
def Removed (m : TcpManager) (conn : Nat) : Prop := ∀ fd, ∀ c ∈ m.clients fd, c.address ≠ conn

/-- What is queued for the client of a descriptor. -/
def queues (m : TcpManager) (fd : Fd) : Option (List CtrlBuffer × List DataBuffer) :=
  (m.clients fd).map fun c => (c.writeQ, c.dataWriteQ)

end TcpManager

/-- The loop reads a notification posted for a connection: its number, and the notification. -/
def reads (a : TcpManager × LoopEvent) : Option (Nat × EventNotify) :=
  match a.2 with
  | .notify _ => a.1.pipe.head?
  | _ => none

/-- A notification for a connection that is gone is dropped: the callback completes, and
nothing is queued for anybody. -/
def Drops (cfg : Config) (a : TcpManager × LoopEvent) : Prop :=
  ∀ conn n, reads a = some (conn, n) → a.1.Removed conn →
    ∃ m es, (eventLoop cfg).step a.2 a.1 = .ok (m, es) ∧ m.queues = a.1.queues

/-- It names the descriptor of another connection, and queues nothing: it asks for a data
port, or is of no known action. -/
def Harmless (a : TcpManager × LoopEvent) : Prop :=
  ∀ conn n, reads a = some (conn, n) → a.1.Removed conn →
    (a.1.seekClient n.fd).isSome = true ∧ (n.action = .pasv ∨ ∃ code, n.action = .other code)

section
variable {cfg : Config} {ports : List (Option (Fd × Int))} {n : EventNotify}

@[simp] theorem clearDatafd_writeQ (c : Client) : c.clearDatafd.writeQ = c.writeQ := by
  obtain ⟨accept, write, h⟩ := clearDatafd_eq c
  rw [h]

/-- A notification leaves the queues of a client alone exactly if it is no reply. -/
theorem onNotify_queues (cfg : Config) (ports : List (Option (Fd × Int))) (n : EventNotify) (c : Client) :
    ((c.onNotify cfg ports n).1.writeQ, (c.onNotify cfg ports n).1.dataWriteQ) = (c.writeQ, c.dataWriteQ) ↔
      n.action = .pasv ∨ ∃ code, n.action = .other code := by
  -- a queue with something put at its end is another one
  have hlonger {A : Type} (q : List A) (a : A) : ¬ q ++ [a] = q := by
    intro h
    have := congrArg List.length h
    simp at this
  have hcases := onNotify_cases cfg ports n c
  generalize c.onNotify cfg ports n = r at hcases ⊢
  cases hcases with
  | reply haction =>
    refine iff_of_false (fun h => ?_) (by simp [haction])
    exact hlonger _ _ (congrArg Prod.fst h)
  | port haction => exact iff_of_true rfl (Or.inl haction)
  | transOk haction =>
    refine iff_of_false (fun h => ?_) (by simp [haction])
    have hqueue := congrArg Prod.fst h
    dsimp only at hqueue
    rw [clearDatafd_writeQ] at hqueue
    exact hlonger _ _ hqueue
  | data haction =>
    refine iff_of_false (fun h => ?_) (by simp [haction])
    exact hlonger _ _ (congrArg Prod.snd h)
  | unknown code haction => exact iff_of_true rfl (Or.inr ⟨code, haction⟩)

/-- What reading a notification does: it faults, or it is the client of the descriptor that
is notified. -/
theorem onNotify_step {m : TcpManager} {conn : Nat} {rest : List (Nat × EventNotify)}
    (hpipe : m.pipe = (conn, n) :: rest) :
    m.onNotify cfg ports =
      match m.seekClient n.fd with
      | none => .error (.fault .nullPointer)
      | some c => .ok ({m with pipe := rest}.leave n.fd (some (c.onNotify cfg ports n).1), (c.onNotify cfg ports n).2) := by
  unfold TcpManager.onNotify
  rw [hpipe]
  dsimp only
  cases m.seekClient n.fd with
  | none => rfl
  | some c =>
    dsimp only
    rw [handle_notify]
    rfl

theorem leave_queues {m : TcpManager} {fd : Fd} {c d : Client} {pipe : List (Nat × EventNotify)}
    (hc : m.seekClient fd = some c) : ({m with pipe := pipe}.leave fd (some d)).queues = m.queues ↔
      (d.writeQ, d.dataWriteQ) = (c.writeQ, c.dataWriteQ) := by
  constructor
  · intro h
    have hfd := congrFun h fd
    unfold TcpManager.queues TcpManager.leave at hfd
    dsimp only at hfd
    rw [Registry.modify_same, show m.clients fd = some c from hc] at hfd
    exact Option.some.inj hfd
  · intro h
    funext g
    unfold TcpManager.queues TcpManager.leave
    dsimp only
    by_cases hg : g = fd
    · rw [hg, Registry.modify_same, show m.clients fd = some c from hc, Option.map_some, Option.map_some, h]
    · rw [Registry.modify_other _ _ hg]

theorem drops_iff (a : TcpManager × LoopEvent) : Drops cfg a ↔ Harmless a := by
  obtain ⟨m, i⟩ := a
  unfold Drops Harmless
  refine forall_congr' fun conn => forall_congr' fun n => ?_
  refine imp_congr_right fun hreads => imp_congr_right fun _ => ?_
  cases i with
  | notify ports =>
    obtain ⟨rest, hpipe⟩ : ∃ rest, m.pipe = (conn, n) :: rest := by
      cases hp : m.pipe with
      | nil => simp [reads, hp] at hreads
      | cons x rest =>
        simp only [reads, hp, List.head?_cons, Option.some.injEq] at hreads
        exact ⟨rest, by rw [hreads]⟩
    have hstep : (eventLoop cfg).step (.notify ports) m = m.onNotify cfg ports := rfl
    dsimp only
    rw [hstep, onNotify_step hpipe]
    cases hc : m.seekClient n.fd with
    | none =>
      refine iff_of_false (fun h => ?_) (fun h => nomatch h.1)
      obtain ⟨m', es, hok, _⟩ := h
      exact nomatch hok
    | some c =>
      dsimp only
      rw [← onNotify_queues cfg ports n c, ← leave_queues hc]
      constructor
      · intro h
        obtain ⟨m', es, hok, hsame⟩ := h
        cases hok
        exact ⟨rfl, hsame⟩
      · intro h
        exact ⟨_, _, rfl, h.2⟩
  | _ => exact nomatch hreads

end

/-- **Replies reach only their own connection**, exactly when the notifications read for a
connection that is gone find its descriptor taken, and are no replies. -/
theorem drops_removed_iff (cfg : Config) (inputs : List LoopEvent) :
    (∀ a ∈ (eventLoop cfg).attempts .start inputs, Drops cfg a) ↔
      ∀ a ∈ (eventLoop cfg).attempts .start inputs, Harmless a :=
  forall₂_congr fun a _ => drops_iff a

/-- A client leaves with a reply to it in the pipe, and others may come. -/
def leavesBehind (others : List LoopEvent) : List LoopEvent :=
  [.accept 7 "10.0.0.9".toList, .post 0 .ctrlWrite "257 \"/\"\r\n".toList 9, .read 7 .closed] ++ others ++ [.notify []]

/-- The clients that are left then. -/
def leftBehind : Fd → Option Client := Registry.erase (Registry.insert (fun _ => none) 7 (.new 0 7)) 7

theorem left_none (fd : Fd) : leftBehind fd = none := by
  unfold leftBehind
  by_cases hfd : fd = 7
  · rw [hfd]
    rfl
  · rw [Registry.erase_other _ hfd, Registry.insert_other _ _ hfd]

theorem left_next {fd : Fd} {c : Client} (hc : Registry.insert leftBehind 7 (.new 1 7) fd = some c) : c.address ≠ 0 := by
  by_cases hfd : fd = 7
  · rw [hfd] at hc
    cases hc
    decide
  · rw [Registry.insert_other _ _ hfd, left_none] at hc
    exact nomatch hc

/-- With nobody at the descriptor the loop goes through a null pointer; the next connection
that gets it is sent the reply to the one before. -/
theorem reply_strays :
    (∃ a ∈ (eventLoop Env.shipped.config).attempts .start (leavesBehind []), ¬ Drops Env.shipped.config a ∧
      (eventLoop Env.shipped.config).step a.2 a.1 = .error (.fault .nullPointer)) ∧
    ∃ a ∈ (eventLoop Env.shipped.config).attempts .start (leavesBehind [.accept 7 "10.0.0.8".toList]),
      ¬ Drops Env.shipped.config a ∧ ∃ m es, (eventLoop Env.shipped.config).step a.2 a.1 = .ok (m, es) ∧
        (m.clients 7).map (fun c => (c.address, c.writeQ.map CtrlBuffer.buf)) = some (1, ["257 \"/\"\r\n".toList]) := by
  refine ⟨⟨_, List.mem_of_getLast? rfl, fun h => ?_, rfl⟩, ⟨_, List.mem_of_getLast? rfl, fun h => ?_, _, _, rfl, ?_⟩⟩
  · have hharmless := (drops_iff _).mp h 0 _ rfl fun fd c hc => nomatch (left_none fd).symm.trans hc
    exact nomatch hharmless.1
  · have hharmless := (drops_iff _).mp h 0 _ rfl fun fd c hc => left_next hc
    rcases hharmless.2 with haction | ⟨code, haction⟩ <;> exact nomatch haction
  · decide +kernel

end HyperTransfer
