import HyperTransfer.Session.Commands
import HyperTransfer.Tcp.Events

/-! The replies that wait to be written.

Queueing a reply adds the write event, and so does a reply that was written in part. A reply
written to its end adds nothing: those behind it wait for the next one to be queued
(`no_reply_stuck_iff`). -/
namespace HyperTransfer
open CString

namespace Client

/-- The part of a client the replies are in. -/
def replies (c : Client) : List CtrlBuffer × Bool := (c.writeQ, c.writePending)

/-- A reply that waits has the write event pending. -/
def Unstuck (c : Client) : Prop := c.writeQ ≠ [] → c.writePending = true

instance (c : Client) : Decidable c.Unstuck := inferInstanceAs (Decidable (_ → _))

variable {c d : Client}

theorem unstuck_of_replies (h : d.replies = c.replies) : d.Unstuck ↔ c.Unstuck := by
  injection h with hqueue hpending
  rw [Unstuck, Unstuck, hqueue, hpending]

@[simp] theorem clearDatafd_replies (c : Client) : c.clearDatafd.replies = c.replies := by
  obtain ⟨accept, write, h⟩ := clearDatafd_eq c
  rw [h]
  rfl

theorem dataAccept_replies (r : Option Fd) (c : Client) : (c.dataAccept r).1.replies = c.replies := by
  cases r <;> rfl

theorem dataRead_replies (r : DataReadResult) (c : Client) :
    Returns (c.dataRead r) fun p => p.1.replies = c.replies := by
  intro p hp
  cases dataRead_cases hp with
  | again => rfl
  | ended => exact clearDatafd_replies _
  | failed => exact clearDatafd_replies _
  | kept => rfl
  | full => rfl

/-- A notification arms the write event, or leaves the replies as they are. -/
theorem onNotify_unstuck (cfg : Config) (ports : List (Option (Fd × Int))) (n : EventNotify) (h : c.Unstuck) :
    (c.onNotify cfg ports n).1.Unstuck := by
  have hcases := onNotify_cases cfg ports n c
  generalize c.onNotify cfg ports n = r at hcases ⊢
  cases hcases with
  | reply => exact fun _ => rfl
  | port => exact h
  | transOk => exact (unstuck_of_replies (clearDatafd_replies _)).mpr fun _ => rfl
  | data => exact h
  | unknown => exact h

end Client

/-- The write callback, where it takes the whole first reply, finds it alone in the queue. -/
def FinishesAlone (e : ClientEdge) : Prop :=
  match e.before, e.input with
  | some c, .callback (.write (.wrote count)) =>
    match c.writeQ with
    | [] => True
    | q :: rest =>
      c.writePending = true → q.len ≤ q.offset + (min count (q.len - q.offset).toNat : Nat) → rest = []
  | _, _ => True

instance (e : ClientEdge) : Decidable (FinishesAlone e) := by
  unfold FinishesAlone
  split
  · split <;> infer_instance
  · infer_instance

/-- The client is gone, or unstuck. -/
def Delivering (s : Option Client) : Prop := ∀ c ∈ s, c.Unstuck

instance (s : Option Client) : Decidable (Delivering s) := inferInstanceAs (Decidable (∀ c ∈ s, c.Unstuck))

section
variable {cfg : Config} {c : Client} {k : Callback}

theorem delivering_some : Delivering (some c) ↔ c.Unstuck := by
  constructor
  · intro h
    exact h c rfl
  · exact holds_left

/-- The other callbacks leave the replies alone. -/
theorem callback_replies {s : Option Client} {es : List NetEffect} (hk : ∀ r, k ≠ .write r)
    (h : c.handle cfg (.callback k) = .ok (s, es)) : ∃ d, s = some d ∧ d.replies = c.replies := by
  cases hfires : k.fires c with
  | false =>
    rw [handle_idle hfires] at h
    cases h
    exact ⟨c, rfl, rfl⟩
  | true =>
    cases k with
    | write r => exact absurd rfl (hk r)
    | dataAccept r =>
      rw [handle_dataAccept hfires] at h
      cases h
      exact ⟨_, rfl, Client.dataAccept_replies r c⟩
    | dataRead r =>
      rw [handle_dataRead hfires] at h
      obtain ⟨p, hp, h⟩ := bind_eq_ok.mp h
      cases h
      exact ⟨_, rfl, Client.dataRead_replies r c p hp⟩
    | dataWrite r =>
      rw [handle_dataWrite hfires] at h
      cases h
      exact ⟨_, rfl, rfl⟩

/-- What the write callback makes of the queue. -/
theorem onWrite_unstuck {q : CtrlBuffer} {rest : List CtrlBuffer} {r : WriteResult} (hq : c.writeQ = q :: rest) :
    Delivering (c.onWrite r).1 ↔
      ∀ count, r = .wrote count → q.len ≤ q.offset + (min count (q.len - q.offset).toNat : Nat) → rest = [] := by
  unfold Client.onWrite
  rw [hq]
  dsimp only
  cases r with
  | wrote count =>
    dsimp only
    split
    · rename_i hpart
      refine iff_of_true (delivering_some.mpr fun _ => rfl) ?_
      intro n hn hwhole
      cases hn
      omega
    · rename_i hwhole
      rw [delivering_some]
      constructor
      · intro hunstuck n _ _
        by_contra hrest
        exact nomatch hunstuck hrest
      · intro halone hrest
        exact absurd (halone count rfl (by omega)) hrest
  | _ =>
    refine iff_of_true (fun d hd => nomatch hd) ?_
    intro n hn
    exact nomatch hn

theorem finishes_alone_iff {q : CtrlBuffer} {rest : List CtrlBuffer} {count : Nat} {after : Option Client}
    {es : List NetEffect} (hq : c.writeQ = q :: rest) :
    FinishesAlone ⟨some c, .callback (.write (.wrote count)), after, es⟩ ↔
      (c.writePending = true → q.len ≤ q.offset + (min count (q.len - q.offset).toNat : Nat) → rest = []) := by
  unfold FinishesAlone
  dsimp only
  rw [hq]

theorem unstuck_step {e : ClientEdge} (h : (tcpClient cfg).Takes e) (hbefore : Delivering e.before) :
    Delivering e.after ↔ FinishesAlone e := by
  obtain ⟨before, input, after, effects⟩ := e
  cases before with
  | none =>
    cases h
    exact iff_of_true hbefore trivial
  | some c =>
    have hc : c.Unstuck := delivering_some.mp hbefore
    have h : c.handle cfg input = .ok (after, effects) := h
    cases input with
    | notify n ports =>
      rw [handle_notify] at h
      cases h
      exact iff_of_true (delivering_some.mpr (Client.onNotify_unstuck cfg ports n hc)) trivial
    | callback k =>
      cases k with
      | write r =>
        cases hpending : c.writePending with
        | false =>
          -- the event is not pending: there is nothing to write
          have hnil : c.writeQ = [] := by
            by_contra hne
            rw [hc hne] at hpending
            exact nomatch hpending
          rw [handle_idle (k := .write r) hpending] at h
          cases h
          apply iff_of_true hbefore
          unfold FinishesAlone
          cases r with
          | wrote count =>
            dsimp only
            rw [hnil]
            trivial
          | _ => trivial
        | true =>
          rw [handle_write hpending] at h
          injection h with h
          have hafter : after = (c.onWrite r).1 := (congrArg Prod.fst h).symm
          rw [hafter]
          cases hq : c.writeQ with
          | nil =>
            refine iff_of_true ?_ ?_
            · unfold Client.onWrite
              dsimp only
              rw [hq]
              exact delivering_some.mpr fun hne => absurd rfl hne
            · unfold FinishesAlone
              cases r with
              | wrote count =>
                dsimp only
                rw [hq]
                trivial
              | _ => trivial
          | cons q rest =>
            rw [onWrite_unstuck hq]
            cases r with
            | wrote count =>
              rw [finishes_alone_iff hq]
              constructor
              · intro halone _ hwhole
                exact halone count rfl hwhole
              · intro halone n hn hwhole
                cases hn
                exact halone hpending hwhole
            | _ => exact iff_of_true (fun n hn => nomatch hn) trivial
      | _ =>
        obtain ⟨d, hd, hsame⟩ := callback_replies (by simp) h
        rw [hd]
        exact iff_of_true (delivering_some.mpr ((Client.unstuck_of_replies hsame).mpr hc)) trivial

end

/-- **No reply gets stuck**, exactly when no write callback finishes a reply that has others
behind it. -/
theorem no_reply_stuck_iff (cfg : Config) (address : Nat) (fd : Fd) (inputs : List ClientEvent) :
    (∀ s ∈ (tcpClient cfg).states (some (.new address fd)) inputs, Delivering s) ↔
      ∀ e ∈ (tcpClient cfg).trace (some (.new address fd)) inputs, FinishesAlone e :=
  Machine.invariant_iff (delivering_some.mpr fun h => absurd rfl h) fun _ he hb => unstuck_step he hb

/-- Two replies are queued before the first is written. -/
def twoReplies : List ClientEvent :=
  [.notify {fd := 7, action := .ctrlWrite, buf := "350 a\r\n".toList, len := 7} [],
    .notify {fd := 7, action := .ctrlWrite, buf := "350 b\r\n".toList, len := 7} [], .callback (.write (.wrote 7))]

/-- The second is left in the queue, with nothing to write it. -/
theorem second_reply_stuck :
    ∃ c ∈ ((tcpClient Env.shipped.config).states (some (.new 0 7)) twoReplies).flatMap Option.toList,
      c.writeQ = [{buf := "350 b\r\n".toList, len := 7, offset := 0}] ∧ c.writePending = false ∧ ¬ c.Unstuck := by
  decide +kernel

end HyperTransfer
