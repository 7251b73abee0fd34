import HyperTransfer.Lib.Outbox
import HyperTransfer.Tcp.Replies

/-! The order in which replies are written.

Replies are queued as they are posted, `on_write` writes on where it stopped in the first of
them, and deletes it with the piece that takes the rest. A client's queue is an outbox whose
blocks are the bytes of the replies (`sends_step`), so what goes out is always the beginning
of what was posted, and a reply is freed with its last byte (`replies_in_order`). -/
namespace HyperTransfer

/-- The notifications that bring a reply. -/
def EventNotify.Queues (n : EventNotify) : Prop := n.action = .ctrlWrite ∨ n.action = .transOk

instance (n : EventNotify) : Decidable n.Queues := inferInstanceAs (Decidable (_ ∨ _))

/-- The bytes of a reply that are written. -/
def CtrlBuffer.bytes (q : CtrlBuffer) : List Char := q.buf.take q.len.toNat

/-- A reply as it was posted. -/
def CtrlBuffer.fresh (q : CtrlBuffer) : CtrlBuffer := {q with offset := 0}

/-- The length of a reply is one of its array. -/
def CtrlBuffer.Sized (q : CtrlBuffer) : Prop := 0 ≤ q.len ∧ q.len ≤ q.buf.length

namespace Client

/-- The reply `on_write` removes from the queue and deletes with its array. -/
def frees (r : WriteResult) (c : Client) : Option CtrlBuffer :=
  match c.writeQ, r with
  | q :: _, .wrote count => if q.offset + (min count (q.len - q.offset).toNat : Nat) < q.len then none else some q
  | _, _ => none

/-- How much is written of the first reply. -/
def headOffset (c : Client) : Nat :=
  match c.writeQ with
  | [] => 0
  | q :: _ => q.offset.toNat

end Client

/-- The reply a step queues. -/
def postedBy (e : ClientEdge) : List CtrlBuffer :=
  match e.before, e.input with
  | some _, .notify n _ => if n.Queues then [{buf := n.buf, len := n.len, offset := 0}] else []
  | _, _ => []

/-- The reply a step frees. -/
def freedBy (e : ClientEdge) : List CtrlBuffer :=
  match e.before, e.input with
  | some c, .callback (.write r) => if c.writePending then (c.frees r).toList else []
  | _, _ => []

/-- The bytes an effect writes to the control socket. -/
def NetEffect.ctrlBytes : NetEffect → List Char
  | .wroteCtrl bytes => bytes
  | _ => []

/-- The bytes a step writes to it. -/
def sentBy (e : ClientEdge) : List Char := e.effects.flatMap NetEffect.ctrlBytes

/-- A client after so much has been posted, freed and sent: the queue is what is not freed,
and the outbox it stands for is faithful. -/
structure Client.Sends (posted freed : List CtrlBuffer) (sent : List Char) (c : Client) : Prop where
  queue : freed.map CtrlBuffer.fresh ++ c.writeQ.map CtrlBuffer.fresh = posted
  begun : ∀ q ∈ c.writeQ, 0 ≤ q.offset
  waiting : ∀ q ∈ c.writeQ.tail, q.offset = 0
  sized : ∀ q ∈ c.writeQ, q.Sized
  faithful : Outbox.Faithful {
    posted := posted.map CtrlBuffer.bytes, done := freed.length, offset := c.headOffset, written := sent }

section
variable {cfg : Config} {c d : Client} {posted freed : List CtrlBuffer} {sent : List Char} {e : ClientEdge}
  {q : CtrlBuffer} {rest : List CtrlBuffer}

/-- Only the queue matters. -/
theorem Client.Sends.same (h : c.Sends posted freed sent) (hqueue : d.writeQ = c.writeQ) :
    d.Sends posted freed sent := by
  have hhead : d.headOffset = c.headOffset := by rw [headOffset, headOffset, hqueue]
  exact ⟨hqueue ▸ h.queue, hqueue ▸ h.begun, hqueue ▸ h.waiting, hqueue ▸ h.sized, hhead ▸ h.faithful⟩

theorem Client.Sends.start (address : Nat) (fd : Fd) : (Client.new address fd).Sends [] [] [] :=
  ⟨rfl, fun _ h => (nomatch h), fun _ h => (nomatch h), fun _ h => (nomatch h), Outbox.faithful_start⟩

/-- The first reply is the block under way. -/
theorem Client.Sends.block (h : c.Sends posted freed sent) (hq : c.writeQ = q :: rest) :
    freed.length < posted.length ∧ Outbox.block {
      posted := posted.map CtrlBuffer.bytes, done := freed.length, offset := c.headOffset, written := sent } = q.bytes := by
  have hposted := h.queue
  rw [hq, List.map_cons] at hposted
  constructor
  · rw [← hposted, List.length_append, List.length_map, List.length_cons]
    omega
  · have hget : posted[freed.length]? = some q.fresh := by
      rw [← hposted, List.getElem?_append_right (by rw [List.length_map]), List.length_map, Nat.sub_self]
      rfl
    rw [Outbox.block, List.getElem?_map, hget]
    rfl

theorem CtrlBuffer.Sized.length (h : q.Sized) : q.bytes.length = q.len.toNat := by
  have hboth := h
  obtain ⟨hlow, hhigh⟩ := hboth
  rw [CtrlBuffer.bytes, List.length_take]
  omega

/-- A reply is queued behind the others. -/
theorem Client.Sends.queueReply {n : EventNotify} (h : c.Sends posted freed sent)
    (hsized : 0 ≤ n.len ∧ n.len ≤ n.buf.length) :
    (c.queueReply n).Sends (posted ++ [{buf := n.buf, len := n.len, offset := 0}]) freed sent := by
  have hnew : ∀ q ∈ c.writeQ ++ [({buf := n.buf, len := n.len, offset := 0} : CtrlBuffer)],
      q ∈ c.writeQ ∨ q = {buf := n.buf, len := n.len, offset := 0} := by
    intro q hq
    exact (List.mem_append.mp hq).imp id List.mem_singleton.mp
  refine ⟨?_, ?_, ?_, ?_, ?_⟩
  · show freed.map CtrlBuffer.fresh ++ (c.writeQ ++ [_]).map CtrlBuffer.fresh = _
    rw [List.map_append, ← List.append_assoc, h.queue]
    rfl
  · intro q hq
    rcases hnew q hq with hq | rfl
    · exact h.begun q hq
    · exact Int.le_refl 0
  · intro q hq
    cases hqueue : c.writeQ with
    | nil =>
      change q ∈ (c.writeQ ++ [_]).tail at hq
      rw [hqueue] at hq
      exact nomatch hq
    | cons first rest =>
      change q ∈ (c.writeQ ++ [_]).tail at hq
      rw [hqueue, List.cons_append, List.tail_cons] at hq
      rcases List.mem_append.mp hq with hq | hq
      · exact h.waiting q (by rw [hqueue]; exact hq)
      · rw [List.mem_singleton.mp hq]
  · intro q hq
    rcases hnew q hq with hq | rfl
    · exact h.sized q hq
    · exact hsized
  · have hhead : (c.queueReply n).headOffset = c.headOffset := by
      unfold headOffset Client.queueReply
      cases c.writeQ <;> rfl
    rw [hhead, List.map_append]
    exact Outbox.faithful_step (.post _ _) h.faithful

/-- A piece that leaves some of the first reply. -/
theorem Client.Sends.part {k : Nat} (h : c.Sends posted freed sent) (hq : c.writeQ = q :: rest)
    (hleft : q.offset + k < q.len) (hd : d.writeQ = {q with offset := q.offset + k} :: rest) :
    d.Sends posted freed (sent ++ (q.buf.drop q.offset.toNat).take k) := by
  have hmem : q ∈ c.writeQ := by
    rw [hq]
    exact List.mem_cons_self ..
  have hoffset := h.begun q hmem
  obtain ⟨_, hblock⟩ := h.block hq
  have hlength := (h.sized q hmem).length
  have hhead : c.headOffset = q.offset.toNat := by rw [headOffset, hq]
  have hhead' : d.headOffset = q.offset.toNat + k := by
    rw [headOffset, hd]
    show (q.offset + k).toNat = _
    omega
  refine ⟨?_, ?_, ?_, ?_, ?_⟩
  · rw [hd, ← h.queue, hq]
    rfl
  · rw [hd]
    intro x hx
    rcases List.mem_cons.mp hx with rfl | hx
    · show 0 ≤ q.offset + (k : Int)
      omega
    · exact h.begun x (by rw [hq]; exact List.mem_cons_of_mem _ hx)
  · rw [hd]
    intro x hx
    exact h.waiting x (by rw [hq]; exact hx)
  · rw [hd]
    intro x hx
    rcases List.mem_cons.mp hx with rfl | hx
    · exact h.sized q hmem
    · exact h.sized x (by rw [hq]; exact List.mem_cons_of_mem _ hx)
  · have hpiece : (q.buf.drop q.offset.toNat).take k = (q.bytes.drop q.offset.toNat).take k := by
      rw [CtrlBuffer.bytes, List.drop_take, List.take_take]
      congr 1
      omega
    have hstep := Outbox.Step.write {
      posted := posted.map CtrlBuffer.bytes, done := freed.length, offset := c.headOffset, written := sent } k
      (by rw [hblock, hlength]; show c.headOffset + k < _; omega)
    have hfaithful := Outbox.faithful_step hstep h.faithful
    rw [hblock] at hfaithful
    rw [hhead', hpiece, ← hhead]
    exact hfaithful

/-- The piece that takes the rest of it. -/
theorem Client.Sends.finish (h : c.Sends posted freed sent) (hq : c.writeQ = q :: rest) (hd : d.writeQ = rest) :
    d.Sends posted (freed ++ [q]) (sent ++ q.bytes.drop q.offset.toNat) := by
  have hmem : q ∈ c.writeQ := by
    rw [hq]
    exact List.mem_cons_self ..
  obtain ⟨hposted, hblock⟩ := h.block hq
  have hhead : c.headOffset = q.offset.toNat := by rw [headOffset, hq]
  have hrest : ∀ x ∈ rest, x ∈ c.writeQ := by
    rw [hq]
    exact fun x hx => List.mem_cons_of_mem _ hx
  have hzero : ∀ x ∈ rest, x.offset = 0 := by
    intro x hx
    exact h.waiting x (by rw [hq]; exact hx)
  have hhead' : d.headOffset = 0 := by
    rw [headOffset, hd]
    cases rest with
    | nil => rfl
    | cons x _ =>
      show x.offset.toNat = 0
      rw [hzero x (List.mem_cons_self ..)]
      rfl
  refine ⟨?_, ?_, ?_, ?_, ?_⟩
  · rw [hd, ← h.queue, hq, List.map_append, List.append_assoc]
    rfl
  · rw [hd]
    exact fun x hx => h.begun x (hrest x hx)
  · rw [hd]
    exact fun x hx => hzero x (List.mem_of_mem_tail hx)
  · rw [hd]
    exact fun x hx => h.sized x (hrest x hx)
  · have hstep := Outbox.Step.finish {
      posted := posted.map CtrlBuffer.bytes, done := freed.length, offset := c.headOffset, written := sent }
      (by rw [List.length_map]; exact hposted)
    have hfaithful := Outbox.faithful_step hstep h.faithful
    rw [hblock] at hfaithful
    rw [hhead', List.length_append, List.length_singleton, ← hhead]
    exact hfaithful

/-- The write callback writes a piece of the first reply. -/
theorem onWrite_sends (count : Nat) (h : c.Sends posted freed sent) :
    ∃ d, (c.onWrite (.wrote count)).1 = some d ∧
      d.Sends posted (freed ++ (c.frees (.wrote count)).toList)
        (sent ++ (c.onWrite (.wrote count)).2.flatMap NetEffect.ctrlBytes) := by
  unfold Client.onWrite Client.frees
  dsimp only
  cases hq : c.writeQ with
  | nil =>
    refine ⟨_, rfl, ?_⟩
    rw [Option.toList_none, List.append_nil, List.flatMap_nil, List.append_nil]
    exact h.same hq.symm
  | cons q rest =>
    dsimp only
    split
    · rename_i hleft
      refine ⟨_, rfl, ?_⟩
      rw [Option.toList_none, List.append_nil, List.flatMap_singleton]
      exact h.part hq hleft rfl
    · rename_i hwhole
      refine ⟨_, rfl, ?_⟩
      have hmem : q ∈ c.writeQ := by
        rw [hq]
        exact List.mem_cons_self ..
      have hpiece : (q.buf.drop q.offset.toNat).take (min count (q.len - q.offset).toNat) =
          q.bytes.drop q.offset.toNat := by
        have hbegun := h.begun q hmem
        rw [CtrlBuffer.bytes, List.drop_take]
        congr 1
        omega
      rw [Option.toList_some, List.flatMap_singleton, hpiece]
      exact h.finish hq rfl

/-- A notification queues its reply, and writes nothing. -/
theorem onNotify_sends (cfg : Config) (ports : List (Option (Fd × Int))) {n : EventNotify}
    (h : c.Sends posted freed sent) (hsized : n.Queues → 0 ≤ n.len ∧ n.len ≤ n.buf.length) :
    (c.onNotify cfg ports n).1.Sends
        (posted ++ if n.Queues then [{buf := n.buf, len := n.len, offset := 0}] else []) freed sent ∧
      (c.onNotify cfg ports n).2.flatMap NetEffect.ctrlBytes = [] := by
  have hcases := onNotify_cases cfg ports n c
  generalize c.onNotify cfg ports n = r at hcases ⊢
  have hother (hnot : ¬ n.Queues) :
      c.Sends (posted ++ if n.Queues then [{buf := n.buf, len := n.len, offset := 0}] else [])
      freed sent := by
    rw [if_neg hnot, List.append_nil]
    exact h
  have hkinds (a : NotifyAction) (ha : n.action = a) (hctrl : a ≠ .ctrlWrite) (htrans : a ≠ .transOk) :
      ¬ n.Queues := by
    intro hqueues
    rcases hqueues with hn | hn
    · exact hctrl (ha.symm.trans hn)
    · exact htrans (ha.symm.trans hn)
  cases hcases with
  | reply hn =>
    have hqueues : n.Queues := Or.inl hn
    rw [if_pos hqueues]
    exact ⟨h.queueReply (hsized hqueues), rfl⟩
  | port hn fd accept es hes =>
    refine ⟨(hother (hkinds _ hn (by decide) (by decide))).same rfl, ?_⟩
    rw [List.flatMap_eq_nil_iff]
    intro x hx
    obtain ⟨port, rfl⟩ := hes x hx
    rfl
  | transOk hn =>
    have hqueues : n.Queues := Or.inr hn
    rw [if_pos hqueues]
    have hsame : (c.queueReply n).clearDatafd.writeQ = (c.queueReply n).writeQ :=
      congrArg Prod.fst (Client.clearDatafd_replies (c.queueReply n))
    exact ⟨(h.queueReply (hsized hqueues)).same hsame, rfl⟩
  | data hn => exact ⟨(hother (hkinds _ hn (by decide) (by decide))).same rfl, rfl⟩
  | unknown code hn => exact ⟨hother (hkinds _ hn (fun h => nomatch h) (fun h => nomatch h)), rfl⟩

/-- The other callbacks write nothing to the control socket. -/
theorem callback_sends {k : Callback} {s : Option Client} {es : List NetEffect} (hk : ∀ r, k ≠ .write r)
    (h : c.handle cfg (.callback k) = .ok (s, es)) : es.flatMap NetEffect.ctrlBytes = [] := by
  cases hfires : k.fires c with
  | false =>
    rw [handle_idle hfires] at h
    cases h
    rfl
  | true =>
    cases k with
    | write r => exact absurd rfl (hk r)
    | dataAccept r =>
      rw [handle_dataAccept hfires] at h
      cases h
      cases r <;> rfl
    | dataRead r =>
      rw [handle_dataRead hfires] at h
      obtain ⟨p, hp, h⟩ := bind_eq_ok.mp h
      cases h
      cases dataRead_cases hp <;> rfl
    | dataWrite r =>
      rw [handle_dataWrite hfires] at h
      cases h
      rw [List.flatMap_eq_nil_iff]
      intro x hx
      obtain ⟨y, _, rfl⟩ := List.mem_map.mp hx
      rfl

theorem postedBy_sized
    (hsized : ∀ n ports, e.input = .notify n ports → n.Queues → 0 ≤ n.len ∧ n.len ≤ n.buf.length) :
    ∀ q ∈ postedBy e, q.Sized := by
  intro q hq
  unfold postedBy at hq
  split at hq
  · rename_i n ports _ hn
    split at hq
    · rename_i hqueues
      rw [List.mem_singleton.mp hq]
      exact hsized n ports hn hqueues
    · exact nomatch hq
  · exact nomatch hq

/-- **A step.** Whatever happens to a client, its queue goes on standing for the outbox. -/
theorem sends_step (htakes : (tcpClient cfg).Takes e) (hbefore : e.before = some c) (h : c.Sends posted freed sent)
    (hsized : ∀ n ports, e.input = .notify n ports → n.Queues → 0 ≤ n.len ∧ n.len ≤ n.buf.length)
    (hwrites : ∀ r, e.input = .callback (.write r) → ∃ count, r = .wrote count) :
    ∃ d, e.after = some d ∧ d.Sends (posted ++ postedBy e) (freed ++ freedBy e) (sent ++ sentBy e) := by
  obtain ⟨before, input, after, effects⟩ := e
  obtain rfl : before = some c := hbefore
  have hstep : c.handle cfg input = .ok (after, effects) := htakes
  cases input with
  | notify n ports =>
    rw [handle_notify] at hstep
    cases hstep
    obtain ⟨hsends, hnone⟩ := onNotify_sends cfg ports h (hsized n ports rfl)
    refine ⟨_, rfl, ?_⟩
    unfold postedBy freedBy sentBy
    dsimp only
    rw [hnone, List.append_nil, List.append_nil]
    exact hsends
  | callback k =>
    by_cases hk : ∃ r, k = .write r
    · obtain ⟨r, rfl⟩ := hk
      obtain ⟨count, rfl⟩ := hwrites r rfl
      unfold postedBy freedBy sentBy
      dsimp only
      rw [List.append_nil]
      cases hpending : c.writePending with
      | false =>
        rw [handle_idle (k := .write _) hpending] at hstep
        cases hstep
        refine ⟨c, rfl, ?_⟩
        rw [if_neg Bool.false_ne_true, List.append_nil, List.flatMap_nil, List.append_nil]
        exact h
      | true =>
        rw [handle_write hpending] at hstep
        injection hstep with hstep
        obtain ⟨d, hd, hsends⟩ := onWrite_sends count h
        rw [hstep] at hd hsends
        rw [if_pos rfl]
        exact ⟨d, hd, hsends⟩
    · rw [not_exists] at hk
      obtain ⟨d, hd, hsame⟩ := callback_replies hk hstep
      have hposted : postedBy ⟨some c, .callback k, after, effects⟩ = [] := rfl
      have hfreed : freedBy ⟨some c, .callback k, after, effects⟩ = [] := by
        cases k with
        | write r => exact absurd rfl (hk r)
        | _ => rfl
      have hsent : sentBy ⟨some c, .callback k, after, effects⟩ = [] := callback_sends hk hstep
      refine ⟨d, hd, ?_⟩
      rw [hposted, hfreed, hsent, List.append_nil, List.append_nil, List.append_nil]
      exact h.same (congrArg Prod.fst hsame)

end

/-- **Replies in order.** At every moment of a client's life, as long as no write fails, the
bytes written to the control socket are the beginning of what has been posted, the replies
freed are the first ones posted, and a reply that has any bytes is among them exactly when
its last byte has been written. -/
theorem replies_in_order (cfg : Config) (address : Nat) (fd : Fd) (inputs : List ClientEvent)
    (hsized : ∀ n ports, .notify n ports ∈ inputs → n.Queues → 0 ≤ n.len ∧ n.len ≤ n.buf.length)
    (hwrites : ∀ r, .callback (.write r) ∈ inputs → ∃ count, r = .wrote count) :
    ∀ now rest, (tcpClient cfg).trace (some (.new address fd)) inputs = now ++ rest →
      now.flatMap sentBy <+: (now.flatMap postedBy).flatMap CtrlBuffer.bytes ∧
      (now.flatMap freedBy).map CtrlBuffer.fresh <+: now.flatMap postedBy ∧
      ∀ k q, (now.flatMap postedBy)[k]? = some q → 0 < q.len →
        (k < (now.flatMap freedBy).length ↔
          ((now.flatMap postedBy).take (k + 1)).flatMap CtrlBuffer.bytes <+: now.flatMap sentBy) := by
  intro now rest hrun
  have hsends : ∃ c : Client, c.Sends (now.flatMap postedBy) (now.flatMap freedBy) (now.flatMap sentBy) := by
    cases now using List.reverseRecOn with
    | nil => exact ⟨_, Client.Sends.start address fd⟩
    | append_singleton past e _ =>
      rw [List.append_assoc, List.singleton_append] at hrun
      have hnow := Machine.history (m := tcpClient cfg)
        (H := fun past s => ∃ c, s = some c ∧
          c.Sends (past.flatMap postedBy) (past.flatMap freedBy) (past.flatMap sentBy))
        (fun e => e.input ∈ inputs) [] ⟨_, rfl, Client.Sends.start address fd⟩ ?_ ?_ past e rest hrun
      · obtain ⟨_, _, c, _, hc⟩ := hnow
        exact ⟨c, hc⟩
      · intro past e htakes hinput hbefore
        obtain ⟨c, hc, hsends⟩ := hbefore
        obtain ⟨d, hd, hafter⟩ := sends_step htakes hc hsends (fun n ports hn => hsized n ports (hn ▸ hinput))
          (fun r hr => hwrites r (hr ▸ hinput))
        refine ⟨d, hd, ?_⟩
        rw [List.flatMap_append, List.flatMap_append, List.flatMap_append, List.flatMap_singleton,
          List.flatMap_singleton, List.flatMap_singleton]
        exact hafter
      · exact fun e he => Machine.input_mem he
  obtain ⟨c, hsends⟩ := hsends
  have hflat (l : List CtrlBuffer) : (l.map CtrlBuffer.bytes).flatten = l.flatMap CtrlBuffer.bytes :=
    List.flatMap_def.symm
  refine ⟨?_, ⟨_, hsends.queue⟩, fun k q hq hlen => ?_⟩
  · rw [← hflat]
    exact hsends.faithful.front
  · have hposted : q.Sized := by
      obtain ⟨e, he, hqe⟩ := List.mem_flatMap.mp (List.mem_of_getElem? hq)
      have hinput : e.input ∈ inputs := Machine.input_mem (hrun ▸ List.mem_append_left _ he)
      exact postedBy_sized (fun n ports hn => hsized n ports (hn ▸ hinput)) q hqe
    have hne : q.bytes ≠ [] := by
      intro hnil
      have hzero := hposted.length
      rw [hnil, List.length_nil] at hzero
      omega
    have hblock : ((now.flatMap postedBy).map CtrlBuffer.bytes)[k]? = some q.bytes := by
      rw [List.getElem?_map, hq]
      rfl
    rw [hsends.faithful.done_iff hblock hne, ← List.map_take, hflat]

/-- Two replies, the first written in two pieces. -/
def twoPieces : List ClientEvent :=
  [.notify {fd := 7, action := .ctrlWrite, buf := "350 a\r\n".toList, len := 7} [], .callback (.write (.wrote 3)),
    .notify {fd := 7, action := .transOk, buf := "226 b\r\n".toList, len := 7} [], .callback (.write (.wrote 4))]

theorem replies_in_order_pieces :
    ((tcpClient Env.shipped.config).trace (some (.new 0 7)) twoPieces).flatMap sentBy <+:
      (((tcpClient Env.shipped.config).trace (some (.new 0 7)) twoPieces).flatMap postedBy).flatMap CtrlBuffer.bytes := by
  refine (replies_in_order Env.shipped.config 0 7 twoPieces ?_ ?_ _ [] (List.append_nil _).symm).1
  · intro n ports hn _
    simp only [twoPieces, List.mem_cons, ClientEvent.notify.injEq, reduceCtorEq, List.not_mem_nil, false_or, or_false] at hn
    rcases hn with ⟨rfl, _⟩ | ⟨rfl, _⟩ <;> decide
  · intro r hr
    simp only [twoPieces, List.mem_cons, ClientEvent.callback.injEq, Callback.write.injEq, reduceCtorEq,
      List.not_mem_nil, false_or, or_false] at hr
    rcases hr with rfl | rfl <;> exact ⟨_, rfl⟩

end HyperTransfer
