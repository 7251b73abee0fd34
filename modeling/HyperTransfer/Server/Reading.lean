import HyperTransfer.Server.Isolation
import HyperTransfer.Session.Answers
import HyperTransfer.Session.Manager
import HyperTransfer.Tcp.Sending

/-! What a client reads.

The session threads post replies to the pipe, the event loop hands each on to the client that its
descriptor leads to, and the client's callbacks write them away a piece at a time. A client is told apart
from others that had its descriptor by its number. The pipe loses nothing and changes no order (`pipe_ledger`),
what is posted are replies as a whole (`roll_fine`), and what is written is the beginning of what was handed on: so
whoever reads the connection reads the replies that were posted for it, one after the other, and nothing
else (`replies_read`). -/
namespace HyperTransfer
open CString ReplyText

/-! ### What is posted, handed on and sent -/

/-- What brings a reply brings it as a whole. -/
def EventNotify.Whole (n : EventNotify) : Prop := n.Queues → n.len = n.buf.length ∧ IsReply n.buf

def ThreadsEffect.ctrlBytes : ThreadsEffect → List Char
  | .net x => x.ctrlBytes
  | _ => []

/-- The notifications a step puts in the pipe. -/
def pipedBy (e : ServerEdge) : List EventNotify := e.effects.filterMap fun x => x.effect.notify? x.fd

/-- The notification a step takes out of it. -/
def takenBy (e : ServerEdge) : List EventNotify :=
  match e.input with
  | .notify _ => e.before.pipe.head?.toList
  | _ => []

/-- It is a reply for the descriptor. -/
def EventNotify.RepliesTo (fd : Fd) (n : EventNotify) : Prop := n.fd = fd ∧ n.Queues

instance (fd : Fd) (n : EventNotify) : Decidable (n.RepliesTo fd) := inferInstanceAs (Decidable (_ ∧ _))

/-- The replies a step posts for a descriptor. -/
def repliesTo (fd : Fd) (e : ServerEdge) : List EventNotify := (pipedBy e).filter fun n => n.RepliesTo fd

/-- The step is for the client of this number. -/
def Serving (k : Nat) (e : ServerEdge) : Bool :=
  ((e.before.owner e.input).bind e.before.clients).any fun c => c.address = k

/-- The replies a step hands on to that client. -/
def handedTo (k : Nat) (e : ServerEdge) : List EventNotify :=
  if Serving k e then (takenBy e).filter fun n => n.Queues else []

/-- The bytes a step writes to its control socket. -/
def sentTo (k : Nat) (e : ServerEdge) : List Char :=
  if Serving k e then e.effects.flatMap fun x => x.effect.ctrlBytes else []

/-- A reply as the client queues it. -/
def EventNotify.queued (n : EventNotify) : CtrlBuffer := {buf := n.buf, len := n.len, offset := 0}

/-! ### The client -/

section
variable {cfg : Config} {c d : Client} {posted freed : List CtrlBuffer} {sent : List Char} {pipe rest : List EventNotify}
  {t : ThreadsEvent} {q : Option Client × List NetEffect}

/-- What an event of the loop takes out of the pipe. -/
def ThreadsEvent.takes (pipe : List EventNotify) : ThreadsEvent → List EventNotify
  | .notify _ => pipe.head?.toList
  | _ => []

theorem onNotify_address (n : EventNotify) (ports : List (Option (Fd × Int))) :
    (c.onNotify cfg ports n).1.address = c.address := by
  have hcases := onNotify_cases cfg ports n c
  generalize c.onNotify cfg ports n = r at hcases ⊢
  cases hcases with
  | transOk _ =>
    obtain ⟨accept, write, hclear⟩ := clearDatafd_eq (c.queueReply n)
    show (c.queueReply n).clearDatafd.address = _
    rw [hclear]
    rfl
  | _ => rfl

theorem callback_address {k : Callback} (h : c.handle cfg (.callback k) = .ok q) :
    ∀ d, q.1 = some d → d.address = c.address := by
  cases hfires : k.fires c with
  | false =>
    rw [handle_idle hfires] at h
    cases h
    exact fun d hd => by cases hd; rfl
  | true =>
    cases k with
    | write w =>
      rw [handle_write hfires] at h
      cases h
      unfold Client.onWrite
      dsimp only
      split
      · exact fun d hd => by cases hd; rfl
      · split
        · split <;> exact fun d hd => by cases hd; rfl
        · exact fun d hd => by cases hd
    | dataAccept o =>
      rw [handle_dataAccept hfires] at h
      cases h
      intro d hd
      cases hd
      cases o <;> rfl
    | dataRead r =>
      rw [handle_dataRead hfires] at h
      obtain ⟨p, hp, h⟩ := bind_eq_ok.mp h
      cases h
      intro d hd
      cases hd
      have hclear (x : Client) : x.clearDatafd.address = x.address := by
        obtain ⟨accept, write, hclear⟩ := clearDatafd_eq x
        rw [hclear]
      cases dataRead_cases hp with
      | ended => exact hclear _
      | failed => exact hclear _
      | _ => rfl
    | dataWrite w =>
      rw [handle_dataWrite hfires] at h
      cases h
      intro d hd
      cases hd
      rfl

/-- A callback keeps the number of its client. -/
theorem runs_address (h : c.Runs cfg pipe t rest q) : ∀ d, q.1 = some d → d.address = c.address := by
  cases h with
  | callback k h => exact callback_address h
  | notify n ports rest _ h =>
    rw [handle_notify] at h
    cases h
    exact fun d hd => by cases hd; exact onNotify_address n ports
  | read r =>
    cases r with
    | text bytes => exact fun d hd => by cases hd; rfl
    | _ => exact fun d hd => by cases hd
  | timeout => exact fun d hd => by cases hd

/-- What a step writes, or takes out of the pipe, for a client that stays or goes. -/
structure Client.Goes (posted : List CtrlBuffer) (sent : List Char) (handed : List EventNotify)
    (q : Option Client × List NetEffect) : Prop where
  stays : ∀ d, q.1 = some d → ∃ freed : List CtrlBuffer,
    d.Sends (posted ++ handed.map EventNotify.queued) freed (sent ++ q.2.flatMap NetEffect.ctrlBytes)
  leaves : q.1 = none → handed = [] ∧ q.2.flatMap NetEffect.ctrlBytes = []

theorem goes_same (hs : c.Sends posted freed sent) {es : List NetEffect} (hsame : d.writeQ = c.writeQ)
    (hes : es.flatMap NetEffect.ctrlBytes = []) : Client.Goes posted sent [] (some d, es) := by
  refine ⟨fun d' hd => ⟨freed, ?_⟩, fun hnone => by cases hnone⟩
  cases hd
  rw [hes, List.append_nil, List.map_nil, List.append_nil]
  exact hs.same hsame

theorem goes_gone {es : List NetEffect} (hes : es.flatMap NetEffect.ctrlBytes = []) :
    Client.Goes posted sent [] (none, es) := ⟨fun _ hd => (by cases hd), fun _ => ⟨rfl, hes⟩⟩

theorem write_goes (hs : c.Sends posted freed sent) (r : WriteResult) : Client.Goes posted sent [] (c.onWrite r) := by
  have hfailed (hr : ∀ count, r ≠ .wrote count) : Client.Goes posted sent [] (c.onWrite r) := by
    unfold Client.onWrite
    dsimp only
    split
    · exact goes_same hs rfl rfl
    · cases r with
      | wrote count => exact absurd rfl (hr count)
      | _ => exact goes_gone rfl
  cases r with
  | wrote count =>
    obtain ⟨d, hd, hsends⟩ := onWrite_sends count hs
    refine ⟨fun d' hd' => ⟨freed ++ (c.frees (.wrote count)).toList, ?_⟩, fun hnone => by cases hd.symm.trans hnone⟩
    cases hd.symm.trans hd'
    rw [List.map_nil, List.append_nil]
    exact hsends
  | _ => exact hfailed fun count heq => by cases heq

/-- Whatever is run for a client, its queue goes on standing for what was handed on and not yet written; a client that
is deleted writes nothing more. -/
theorem runs_goes (hs : c.Sends posted freed sent) (h : c.Runs cfg pipe t rest q) (hpipe : ∀ n ∈ pipe, n.Whole) :
    Client.Goes posted sent ((t.takes pipe).filter fun n => n.Queues) q := by
  cases h with
  | callback k h =>
    show Client.Goes posted sent [] q
    cases hfires : k.fires c with
    | false =>
      rw [handle_idle hfires] at h
      cases h
      exact goes_same hs rfl rfl
    | true =>
      by_cases hk : ∃ r, k = .write r
      · obtain ⟨r, rfl⟩ := hk
        rw [handle_write hfires] at h
        cases h
        exact write_goes hs r
      · rw [not_exists] at hk
        obtain ⟨d, hd, hsame⟩ := callback_replies hk h
        have hq : q = (some d, q.2) := Prod.ext hd rfl
        rw [hq]
        exact goes_same hs (congrArg Prod.fst hsame) (callback_sends hk h)
  | notify n ports rest hhead h =>
    rw [handle_notify] at h
    cases h
    have htaken : ThreadsEvent.takes pipe (.notify ports) = [n] := by
      rw [hhead]
      rfl
    have hsized : n.Queues → 0 ≤ n.len ∧ n.len ≤ n.buf.length := by
      intro hqueues
      have hlen := (hpipe n (by rw [hhead]; exact List.mem_cons_self ..) hqueues).1
      omega
    obtain ⟨hsends, hnone⟩ := onNotify_sends cfg ports hs hsized
    refine ⟨fun d hd => ⟨freed, ?_⟩, fun hgone => by cases hgone⟩
    cases hd
    rw [hnone, List.append_nil, htaken]
    by_cases hqueues : n.Queues
    · rw [if_pos hqueues] at hsends
      rw [List.filter_cons_of_pos (by simpa using hqueues)]
      exact hsends
    · rw [if_neg hqueues] at hsends
      rw [List.filter_cons_of_neg (by simpa using hqueues)]
      exact hsends
  | read r =>
    cases r with
    | text bytes => exact goes_same hs rfl rfl
    | _ => exact goes_gone rfl
  | timeout => exact goes_gone rfl

end

/-! ### The step -/

/-- What a step does to the clients, to the pipe and on the control sockets. -/
inductive ServerEdge.Talks (cfg : Config) (e : ServerEdge) : Prop where
  | quiet (hclients : e.after.clients = e.before.clients) (haccepted : e.after.accepted = e.before.accepted)
      (hsilent : (e.effects.flatMap fun x => x.effect.ctrlBytes) = []) (htaken : takenBy e = []) : Talks cfg e
  | accepts (fd : Fd) (hclients : e.after.clients = Registry.insert e.before.clients fd (.new e.before.accepted fd))
      (haccepted : e.after.accepted = e.before.accepted + 1)
      (hsilent : (e.effects.flatMap fun x => x.effect.ctrlBytes) = []) (htaken : takenBy e = []) : Talks cfg e
  | runs (fd : Fd) (c : Client) (t : ThreadsEvent) (rest : List EventNotify) (q : Option Client × List NetEffect)
      (howner : e.before.owner e.input = some fd) (hc : e.before.clients fd = some c)
      (hruns : c.Runs cfg e.before.pipe t rest q) (hclients : e.after.clients = (e.before.leave fd q.1).clients)
      (haccepted : e.after.accepted = e.before.accepted)
      (hsent : (e.effects.flatMap fun x => x.effect.ctrlBytes) = q.2.flatMap NetEffect.ctrlBytes)
      (htaken : takenBy e = t.takes e.before.pipe) : Talks cfg e

section
variable {env : Env} {nums : ThreadNums} {e : ServerEdge} {fd : Fd} {k : Nat}

theorem ctrlBytes_net (fd : Fd) (es : List NetEffect) :
    (((es.map ThreadsEffect.net).map (⟨fd, ·⟩ : ThreadsEffect → ServerEffect)).flatMap fun x => x.effect.ctrlBytes) =
      es.flatMap NetEffect.ctrlBytes := by
  rw [List.map_map, List.flatMap_map]
  rfl

theorem ctrlBytes_silent {es : List ThreadsEffect} (h : ∀ x ∈ es, x.ctrlBytes = []) (fd : Fd) :
    ((es.map (⟨fd, ·⟩ : ThreadsEffect → ServerEffect)).flatMap fun x => x.effect.ctrlBytes) = [] := by
  rw [List.flatMap_map]
  exact List.flatMap_eq_nil_iff.mpr h

/-- A step of the loop that runs a callback of a client. -/
theorem net_talks {s : Server} {t : ThreadsEvent} {rest : List EventNotify}
    {run : Client → Except Halt (Option Client × List NetEffect)} (hs : s.clients = e.before.clients)
    (haccepted : s.accepted = e.before.accepted)
    (h : s.net nums fd run = .ok (e.after, e.effects)) (howner : e.before.owner e.input = some fd)
    (hruns : ∀ c q, e.before.clients fd = some c → run c = .ok q → c.Runs env.config e.before.pipe t rest q)
    (htaken : takenBy e = t.takes e.before.pipe) (hnone : e.before.clients fd = none → takenBy e = []) :
    e.Talks env.config := by
  rcases net_cases h with ⟨hgone, hr⟩ | ⟨c, q, hc, hq, hr⟩
  · injection hr with hafter heffects
    exact .quiet (hafter ▸ hs) (hafter ▸ haccepted) (by rw [heffects]; rfl) (hnone (hs ▸ hgone))
  · obtain ⟨hclients, hacc, _, _, heffects⟩ := post_keeps hr
    have hc' : e.before.clients fd = some c := hs ▸ hc
    refine .runs fd c t rest q howner hc' (hruns c q hc' hq) ?_ ?_ ?_ htaken
    · rw [hclients]
      cases q.1 with
      | none => exact congrArg (Registry.erase · fd) hs
      | some d => exact congrArg (Registry.modify · fd d) hs
    · rw [show e.after.accepted = _ from hacc]
      cases q.1 <;> exact haccepted
    · rw [show e.effects = _ from heffects, ctrlBytes_net]

/-- A step is one of these. -/
theorem server_talks (h : (server env nums).Takes e) : e.Talks env.config := by
  obtain ⟨s, i, s', es⟩ := e
  cases i with
  | accept fd ip =>
    obtain ⟨hclients, haccepted, _, _, heffects⟩ := post_keeps (show Server.post _ _ _ _ = _ from h)
    exact .accepts fd hclients haccepted (by rw [show es = _ from heffects]; rfl) rfl
  | read fd r =>
    have hruns (c : Client) (q : Option Client × List NetEffect) (_ : s.clients fd = some c)
        (hq : (.ok (c.onRead r) : Except Halt _) = .ok q) : c.Runs env.config s.pipe (.read r) s.pipe q := by
      cases hq
      exact .read r
    exact net_talks rfl rfl h rfl hruns rfl fun _ => rfl
  | callback fd k =>
    exact net_talks (t := .callback k) rfl rfl h rfl (fun c q _ hq => .callback k hq) rfl fun _ => rfl
  | timeout fd =>
    have hruns (c : Client) (q : Option Client × List NetEffect) (_ : s.clients fd = some c)
        (hq : (.ok c.onTimeout : Except Halt _) = .ok q) : c.Runs env.config s.pipe .timeout s.pipe q := by
      cases hq
      exact .timeout
    exact net_talks rfl rfl h rfl hruns rfl fun _ => rfl
  | notify ports =>
    have hstep : s.onNotify env.config nums ports = .ok (s', es) := h
    unfold Server.onNotify at hstep
    cases hpipe : s.pipe with
    | nil =>
      rw [hpipe] at hstep
      cases hstep
      exact .quiet rfl rfl rfl (by rw [takenBy, hpipe]; rfl)
    | cons n rest =>
      rw [hpipe] at hstep
      dsimp only at hstep
      split at hstep
      · cases hstep
      · rename_i c hc
        refine net_talks (s := {s with pipe := rest}) (t := .notify ports) rfl rfl hstep ?_
          (fun c q _ hq => .notify n ports rest hpipe hq) rfl fun hnone => by cases hc.symm.trans hnone
        show s.pipe.head?.map EventNotify.fd = _
        rw [hpipe]
        rfl
  | session n fs garbage =>
    have hacts : s.Acts env nums _ (s', es) := server_acts h
    cases hacts with
    | idle _ _ => exact .quiet rfl rfl rfl rfl
    | loop _ _ _ _ _ hi _ _ _ _ => cases hi
    | session _ _ _ t rest m xs _ _ _ hr =>
      obtain ⟨hclients, haccepted, _, _, heffects⟩ := post_keeps hr
      refine .quiet hclients haccepted ?_ rfl
      rw [show es = _ from heffects]
      refine ctrlBytes_silent (fun x hx => ?_) _
      obtain ⟨y, _, rfl⟩ := List.mem_map.mp hx
      rfl
  | disk n calls =>
    have hacts : s.Acts env nums _ (s', es) := server_acts h
    cases hacts with
    | idle _ _ => exact .quiet rfl rfl rfl rfl
    | loop _ _ _ _ _ hi _ _ _ _ => cases hi
    | disk _ _ t rest g _ _ _ hr =>
      obtain ⟨hclients, haccepted, _, _, heffects⟩ := post_keeps hr
      refine .quiet hclients haccepted ?_ rfl
      rw [show es = _ from heffects]
      refine ctrlBytes_silent (fun x hx => ?_) _
      obtain ⟨y, _, rfl⟩ := List.mem_map.mp hx
      rfl

/-! ### The pipe -/

theorem post_pipe {t : Server} {es : List ThreadsEffect} (h : t.post nums fd es = .ok (e.after, e.effects)) :
    e.after.pipe = t.pipe ++ pipedBy e ∧ pipedBy e = es.filterMap (ThreadsEffect.notify? fd) := by
  have hpiped : pipedBy e = es.filterMap (ThreadsEffect.notify? fd) := by
    rw [pipedBy, show e.effects = _ from (post_keeps h).2.2.2.2, List.filterMap_map]
    rfl
  obtain ⟨_, _, h⟩ := bind_eq_ok.mp h
  obtain ⟨_, _, h⟩ := bind_eq_ok.mp h
  injection h with h
  injection h with hafter _
  rw [hpiped, ← hafter]
  exact ⟨rfl, rfl⟩

theorem leave_same (s : Server) (fd : Fd) (c : Option Client) : (s.leave fd c).clients fd = c := by
  cases c with
  | none => exact Registry.erase_same s.clients fd
  | some d => exact Registry.modify_same s.clients fd d

theorem leave_other (s : Server) {fd j : Fd} (hj : j ≠ fd) (c : Option Client) :
    (s.leave fd c).clients j = s.clients j := by
  cases c with
  | none => exact Registry.erase_other s.clients hj
  | some d => exact Registry.modify_other s.clients d hj

theorem leave_pipe (s : Server) (fd : Fd) (c : Option Client) : (s.leave fd c).pipe = s.pipe := by cases c <;> rfl

theorem net_pipe {s : Server} {run : Client → Except Halt (Option Client × List NetEffect)}
    (h : s.net nums fd run = .ok (e.after, e.effects)) : e.after.pipe = s.pipe ++ pipedBy e := by
  rcases net_cases h with ⟨_, hr⟩ | ⟨c, q, _, _, hr⟩
  · injection hr with hafter heffects
    rw [hafter, pipedBy, heffects]
    exact (List.append_nil _).symm
  · rw [(post_pipe hr).1, leave_pipe]

/-- **The pipe loses nothing and changes no order.** -/
theorem pipe_ledger (h : (server env nums).Takes e) : e.before.pipe ++ pipedBy e = takenBy e ++ e.after.pipe := by
  obtain ⟨s, i, s', es⟩ := e
  cases i with
  | accept fd ip => exact (post_pipe (show Server.post _ _ _ _ = _ from h)).1.symm
  | read fd r => exact (net_pipe h).symm
  | callback fd k => exact (net_pipe h).symm
  | timeout fd => exact (net_pipe h).symm
  | notify ports =>
    have hstep : s.onNotify env.config nums ports = .ok (s', es) := h
    unfold Server.onNotify at hstep
    unfold takenBy
    cases hpipe : s.pipe with
    | nil =>
      rw [hpipe] at hstep
      cases hstep
      show [] ++ _ = [] ++ s.pipe
      rw [hpipe]
      rfl
    | cons n rest =>
      rw [hpipe] at hstep
      dsimp only at hstep
      split at hstep
      · cases hstep
      · show _ = [n] ++ s'.pipe
        rw [show s'.pipe = _ from net_pipe (e := ⟨s, .notify ports, s', es⟩) hstep]
        rfl
  | session n fs garbage =>
    have hacts : s.Acts env nums _ (s', es) := server_acts h
    cases hacts with
    | idle _ _ => exact List.append_nil _
    | loop _ _ _ _ _ hi _ _ _ _ => cases hi
    | session _ _ _ _ _ _ _ _ _ _ hr => exact (post_pipe (e := ⟨s, .session n fs garbage, s', es⟩) hr).1.symm
  | disk n calls =>
    have hacts : s.Acts env nums _ (s', es) := server_acts h
    cases hacts with
    | idle _ _ => exact List.append_nil _
    | loop _ _ _ _ _ hi _ _ _ _ => cases hi
    | disk _ _ _ _ _ _ _ _ hr => exact (post_pipe (e := ⟨s, .disk n calls, s', es⟩) hr).1.symm

/-! ### The sessions -/

/-- Nothing that any session keeps and quotes breaks a line. -/
def Manager.Quotable (m : Manager) : Prop := ∀ fd x, m.sessions fd = some x → x.Quotable

/-- Tasks keep it so, and are answered by whole replies. -/
theorem roll_quotable (henv : env.Quotable) {i : ManagerInput} {m : Manager} (hm : m.Quotable) :
    Returns (rollStateMachine env i m) fun r => r.1.Quotable ∧
      ∀ x ∈ r.2, ∀ buf len, x.reply? = some (buf, len) → len = buf.length ∧ IsReply buf := by
  unfold rollStateMachine
  split
  · refine .bind (accept_fine henv m.allocated i.garbage i.task) fun h hh => .pure ⟨fun fd x hx => ?_, hh.2⟩
    rcases Registry.insert_cases hx with hx | ⟨_, rfl⟩
    · exact hm fd x hx
    · exact hh.1
  · split
    · rename_i s hs
      refine .bind (roll_fine henv (hm _ s hs) i.task) fun h hh => .pure ⟨fun fd x hx => ?_, hh.2⟩
      by_cases hfd : fd = i.task.fd
      · rw [hfd] at hx
        rw [← Option.some.inj ((Registry.modify_same m.sessions i.task.fd h.session).symm.trans hx)]
        exact hh.1
      · exact hm fd x ((Registry.modify_other m.sessions h.session hfd).symm.trans hx)
    · exact .ok ⟨hm, List.forall_mem_nil _⟩

/-- What a session posts to the pipe is a reply as a whole, or no reply. -/
theorem notify_whole {x : Effect} (h : ∀ buf len, x.reply? = some (buf, len) → len = buf.length ∧ IsReply buf)
    {n : EventNotify} (hn : x.notify? fd = some n) : n.Whole := by
  intro hqueues
  cases x with
  | post buf len =>
    cases hn
    obtain ⟨hlen, hreply⟩ := h buf len rfl
    exact ⟨congrArg Int.ofNat hlen, hreply⟩
  | postTransferOk buf len =>
    cases hn
    obtain ⟨hlen, hreply⟩ := h buf len rfl
    exact ⟨congrArg Int.ofNat hlen, hreply⟩
  | pasvPost =>
    cases hn
    exact absurd hqueues (by rintro (h | h) <;> cases h)
  | _ => cases hn

/-- A step keeps the sessions quotable, and puts nothing but whole replies in the pipe. -/
theorem piped_whole (henv : env.Quotable) (h : (server env nums).Takes e) (hs : e.before.sessions.Quotable) :
    e.after.sessions.Quotable ∧ ∀ n ∈ pipedBy e, n.Whole := by
  obtain ⟨s, i, s', es⟩ := e
  have hacts : s.Acts env nums i (s', es) := server_acts h
  have hposted {xs : List ThreadsEffect} {fd : Fd} {t : Server} (hr : t.post nums fd xs = .ok (s', es))
      (hxs : ∀ x ∈ xs, ∀ n, x.notify? fd = some n → n.Whole) : ∀ n ∈ pipedBy ⟨s, i, s', es⟩, n.Whole := by
    intro n hn
    rw [(post_pipe (e := ⟨s, i, s', es⟩) hr).2] at hn
    obtain ⟨x, hx, hn⟩ := List.mem_filterMap.mp hn
    exact hxs x hx n hn
  have hnet (xs : List NetEffect) (fd : Fd) : ∀ x ∈ xs.map ThreadsEffect.net, ∀ n, x.notify? fd = some n → n.Whole := by
    intro x hx n hn
    obtain ⟨y, _, rfl⟩ := List.mem_map.mp hx
    cases hn
  cases hacts with
  | idle _ _ => exact ⟨hs, List.forall_mem_nil _⟩
  | accepts fd ip _ hr =>
    have hsame : s'.sessions = s.sessions := (post_keeps hr).2.2.1
    exact ⟨hsame ▸ hs, hposted hr (hnet [_] fd)⟩
  | loop _ fd c pipe q _ _ _ _ hr =>
    have hsame : s'.sessions = s.sessions := (post_keeps hr).2.2.1.trans (leave_keeps {s with pipe := pipe} fd q.1).1
    exact ⟨hsame ▸ hs, hposted hr (hnet q.2 fd)⟩
  | session _ fs garbage t rest m xs _ hroll _ hr =>
    obtain ⟨hm, hxs⟩ := roll_quotable henv hs _ hroll
    have hsame : s'.sessions = m := (post_keeps hr).2.2.1
    refine ⟨hsame ▸ hm, hposted hr fun x hx n hn => ?_⟩
    obtain ⟨y, hy, rfl⟩ := List.mem_map.mp hx
    exact notify_whole (hxs y hy) hn
  | disk _ calls t rest g _ _ _ hr =>
    have hsame : s'.sessions = s.sessions := (post_keeps hr).2.2.1
    refine ⟨hsame ▸ hs, hposted hr fun x hx n hn => ?_⟩
    obtain ⟨y, _, rfl⟩ := List.mem_map.mp hx
    -- a disk thread posts data, and no reply
    intro hqueues
    cases y with
    | dataPost fd buf len =>
      cases hn
      exact absurd hqueues (by rintro (h | h) <;> cases h)
    | _ => cases hn

/-! ### A run -/

/-- After a run so far: what was posted is in the pipe or was taken out of it, whole replies all. -/
structure Server.Pipes (past : List ServerEdge) (s : Server) : Prop where
  sessions : s.sessions.Quotable
  pipe : ∀ n ∈ s.pipe, n.Whole
  ledger : past.flatMap takenBy ++ s.pipe = past.flatMap pipedBy
  numbered : Registry.Numbered Client.address s.accepted s.clients

/-- After a run so far, about the client of number `k`: what was handed on to it, and what of that was sent. -/
structure Server.Reads (k : Nat) (past : List ServerEdge) (s : Server) : Prop where
  unmade : s.accepted ≤ k → past.flatMap (handedTo k) = [] ∧ past.flatMap (sentTo k) = []
  whole : ∀ n ∈ past.flatMap (handedTo k), n.Queues ∧ n.Whole
  here : ∀ fd c, s.clients fd = some c → c.address = k →
    (∃ freed : List CtrlBuffer,
      c.Sends ((past.flatMap (handedTo k)).map EventNotify.queued) freed (past.flatMap (sentTo k))) ∧
      past.flatMap (handedTo k) <:+ (past.flatMap takenBy).filter fun n => n.RepliesTo fd
  front : past.flatMap (sentTo k) <+: ((past.flatMap (handedTo k)).map EventNotify.queued).flatMap CtrlBuffer.bytes
  within : ∃ fd, past.flatMap (handedTo k) <:+: (past.flatMap takenBy).filter fun n => n.RepliesTo fd

theorem flatMap_last {B : Type} (f : ServerEdge → List B) (past : List ServerEdge) (e : ServerEdge) :
    (past ++ [e]).flatMap f = past.flatMap f ++ f e := by
  rw [List.flatMap_append, List.flatMap_singleton]

/-- What is taken out of the pipe names the descriptor that the step is for. -/
theorem taken_owner (howner : e.before.owner e.input = some fd) : ∀ n ∈ takenBy e, n.fd = fd := by
  intro n hn
  obtain ⟨s, i, s', es⟩ := e
  cases i with
  | notify ports =>
    have hhead : s.pipe.head? = some n := Option.mem_toList.mp hn
    have howner : s.pipe.head?.map EventNotify.fd = some fd := howner
    rw [hhead] at howner
    exact Option.some.inj howner
  | _ => cases hn

theorem taken_piped (h : (server env nums).Takes e) {n : EventNotify} (hn : n ∈ takenBy e ++ e.after.pipe) :
    n ∈ e.before.pipe ∨ n ∈ pipedBy e := by
  rw [← pipe_ledger h] at hn
  exact List.mem_append.mp hn

theorem takenBy_pipe {n : EventNotify} (hn : n ∈ takenBy e) : n ∈ e.before.pipe := by
  obtain ⟨s, i, s', es⟩ := e
  cases i with
  | notify ports => exact List.mem_of_head? (Option.mem_toList.mp hn)
  | _ => cases hn

theorem handedTo_taken {n : EventNotify} (hn : n ∈ handedTo k e) : n ∈ takenBy e ∧ n.Queues := by
  unfold handedTo at hn
  split at hn
  · simpa using List.mem_filter.mp hn
  · cases hn

/-- A step that is not for the client of the number hands nothing on to it, and sends it nothing. -/
theorem apart (h : Serving k e = false) : handedTo k e = [] ∧ sentTo k e = [] := by
  unfold handedTo sentTo
  rw [h]
  exact ⟨rfl, rfl⟩

theorem silent (htaken : takenBy e = []) (hsilent : (e.effects.flatMap fun x => x.effect.ctrlBytes) = []) :
    handedTo k e = [] ∧ sentTo k e = [] := by
  unfold handedTo sentTo
  rw [htaken, hsilent]
  exact ⟨ite_self _, ite_self _⟩

theorem pipes_start (nums : ThreadNums) (files : Files (List Char) Char) : (Server.start nums files).Pipes [] where
  sessions _ _ h := nomatch h
  pipe := List.forall_mem_nil _
  ledger := rfl
  numbered := ⟨fun _ _ h => (nomatch h), fun _ _ _ _ h => (nomatch h)⟩

theorem reads_start (nums : ThreadNums) (files : Files (List Char) Char) (k : Nat) :
    (Server.start nums files).Reads k [] where
  unmade _ := ⟨rfl, rfl⟩
  whole := List.forall_mem_nil _
  here _ _ h := nomatch h
  front := List.nil_prefix
  within := ⟨0, List.nil_infix⟩

/-- What is posted stays in order, and clients keep their numbers. -/
theorem pipes_next {past : List ServerEdge} (henv : env.Quotable) (h : (server env nums).Takes e)
    (hp : e.before.Pipes past) : e.after.Pipes (past ++ [e]) := by
  obtain ⟨hsessions, hpiped⟩ := piped_whole henv h hp.sessions
  refine ⟨hsessions, fun n hn => ?_, ?_, ?_⟩
  · rcases taken_piped h (List.mem_append_right _ hn) with hn | hn
    · exact hp.pipe n hn
    · exact hpiped n hn
  · rw [flatMap_last, flatMap_last, List.append_assoc, ← pipe_ledger h, ← List.append_assoc, hp.ledger]
  · cases server_talks h with
    | quiet hclients haccepted _ _ => exact hclients ▸ haccepted ▸ hp.numbered
    | accepts fd hclients haccepted _ _ =>
      rw [hclients, haccepted]
      exact hp.numbered.insert rfl
    | runs fd c t rest q _ hc hruns hclients haccepted _ _ =>
      rw [hclients, haccepted]
      cases hq : q.1 with
      | none => exact hp.numbered.erase
      | some d => exact hp.numbered.modify hc (runs_address hruns d hq)

/-- A step that hands nothing on to the client and sends it nothing: it stays, or it is only made now. -/
theorem reads_apart {past : List ServerEdge} (hp : e.before.Reads k past) (hnone : handedTo k e = [] ∧ sentTo k e = [])
    (haccepted : e.before.accepted ≤ e.after.accepted)
    (hclients : ∀ fd c, e.after.clients fd = some c → c.address = k →
      e.before.clients fd = some c ∧ ((takenBy e).filter fun n => n.RepliesTo fd) = [] ∨
        c = .new k fd ∧ e.before.accepted ≤ k) : e.after.Reads k (past ++ [e]) := by
  have hhanded : (past ++ [e]).flatMap (handedTo k) = past.flatMap (handedTo k) := by
    rw [flatMap_last, hnone.1, List.append_nil]
  have hsent : (past ++ [e]).flatMap (sentTo k) = past.flatMap (sentTo k) := by
    rw [flatMap_last, hnone.2, List.append_nil]
  refine ⟨fun hk => ?_, ?_, fun fd c hc hck => ?_, ?_, ?_⟩
  · rw [hhanded, hsent]
    exact hp.unmade (haccepted.trans hk)
  · rw [hhanded]
    exact hp.whole
  · rw [hhanded, hsent, flatMap_last, List.filter_append]
    rcases hclients fd c hc hck with ⟨hbefore, htaken⟩ | ⟨hnew, hk⟩
    · rw [htaken, List.append_nil]
      exact hp.here fd c hbefore hck
    · obtain ⟨hnohand, hnosent⟩ := hp.unmade hk
      rw [hnohand, hnosent, hnew]
      exact ⟨⟨[], Client.Sends.start k fd⟩, List.nil_suffix⟩
  · rw [hhanded, hsent]
    exact hp.front
  · obtain ⟨fd, hwithin⟩ := hp.within
    rw [hhanded]
    refine ⟨fd, ?_⟩
    rw [flatMap_last, List.filter_append]
    exact hwithin.trans (List.prefix_append ..).isInfix

/-- A step that runs a callback of the client. -/
theorem reads_served {past : List ServerEdge} {c : Client} {t : ThreadsEvent} {rest : List EventNotify}
    {q : Option Client × List NetEffect} (hpipes : e.before.Pipes past) (hp : e.before.Reads k past)
    (howner : e.before.owner e.input = some fd) (hc : e.before.clients fd = some c) (hck : c.address = k)
    (hruns : c.Runs env.config e.before.pipe t rest q)
    (hclients : e.after.clients = (e.before.leave fd q.1).clients) (haccepted : e.after.accepted = e.before.accepted)
    (hsent : (e.effects.flatMap fun x => x.effect.ctrlBytes) = q.2.flatMap NetEffect.ctrlBytes)
    (htaken : takenBy e = t.takes e.before.pipe) : e.after.Reads k (past ++ [e]) := by
  have hserving : Serving k e = true := by
    unfold Serving
    rw [howner, Option.bind_some, hc]
    exact decide_eq_true hck
  have hhand : handedTo k e = (t.takes e.before.pipe).filter fun n => n.Queues := by
    rw [handedTo, hserving, if_pos rfl, htaken]
  have hwrite : sentTo k e = q.2.flatMap NetEffect.ctrlBytes := by
    rw [sentTo, hserving, if_pos rfl, hsent]
  -- all that is taken out of the pipe is for the descriptor
  have hreplies : ((takenBy e).filter fun n => n.RepliesTo fd) = handedTo k e := by
    rw [hhand, ← htaken]
    refine List.filter_congr fun n hn => ?_
    simp [EventNotify.RepliesTo, taken_owner howner n hn]
  obtain ⟨⟨freed, hsends⟩, hsuffix⟩ := hp.here fd c hc hck
  have hgoes := runs_goes hsends hruns hpipes.pipe
  rw [← hhand] at hgoes
  have hafter : (past ++ [e]).flatMap (handedTo k) <:+
      ((past ++ [e]).flatMap takenBy).filter fun n => n.RepliesTo fd := by
    obtain ⟨earlier, hearlier⟩ := hsuffix
    rw [flatMap_last, flatMap_last, List.filter_append, hreplies, ← hearlier, List.append_assoc]
    exact List.suffix_append ..
  refine ⟨fun hk => ?_, fun n hn => ?_, fun fd' d hd hdk => ?_, ?_, fd, hafter.isInfix⟩
  · have := hpipes.numbered.below fd c hc
    omega
  · rw [flatMap_last] at hn
    rcases List.mem_append.mp hn with hn | hn
    · exact hp.whole n hn
    · obtain ⟨htaken, hqueues⟩ := handedTo_taken hn
      exact ⟨hqueues, hpipes.pipe n (takenBy_pipe htaken)⟩
  · -- no other client has the number
    have hfd : fd' = fd := by
      by_contra hne
      rw [hclients, leave_other _ hne] at hd
      exact hne (hpipes.numbered.once fd' fd d c hd hc (hdk.trans hck.symm))
    subst hfd
    have hq : q.1 = some d := by rwa [hclients, leave_same] at hd
    obtain ⟨freed', hsends'⟩ := hgoes.stays d hq
    refine ⟨⟨freed', ?_⟩, hafter⟩
    rw [flatMap_last, flatMap_last, List.map_append, hwrite]
    exact hsends'
  · rw [flatMap_last, flatMap_last, hwrite]
    cases hq : q.1 with
    | none =>
      obtain ⟨hnohand, hnobytes⟩ := hgoes.leaves hq
      rw [hnohand, hnobytes, List.append_nil, List.append_nil]
      exact hp.front
    | some d =>
      obtain ⟨_, hsends'⟩ := hgoes.stays d hq
      rw [List.map_append, List.flatMap_def]
      exact hsends'.faithful.front

/-- A step hands on and writes, for a client it is for, as the client does; others are left as they are. -/
theorem reads_next {past : List ServerEdge} (h : (server env nums).Takes e) (hpipes : e.before.Pipes past)
    (hp : e.before.Reads k past) : e.after.Reads k (past ++ [e]) := by
  cases server_talks h with
  | quiet hclients haccepted hsilent htaken =>
    refine reads_apart hp (silent htaken hsilent) haccepted.ge fun fd c hc _ => Or.inl ⟨hclients ▸ hc, ?_⟩
    rw [htaken, List.filter_nil]
  | accepts fd hclients haccepted hsilent htaken =>
    refine reads_apart hp (silent htaken hsilent) (haccepted ▸ Nat.le_succ _) fun fd' c hc hck => ?_
    rw [hclients] at hc
    rcases Registry.insert_cases hc with hc | ⟨rfl, rfl⟩
    · exact Or.inl ⟨hc, by rw [htaken, List.filter_nil]⟩
    · exact Or.inr ⟨by rw [← hck]; rfl, Nat.le_of_eq hck⟩
  | runs fd c t rest q howner hc hruns hclients haccepted hsent htaken =>
    by_cases hck : c.address = k
    · exact reads_served hpipes hp howner hc hck hruns hclients haccepted hsent htaken
    · have hapart : Serving k e = false := by
        unfold Serving
        rw [howner, Option.bind_some, hc]
        exact decide_eq_false hck
      refine reads_apart hp (apart hapart) haccepted.ge fun fd' d hd hdk => Or.inl ?_
      have hne : fd' ≠ fd := by
        rintro rfl
        rw [hclients, leave_same] at hd
        exact hck ((runs_address hruns d hd).symm.trans hdk)
      constructor
      · rwa [hclients, leave_other _ hne] at hd
      · rw [List.filter_eq_nil_iff]
        intro n hn
        simp [EventNotify.RepliesTo, taken_owner howner n hn, hne.symm]

theorem reads_run (henv : env.Quotable) (nums : ThreadNums) (files : Files (List Char) Char) (k : Nat)
    (inputs : List ServerEvent) :
    ((server env nums).final (.start nums files) inputs).Pipes ((server env nums).trace (.start nums files) inputs) ∧
      ((server env nums).final (.start nums files) inputs).Reads k
        ((server env nums).trace (.start nums files) inputs) := by
  have hstart : (Server.start nums files).Pipes [] ∧ (Server.start nums files).Reads k [] :=
    ⟨pipes_start nums files, reads_start nums files k⟩
  refine Machine.history_final (H := fun past (s : Server) => s.Pipes past ∧ s.Reads k past) [] hstart
    fun now e rest hrun => ?_
  exact (Machine.history (H := fun past (s : Server) => s.Pipes past ∧ s.Reads k past) (fun _ => True) [] hstart
    (fun past e he _ hp => ⟨pipes_next henv he hp.1, reads_next he hp.1 hp.2⟩) (fun _ _ => trivial) now e rest hrun).2.2

/-- All that was handed on has been written when the queue is empty. -/
theorem sends_all {posted freed : List CtrlBuffer} {sent : List Char} {c : Client} (h : c.Sends posted freed sent)
    (hempty : c.writeQ = []) : sent = posted.flatMap CtrlBuffer.bytes := by
  have hdone : freed.length = posted.length := by
    have hqueue := congrArg List.length h.queue
    rw [hempty, List.map_nil, List.append_nil, List.length_map] at hqueue
    exact hqueue
  have hhead : c.headOffset = 0 := by rw [Client.headOffset, hempty]
  have hwritten := h.faithful.written
  rw [hhead, List.take_zero, List.append_nil, hdone, ← List.length_map CtrlBuffer.bytes, List.take_length,
    ← List.flatMap_def] at hwritten
  exact hwritten

end

/-- **What a client reads are the replies posted for it**, each as a whole and in their order: whatever the threads
do, and in whatever pieces the replies are written, the replies that can be read from what was sent to a client are
the first of those that were handed on to it, and these came one after the other from the sessions of its
descriptor; as long as the client is there, they are all that was posted and is not in the pipe any more, and when
nothing waits in its queue it can read them all. -/
theorem replies_read (env : Env) (henv : env.Quotable) (nums : ThreadNums) (files : Files (List Char) Char)
    (inputs : List ServerEvent) (k : Nat) :
    ∃ rs : List Reply,
      (((server env nums).trace (.start nums files) inputs).flatMap (handedTo k)).map EventNotify.buf =
        rs.map Reply.render ∧
      replies (((server env nums).trace (.start nums files) inputs).flatMap (sentTo k)) <+: rs.map Reply.lines ∧
      (∃ fd, ((server env nums).trace (.start nums files) inputs).flatMap (handedTo k) <:+:
        ((server env nums).trace (.start nums files) inputs).flatMap (repliesTo fd)) ∧
      ∀ fd c, ((server env nums).final (.start nums files) inputs).clients fd = some c → c.address = k →
        (∃ earlier, ((server env nums).trace (.start nums files) inputs).flatMap (repliesTo fd) =
          earlier ++ ((server env nums).trace (.start nums files) inputs).flatMap (handedTo k) ++
            ((server env nums).final (.start nums files) inputs).pipe.filter fun n => n.RepliesTo fd) ∧
        (c.writeQ = [] →
          replies (((server env nums).trace (.start nums files) inputs).flatMap (sentTo k)) = rs.map Reply.lines) := by
  obtain ⟨hpipes, hreads⟩ := reads_run henv nums files k inputs
  generalize (server env nums).trace (.start nums files) inputs = run at hpipes hreads ⊢
  generalize (server env nums).final (.start nums files) inputs = s at hpipes hreads ⊢
  have htexts : ∀ t ∈ (run.flatMap (handedTo k)).map EventNotify.buf, IsReply t := by
    intro t ht
    obtain ⟨n, hn, rfl⟩ := List.mem_map.mp ht
    obtain ⟨hqueues, hwhole⟩ := hreads.whole n hn
    exact (hwhole hqueues).2
  obtain ⟨rs, hrs⟩ := exists_replies htexts
  have hbytes : ((run.flatMap (handedTo k)).map EventNotify.queued).flatMap CtrlBuffer.bytes = (rs.map Reply.render).flatten := by
    rw [← hrs, List.flatMap_map, List.flatMap_def]
    congr 1
    refine List.map_congr_left fun n hn => ?_
    obtain ⟨hqueues, hwhole⟩ := hreads.whole n hn
    show n.buf.take n.len.toNat = n.buf
    rw [(hwhole hqueues).1, Int.toNat_natCast, List.take_length]
  have hposted (fd : Fd) : run.flatMap (repliesTo fd) =
      ((run.flatMap takenBy).filter fun n => n.RepliesTo fd) ++ s.pipe.filter fun n => n.RepliesTo fd := by
    rw [← List.filter_append, hpipes.ledger, List.filter_flatMap]
    rfl
  refine ⟨rs, hrs, ?_, ?_, fun fd c hc hck => ⟨?_, fun hempty => ?_⟩⟩
  · have hfront := hreads.front
    rw [hbytes] at hfront
    exact (replies_front rs).1 _ hfront
  · obtain ⟨fd, hwithin⟩ := hreads.within
    refine ⟨fd, ?_⟩
    rw [hposted]
    exact hwithin.trans (List.prefix_append ..).isInfix
  · obtain ⟨earlier, hearlier⟩ := (hreads.here fd c hc hck).2
    exact ⟨earlier, by rw [hposted, ← hearlier]⟩
  · obtain ⟨⟨freed, hsends⟩, _⟩ := hreads.here fd c hc hck
    rw [sends_all hsends hempty, hbytes]
    exact (replies_front rs).2

theorem shipped_quotable : Env.shipped.Quotable := ⟨by decide, by decide, by decide, by decide⟩

/-- The first of two clients reads the greeting, written in two pieces, and then what it has asked for. -/
def twoReaders : List ServerEvent :=
  [.accept 7 "10.0.0.2".toList, .accept 8 "10.0.0.3".toList, .session 1 (.constant none) [], .notify [],
    .callback 7 (.write (.wrote 5)), .session 0 (.constant none) [], .notify [], .read 7 (.text "FEAT\r\n".toList),
    .callback 7 (.write (.wrote 100)), .session 1 (.constant none) [], .notify [], .callback 7 (.write (.wrote 100))]

theorem replies_read_two :
    ∃ rs : List Reply, rs.map Reply.render = ["220 Hyper Transfer is ready.\r\n".toList, features.render] ∧
      replies (((server .shipped twoThreads).trace (.start twoThreads .empty) twoReaders).flatMap (sentTo 0)) =
        rs.map Reply.lines := by
  obtain ⟨rs, hrs, _, _, hclient⟩ := replies_read .shipped shipped_quotable twoThreads .empty twoReaders 0
  exact ⟨rs, hrs.symm.trans (by decide +kernel), (hclient 7 _ rfl rfl).2 rfl⟩

end HyperTransfer
