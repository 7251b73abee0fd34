import HyperTransfer.Lib.Expiry
import HyperTransfer.Server.Isolation
import Mathlib.Data.List.Sort

/-! Clients that time out.

By itself the server may find any client idle at any time. Here it has a clock: a client knows when it was
accessed last, and `on_timeout` is a timer's callback that goes through the map, deletes the clients whose
last access is too long ago, tells their sessions, and sets the timer again. The clients are leases that are
renewed by accesses and swept by the timer (`leasesView_shows`), and the sweep is what the server does for
clients found idle one by one (`delClients_runs`), so all that happens happens in a run of the server
(`timed_served`). -/
namespace HyperTransfer
open CString History

/-- `_socket_span` and `_socket_life`, in seconds. -/
structure SocketTimes where
  socketSpan : Int := 10
  socketLife : Int := 120

/-- The server, the time, each client's `last_access`, the keys of `m_client_map` in its order, and when
`ev_timeout` is due. -/
structure Timed where
  server : Server
  now : Int
  lastAccess : Fd → Int
  fds : List Fd
  due : Int

/-- `on_timeout` alone finds clients idle. -/
def ServerEvent.timesOut : ServerEvent → Bool
  | .timeout _ => true
  | _ => false

/-- What happens next: time passes, the server goes on, or the timer's callback is run. -/
inductive TimedEvent where
  | clock (t : Int)
  | serve (i : ServerEvent) (hi : i.timesOut = false)
  | timeout

/-! ### Accesses -/

/-- What a callback does about the time of a client, or about its place in the map. -/
inductive Access where
  | updateLastAccess (fd : Fd)
  | delClient (fd : Fd)
deriving DecidableEq

def WriteResult.access (fd : Fd) : WriteResult → Access
  | .wrote _ => .updateLastAccess fd
  | _ => .delClient fd

/-- `data_read` and `data_write` update the time first, `on_write` once something was written, and
`data_accept` never. -/
def Callback.access (c : Client) (fd : Fd) : Callback → Option Access
  | .write r => if c.writeQ = [] then none else some (r.access fd)
  | .dataAccept _ => none
  | .dataRead _ => some (.updateLastAccess fd)
  | .dataWrite _ => some (.updateLastAccess fd)

namespace Server

/-- The constructor of a client sets the time; one that finds its descriptor taken is not put in the map. -/
def access (s : Server) : ServerEvent → Option Access
  | .accept fd _ => if (s.clients fd).isNone then some (.updateLastAccess fd) else none
  | .read fd (.text _) => if (s.clients fd).isSome then some (.updateLastAccess fd) else none
  | .read fd _ => some (.delClient fd)
  | .callback fd k => (s.clients fd).bind fun c => if k.fires c then k.access c fd else none
  | .notify _ => s.pipe.head?.map fun n => .updateLastAccess n.fd
  | _ => none

/-- The loop of `on_timeout` over the descriptors found: `del_client`, and a task for the session. -/
def delClients (nums : ThreadNums) : List Fd → Server → Except Halt (Server × List ServerEffect)
  | [], s => .ok (s, [])
  | fd :: fds, s => do
    let r ← (s.leave fd none).post nums fd [.net (.postToSession {fd := fd, action := .disconn})]
    let q ← delClients nums fds r.1
    return (q.1, r.2 ++ q.2)

end Server

namespace Timed

/-- Before the first connection; the timer is set. -/
def start (nums : ThreadNums) (files : Files (List Char) Char) (cfg : SocketTimes) (now : Int) : Timed where
  server := .start nums files
  now := now
  lastAccess _ := now
  fds := []
  due := now + cfg.socketSpan

/-- `get_timeout_client`: the sockets of the clients, not their keys. -/
def getTimeoutClient (cfg : SocketTimes) (s : Timed) : List Fd :=
  (s.fds.filter fun fd => cfg.socketLife + s.lastAccess fd < s.now).filterMap fun fd =>
    (s.server.clients fd).map fun c => c.ctrlSocket

/-- The server has gone on. -/
def served (s : Timed) (i : ServerEvent) (t : Server) : Timed :=
  match s.server.access i with
  | some (.updateLastAccess fd) => {s with
      server := t
      lastAccess := Function.update s.lastAccess fd s.now
      fds := if fd ∈ s.fds then s.fds else s.fds.orderedInsert (· ≤ ·) fd }
  | some (.delClient fd) => {s with server := t, fds := s.fds.erase fd}
  | none => {s with server := t}

/-- `on_timeout`. -/
def onTimeout (nums : ThreadNums) (cfg : SocketTimes) (s : Timed) : Except Halt (Timed × List ServerEffect) := do
  let r ← Server.delClients nums (s.getTimeoutClient cfg) s.server
  return ({s with
    server := r.1
    fds := s.fds.filter fun fd => fd ∉ s.getTimeoutClient cfg
    due := s.now + cfg.socketSpan }, r.2)

end Timed

def timed (env : Env) (nums : ThreadNums) (cfg : SocketTimes) : Machine TimedEvent Timed ServerEffect Halt where
  step i s :=
    match i with
    | .clock t => .ok ({s with now := t}, [])
    | .serve i _ => do
      let r ← (server env nums).step i s.server
      return (s.served i r.1, r.2)
    | .timeout => if s.due ≤ s.now then s.onTimeout nums cfg else .ok (s, [])

abbrev TimedEdge := Edge TimedEvent Timed ServerEffect

/-! ### Which clients there are -/

section
variable {env : Env} {nums : ThreadNums} {s t : Server} {es : List ServerEffect} {i : ServerEvent}

/-- What a step makes of the map of clients. -/
def Access.Makes (s t : Server) : Option Access → Prop
  | none => ∀ j, (t.clients j).isSome = (s.clients j).isSome
  | some (.updateLastAccess fd) =>
    (t.clients fd).isSome = true ∧ ∀ j, j ≠ fd → (t.clients j).isSome = (s.clients j).isSome
  | some (.delClient fd) => t.clients fd = none ∧ ∀ j, j ≠ fd → t.clients j = s.clients j

theorem makes_none (h : t.clients = s.clients) : Access.Makes s t none := by
  intro j
  rw [h]

/-- A client that is left in place. -/
theorem left_isSome {fd : Fd} {c d : Client} (hc : s.clients fd = some c) (j : Fd) :
    ((s.leave fd (some d)).clients j).isSome = (s.clients j).isSome := by
  by_cases hj : j = fd
  · rw [hj, hc, show (s.leave fd (some d)).clients fd = some d from Registry.modify_same ..]
    rfl
  · exact congrArg Option.isSome (Registry.modify_other _ _ hj)

theorem makes_left {fd : Fd} {c d : Client} (hc : s.clients fd = some c) (ht : t.clients = (s.leave fd (some d)).clients) :
    Access.Makes s t none ∧ Access.Makes s t (some (.updateLastAccess fd)) := by
  have hkept (j : Fd) : (t.clients j).isSome = (s.clients j).isSome := by
    rw [ht]
    exact left_isSome hc j
  refine ⟨hkept, ?_, fun j _ => hkept j⟩
  rw [hkept fd, hc]
  rfl

theorem makes_gone {fd : Fd} (ht : t.clients = (s.leave fd none).clients) :
    Access.Makes s t (some (.delClient fd)) := by
  refine ⟨?_, fun j hj => ?_⟩
  · rw [ht]
    exact Registry.erase_same ..
  · rw [ht]
    exact Registry.erase_other _ hj

/-- A client stays unless writing to it fails. -/
theorem callback_makes {cfg : Config} {fd : Fd} {k : Callback} {c : Client} {q : Option Client × List NetEffect}
    (hc : s.clients fd = some c) (hq : c.handle cfg (.callback k) = .ok q) (ht : t.clients = (s.leave fd q.1).clients) :
    Access.Makes s t (if k.fires c then k.access c fd else none) := by
  cases hfires : k.fires c with
  | false =>
    rw [handle_idle hfires] at hq
    cases hq
    exact (makes_left hc ht).1
  | true =>
    rw [if_pos rfl]
    cases k with
    | dataAccept r =>
      rw [handle_dataAccept hfires] at hq
      cases hq
      exact (makes_left hc ht).1
    | dataRead r =>
      rw [handle_dataRead hfires] at hq
      obtain ⟨p, _, hq⟩ := bind_eq_ok.mp hq
      cases hq
      exact (makes_left hc ht).2
    | dataWrite r =>
      rw [handle_dataWrite hfires] at hq
      cases hq
      exact (makes_left hc ht).2
    | write r =>
      rw [handle_write hfires] at hq
      cases hq
      unfold Client.onWrite at ht
      dsimp only at ht
      unfold Callback.access
      cases hqueue : c.writeQ with
      | nil =>
        rw [hqueue] at ht
        exact (makes_left hc ht).1
      | cons b rest =>
        rw [hqueue] at ht
        dsimp only
        rw [if_neg (List.cons_ne_nil b rest)]
        cases r with
        | wrote count =>
          dsimp only at ht
          split at ht
          · exact (makes_left hc ht).2
          · exact (makes_left hc ht).2
        | again => exact makes_gone ht
        | failed => exact makes_gone ht

/-- What a step of the server does about its clients. -/
theorem step_makes (hi : i.timesOut = false) (h : (server env nums).step i s = .ok (t, es)) :
    Access.Makes s t (s.access i) := by
  cases i with
  | accept fd ip =>
    have ht : t.clients = Registry.insert s.clients fd (.new s.accepted fd) := (post_keeps h).1
    unfold Server.access
    dsimp only
    cases hc : s.clients fd with
    | some c =>
      rw [Registry.insert_taken hc] at ht
      exact makes_none ht
    | none =>
      refine ⟨?_, fun j hj => ?_⟩
      · rw [ht, Registry.insert_free hc]
        rfl
      · rw [ht, Registry.insert_other _ _ hj]
  | read fd x =>
    rcases net_cases h with ⟨hnone, he⟩ | ⟨c, q, hc, hq, hr⟩
    · cases he
      cases x with
      | text bytes =>
        unfold Server.access
        dsimp only
        rw [hnone]
        exact makes_none rfl
      | closed => exact ⟨hnone, fun _ _ => rfl⟩
      | failed => exact ⟨hnone, fun _ _ => rfl⟩
    · have ht : t.clients = (s.leave fd q.1).clients := (post_keeps hr).1
      cases hq
      cases x with
      | text bytes =>
        unfold Server.access
        dsimp only
        rw [hc]
        exact (makes_left hc ht).2
      | closed => exact makes_gone ht
      | failed => exact makes_gone ht
  | callback fd k =>
    unfold Server.access
    rcases net_cases h with ⟨hnone, he⟩ | ⟨c, q, hc, hq, hr⟩
    · cases he
      dsimp only
      rw [hnone]
      exact makes_none rfl
    · dsimp only
      rw [hc]
      exact callback_makes hc hq (post_keeps hr).1
  | timeout fd => cases hi
  | notify ports =>
    have h : s.onNotify env.config nums ports = .ok (t, es) := h
    unfold Server.onNotify at h
    unfold Server.access
    cases hpipe : s.pipe with
    | nil =>
      rw [hpipe] at h
      cases h
      exact makes_none rfl
    | cons n rest =>
      rw [hpipe] at h
      dsimp only at h
      split at h
      · cases h
      · rename_i c hc
        rcases net_cases h with ⟨hnone, _⟩ | ⟨c', q, hc', hq, hr⟩
        · cases hc.symm.trans hnone
        · have ht : t.clients = (s.leave n.fd q.1).clients := by
            rw [(post_keeps hr).1]
            cases q.1 <;> rfl
          rw [handle_notify] at hq
          cases hq
          exact (makes_left hc ht).2
  | session n fs garbage =>
    have hacts : s.Acts env nums (.session n fs garbage) (t, es) := server_acts h
    cases hacts with
    | idle _ _ => exact makes_none rfl
    | loop _ _ _ _ _ hi _ _ _ _ => cases hi
    | session _ _ _ _ _ _ _ _ _ _ hr => exact makes_none (post_keeps hr).1
  | disk n calls =>
    have hacts : s.Acts env nums (.disk n calls) (t, es) := server_acts h
    cases hacts with
    | idle _ _ => exact makes_none rfl
    | loop _ _ _ _ _ hi _ _ _ _ => cases hi
    | disk _ _ _ _ _ _ _ _ hr => exact makes_none (post_keeps hr).1

/-- One turn of the loop: the client is gone, and the others are left alone. -/
theorem delClient_ok {fd : Fd} (hs : s.Routed nums)
    (h : (s.leave fd none).post nums fd [.net (.postToSession {fd := fd, action := .disconn})] = .ok (t, es)) :
    t.Routed nums ∧ t.clients fd = none ∧ (∀ j, j ≠ fd → t.clients j = s.clients j) ∧
      es = [⟨fd, .net (.postToSession {fd := fd, action := .disconn})⟩] := by
  obtain ⟨hleft, _, _⟩ := leave_routed hs (holds_gone fun d => d.ctrlSocket = fd)
  obtain ⟨hrouted, heffects, _⟩ := post_ok hleft (List.forall_mem_singleton.mpr (names_task rfl)) h
  obtain ⟨hgone, hother⟩ := makes_gone (s := s) (post_keeps h).1
  exact ⟨hrouted, hgone, hother, heffects⟩

/-- The clients found are deleted, each with one task for its session, and the others are left alone. -/
theorem delClients_ok {fds : List Fd} (hnodup : fds.Nodup) (hs : s.Routed nums)
    (h : Server.delClients nums fds s = .ok (t, es)) :
    t.Routed nums ∧ (∀ fd ∈ fds, t.clients fd = none) ∧ (∀ fd, fd ∉ fds → t.clients fd = s.clients fd) ∧
      es = fds.map fun fd => ⟨fd, .net (.postToSession {fd := fd, action := .disconn})⟩ := by
  induction fds generalizing s es with
  | nil =>
    cases h
    exact ⟨hs, List.forall_mem_nil _, fun _ _ => rfl, rfl⟩
  | cons fd fds ih =>
    obtain ⟨hfresh, hnodup⟩ := List.nodup_cons.mp hnodup
    obtain ⟨⟨u, new⟩, hu, h⟩ := bind_eq_ok.mp h
    obtain ⟨⟨v, more⟩, hv, h⟩ := bind_eq_ok.mp h
    cases h
    obtain ⟨hrouted, hgone, hother, hnew⟩ := delClient_ok hs hu
    obtain ⟨hlast, hdeleted, hkept, heffects⟩ := ih hnodup hrouted hv
    refine ⟨hlast, List.forall_mem_cons.mpr ⟨?_, hdeleted⟩, fun j hj => ?_, ?_⟩
    · rw [hkept fd hfresh]
      exact hgone
    · rw [List.mem_cons, not_or] at hj
      rw [hkept j hj.2, hother j hj.1]
    · show new ++ more = _
      rw [hnew, heffects]
      rfl

/-- For a client that is there, the server's own step is a turn of the loop. -/
theorem timeout_step {fd : Fd} (hs : s.Routed nums) (hthere : (s.clients fd).isSome = true) :
    (server env nums).step (.timeout fd) s =
      (s.leave fd none).post nums fd [.net (.postToSession {fd := fd, action := .disconn})] := by
  obtain ⟨c, hc⟩ := Option.isSome_iff_exists.mp hthere
  have hsocket : c.ctrlSocket = fd := hs.clients fd c hc
  show s.net nums fd (fun c => .ok c.onTimeout) = _
  unfold Server.net
  rw [hc]
  show (s.leave fd none).post nums fd [.net (.postToSession {fd := c.ctrlSocket, action := .disconn})] = _
  rw [hsocket]

/-- The loop is what the server does for the clients found idle, one by one. -/
theorem delClients_runs {fds : List Fd} (hnodup : fds.Nodup) (hs : s.Routed nums)
    (hthere : ∀ fd ∈ fds, (s.clients fd).isSome = true) (h : Server.delClients nums fds s = .ok (t, es)) :
    (server env nums).Runs s (fds.map .timeout) t es := by
  induction fds generalizing s es with
  | nil =>
    cases h
    exact Machine.runs_nil _
  | cons fd fds ih =>
    obtain ⟨hfresh, hnodup⟩ := List.nodup_cons.mp hnodup
    obtain ⟨hfirst, hrest⟩ := List.forall_mem_cons.mp hthere
    obtain ⟨⟨u, new⟩, hu, h⟩ := bind_eq_ok.mp h
    obtain ⟨⟨v, more⟩, hv, h⟩ := bind_eq_ok.mp h
    cases h
    obtain ⟨hrouted, _, hother, _⟩ := delClient_ok hs hu
    have hstill : ∀ j ∈ fds, (u.clients j).isSome = true := by
      intro j hj
      rw [hother j fun heq => hfresh (heq ▸ hj)]
      exact hrest j hj
    exact (Machine.runs_one ((timeout_step hs hfirst).trans hu)).append (ih hnodup hrouted hstill hv)

end

/-! ### The clients as leases -/

/-- The keys are those of the map, each once. -/
structure Timed.Synced (nums : ThreadNums) (s : Timed) : Prop where
  routed : s.server.Routed nums
  nodup : s.fds.Nodup
  keys : ∀ fd, fd ∈ s.fds ↔ (s.server.clients fd).isSome = true

def Access.lease : Access → LeaseEvent Fd
  | .updateLastAccess fd => .renew fd
  | .delClient fd => .drop fd

/-- What the timer is about. -/
def leasesView : View TimedEvent Timed ServerEffect (LeaseEvent Fd) (Leases Fd) Empty where
  state s := {now := s.now, due := s.due, held := fun fd => if fd ∈ s.fds then some (s.lastAccess fd) else none}
  input i s :=
    match i with
    | .clock t => some (.clock t)
    | .serve i _ => (s.server.access i).map Access.lease
    | .timeout => some .sweep
  effects _ := []

section
variable {env : Env} {nums : ThreadNums} {cfg : SocketTimes} {s : Timed} {t : Server} {i : ServerEvent}
  {es : List ServerEffect}

/-- Every client is filed under its socket. -/
theorem getTimeoutClient_eq (hs : s.Synced nums) :
    s.getTimeoutClient cfg = s.fds.filter fun fd => cfg.socketLife + s.lastAccess fd < s.now := by
  have hsocket : ∀ fd ∈ s.fds.filter (fun fd => cfg.socketLife + s.lastAccess fd < s.now),
      (s.server.clients fd).map (fun c => c.ctrlSocket) = some fd := by
    intro fd hfd
    obtain ⟨c, hc⟩ := Option.isSome_iff_exists.mp ((hs.keys fd).mp (List.mem_filter.mp hfd).1)
    rw [hc, Option.map_some, hs.routed.clients fd c hc]
  unfold Timed.getTimeoutClient
  rw [List.filterMap_congr hsocket, List.filterMap_some]

theorem getTimeoutClient_mem (hs : s.Synced nums) {fd : Fd} :
    fd ∈ s.getTimeoutClient cfg ↔ fd ∈ s.fds ∧ cfg.socketLife + s.lastAccess fd < s.now := by
  rw [getTimeoutClient_eq hs, List.mem_filter, decide_eq_true_eq]

theorem getTimeoutClient_nodup (hs : s.Synced nums) : (s.getTimeoutClient cfg).Nodup := by
  rw [getTimeoutClient_eq hs]
  exact hs.nodup.filter _

theorem served_server : (s.served i t).server = t := by
  unfold Timed.served
  split <;> rfl

theorem synced_served (hs : s.Synced nums) (ht : t.Routed nums) (hmakes : Access.Makes s.server t (s.server.access i)) :
    (s.served i t).Synced nums := by
  refine ⟨served_server.symm ▸ ht, ?_, fun fd => ?_⟩
  · unfold Timed.served
    split
    · rename_i fd _
      dsimp only
      split
      · exact hs.nodup
      · rename_i hnew
        exact (List.perm_orderedInsert _ fd s.fds).nodup_iff.mpr (List.nodup_cons.mpr ⟨hnew, hs.nodup⟩)
    · exact hs.nodup.erase _
    · exact hs.nodup
  · rw [served_server]
    unfold Timed.served
    cases haccess : s.server.access i with
    | none =>
      rw [haccess] at hmakes
      rw [hmakes fd]
      exact hs.keys fd
    | some a =>
      rw [haccess] at hmakes
      cases a with
      | updateLastAccess k =>
        dsimp only
        by_cases hfd : fd = k
        · rw [hfd, hmakes.1]
          refine iff_of_true ?_ rfl
          split
          · assumption
          · exact (List.mem_orderedInsert (· ≤ ·)).mpr (Or.inl rfl)
        · rw [hmakes.2 fd hfd, ← hs.keys fd]
          split
          · exact Iff.rfl
          · rw [List.mem_orderedInsert, or_iff_right hfd]
      | delClient k =>
        dsimp only
        by_cases hfd : fd = k
        · rw [hfd, hmakes.1]
          exact iff_of_false (fun h => (hs.nodup.mem_erase_iff.mp h).1 rfl) (fun h => by cases h)
        · rw [hmakes.2 fd hfd, ← hs.keys fd, hs.nodup.mem_erase_iff]
          exact and_iff_right hfd

/-- What the callback of the timer leaves. -/
theorem onTimeout_ok {u : Timed} (hs : s.Synced nums) (h : s.onTimeout nums cfg = .ok (u, es)) :
    u.Synced nums ∧ u.now = s.now ∧ u.due = s.now + cfg.socketSpan ∧ u.lastAccess = s.lastAccess ∧
      u.fds = s.fds.filter (fun fd => fd ∉ s.getTimeoutClient cfg) ∧
      (∀ fd ∈ s.getTimeoutClient cfg, u.server.clients fd = none) ∧
      (∀ fd, fd ∉ s.getTimeoutClient cfg → u.server.clients fd = s.server.clients fd) ∧
      es = (s.getTimeoutClient cfg).map fun fd => ⟨fd, .net (.postToSession {fd := fd, action := .disconn})⟩ := by
  obtain ⟨⟨v, new⟩, hv, h⟩ := bind_eq_ok.mp h
  cases h
  obtain ⟨hrouted, hgone, hkept, heffects⟩ := delClients_ok (getTimeoutClient_nodup hs) hs.routed hv
  refine ⟨⟨hrouted, hs.nodup.filter _, fun fd => ?_⟩, rfl, rfl, rfl, rfl, hgone, hkept, heffects⟩
  dsimp only
  rw [List.mem_filter, decide_eq_true_eq]
  by_cases hfd : fd ∈ s.getTimeoutClient cfg
  · rw [hgone fd hfd]
    exact iff_of_false (fun h => h.2 hfd) (fun h => by cases h)
  · rw [hkept fd hfd, ← hs.keys fd]
    exact and_iff_left hfd

/-- An access renews, a deletion drops. -/
theorem served_lease {a : Access} (hs : s.Synced nums) (haccess : s.server.access i = some a) :
    leasesView.state (s.served i t) = (leasesView.state s).next cfg.socketLife cfg.socketSpan a.lease := by
  unfold Timed.served
  rw [haccess]
  cases a with
  | updateLastAccess k =>
    refine congrArg (Leases.mk s.now s.due) (funext fun fd => ?_)
    dsimp only [leasesView]
    by_cases hfd : fd = k
    · rw [hfd, Function.update_self, Function.update_self, if_pos]
      split
      · assumption
      · exact (List.mem_orderedInsert (· ≤ ·)).mpr (Or.inl rfl)
    · rw [Function.update_of_ne hfd, Function.update_of_ne hfd]
      have hmem : fd ∈ (if k ∈ s.fds then s.fds else s.fds.orderedInsert (· ≤ ·) k) ↔ fd ∈ s.fds := by
        split
        · exact Iff.rfl
        · rw [List.mem_orderedInsert, or_iff_right hfd]
      simp only [hmem]
  | delClient k =>
    refine congrArg (Leases.mk s.now s.due) (funext fun fd => ?_)
    dsimp only [leasesView]
    by_cases hfd : fd = k
    · rw [hfd, Function.update_self, if_neg fun h => (hs.nodup.mem_erase_iff.mp h).1 rfl]
    · rw [Function.update_of_ne hfd]
      have hmem : fd ∈ s.fds.erase k ↔ fd ∈ s.fds := by
        rw [hs.nodup.mem_erase_iff]
        exact and_iff_right hfd
      simp only [hmem]

/-- What a step does. -/
inductive TimedActs (env : Env) (nums : ThreadNums) (cfg : SocketTimes) (s : Timed) :
    TimedEvent → Timed × List ServerEffect → Prop where
  | clock (t : Int) : TimedActs env nums cfg s (.clock t) ({s with now := t}, [])
  | serve (i : ServerEvent) (hi : i.timesOut = false) (t : Server) (es : List ServerEffect)
      (ht : (server env nums).step i s.server = .ok (t, es)) : TimedActs env nums cfg s (.serve i hi) (s.served i t, es)
  | early (hdue : s.now < s.due) : TimedActs env nums cfg s .timeout (s, [])
  | due (hdue : s.due ≤ s.now) (r) (hr : s.onTimeout nums cfg = .ok r) : TimedActs env nums cfg s .timeout r

theorem timed_acts {i : TimedEvent} {r : Timed × List ServerEffect} (h : (timed env nums cfg).step i s = .ok r) :
    TimedActs env nums cfg s i r := by
  cases i with
  | clock t =>
    cases h
    exact .clock t
  | serve i hi =>
    obtain ⟨⟨t, es⟩, ht, h⟩ := bind_eq_ok.mp h
    cases h
    exact .serve i hi t es ht
  | timeout =>
    by_cases hdue : s.due ≤ s.now
    · exact .due hdue r ((if_pos hdue).symm.trans h)
    · cases (if_neg hdue).symm.trans h
      exact .early (Int.not_le.mp hdue)

theorem synced_acts {i : TimedEvent} {r : Timed × List ServerEffect} (hs : s.Synced nums)
    (h : TimedActs env nums cfg s i r) : r.1.Synced nums := by
  cases h with
  | clock t => exact ⟨hs.routed, hs.nodup, hs.keys⟩
  | serve i hi t es ht =>
    exact synced_served hs ((viewOf_shows env nums 0).kept ⟨_, i, t, es⟩ ht hs.routed) (step_makes hi ht)
  | early _ => exact hs
  | due _ _ hr => exact (onTimeout_ok hs hr).1

/-- The timer's callback is a sweep. -/
theorem onTimeout_sweeps {u : Timed} (hs : s.Synced nums) (h : s.onTimeout nums cfg = .ok (u, es)) :
    leasesView.state u = (leasesView.state s).sweep cfg.socketLife cfg.socketSpan := by
  obtain ⟨_, hnow, hnext, hlast, hfds, _, _, _⟩ := onTimeout_ok hs h
  unfold Leases.sweep
  dsimp only [leasesView]
  rw [hnow, hnext, hlast, hfds]
  refine congrArg (Leases.mk s.now _) (funext fun fd => ?_)
  have hgone : fd ∈ s.getTimeoutClient cfg ↔ fd ∈ s.fds ∧ cfg.socketLife + s.lastAccess fd < s.now :=
    getTimeoutClient_mem hs
  by_cases hfd : fd ∈ s.fds
  · rw [if_pos hfd, Option.filter_some]
    by_cases hold : cfg.socketLife + s.lastAccess fd < s.now
    · rw [if_neg (by simp [hgone, hfd, hold])]
      exact (if_neg fun h => Int.not_le.mpr hold (of_decide_eq_true h)).symm
    · rw [if_pos (by simpa [hgone, hfd] using hold)]
      exact (if_pos (decide_eq_true (Int.not_lt.mp hold))).symm
  · rw [if_neg hfd, if_neg (by simp [hfd]), Option.filter_none]

/-- Seen as leases, a run of the server with its timer is a run of leases. -/
theorem leasesView_shows (env : Env) (nums : ThreadNums) (cfg : SocketTimes) :
    leasesView.Shows (timed env nums cfg) (leases cfg.socketLife cfg.socketSpan) (Timed.Synced nums) := by
  refine ⟨fun e he hs => synced_acts hs (timed_acts he), fun e he hs j hj => ?_, fun e he hs hunseen => ?_⟩
  · obtain ⟨s, i, u, es⟩ := e
    have hacts : TimedActs env nums cfg s i (u, es) := timed_acts he
    show Except.ok ((leasesView.state s).next _ _ j, []) = Except.ok (leasesView.state u, [])
    have hnext : leasesView.state u = (leasesView.state s).next cfg.socketLife cfg.socketSpan j := by
      cases hacts with
      | clock t =>
        cases hj
        rfl
      | serve i hi t es ht =>
        obtain ⟨a, ha, rfl⟩ := Option.map_eq_some_iff.mp hj
        exact served_lease hs ha
      | early hdue =>
        cases hj
        exact (if_neg (Int.not_le.mpr hdue)).symm
      | due hdue _ hr =>
        cases hj
        exact (onTimeout_sweeps hs hr).trans (if_pos hdue).symm
    rw [hnext]
  · obtain ⟨s, i, u, es⟩ := e
    have hacts : TimedActs env nums cfg s i (u, es) := timed_acts he
    refine ⟨?_, rfl⟩
    cases hacts with
    | clock t => cases hunseen
    | early _ => cases hunseen
    | due _ _ _ => cases hunseen
    | serve i hi t es ht =>
      have hnone : s.server.access i = none := Option.map_eq_none_iff.mp hunseen
      unfold Timed.served
      dsimp only
      rw [hnone]
      rfl

end

/-! ### Runs -/

/-- The step sets the time of the client on the descriptor. -/
def accesses (fd : Fd) (e : TimedEdge) : Bool :=
  match e.input with
  | .serve i _ => e.before.server.access i = some (.updateLastAccess fd)
  | _ => false

/-- When the client on the descriptor was accessed last. -/
def lastAccessed (past : List TimedEdge) (fd : Fd) : Option Int :=
  latest (fun e => if accesses fd e then some e.before.now else none) past

/-- The clock goes on, and the timer's callback is not kept waiting for longer than that. -/
def Timed.InTime (late : Int) (s : Timed) : TimedEvent → Prop
  | .clock t => s.now ≤ t ∧ t ≤ s.due + late
  | _ => True

instance (late : Int) (s : Timed) : ∀ i, Decidable (s.InTime late i)
  | .clock t => inferInstanceAs (Decidable (s.now ≤ t ∧ t ≤ s.due + late))
  | .serve _ _ => .isTrue trivial
  | .timeout => .isTrue trivial

section
variable {env : Env} {nums : ThreadNums} {cfg : SocketTimes} {past : List TimedEdge} {e : TimedEdge}

theorem lease_renews (a : Access) (fd : Fd) : a.lease = .renew fd ↔ a = .updateLastAccess fd := by
  cases a with
  | updateLastAccess k =>
    rw [Access.lease, LeaseEvent.renew.injEq, Access.updateLastAccess.injEq]
  | delClient k => exact iff_of_false (fun h => by cases h) (fun h => by cases h)

/-- A lease is renewed where a client is accessed. -/
theorem accesses_iff (fd : Fd) (e : TimedEdge) :
    accesses fd e = true ↔ leasesView.input e.input e.before = some (.renew fd) := by
  obtain ⟨s, i, u, es⟩ := e
  cases i with
  | clock t => exact iff_of_false (fun h => by cases h) (fun h => by cases h)
  | timeout => exact iff_of_false (fun h => by cases h) (fun h => by cases h)
  | serve i hi =>
    show decide (s.server.access i = some (.updateLastAccess fd)) = true ↔
      (s.server.access i).map Access.lease = some (.renew fd)
    rw [decide_eq_true_eq, Option.map_eq_some_iff]
    constructor
    · exact fun h => ⟨_, h, rfl⟩
    · intro h
      obtain ⟨a, ha, hrenew⟩ := h
      rw [ha, (lease_renews a fd).mp hrenew]

theorem renewedAt_seen (past : List TimedEdge) (fd : Fd) : renewedAt (leasesView.seen past) fd = lastAccessed past fd := by
  induction past using List.reverseRecOn with
  | nil => rfl
  | append_singleton past e ih =>
    rw [View.seen_last, View.edge]
    unfold lastAccessed
    rw [latest_append]
    have haccess := accesses_iff fd e
    cases hseen : leasesView.input e.input e.before with
    | none =>
      have hnone : ¬ accesses fd e = true := by
        intro h
        have := haccess.mp h
        rw [hseen] at this
        cases this
      rw [if_neg hnone, Option.map_none, Option.toList_none, List.append_nil, ih, Option.none_or]
      rfl
    | some j =>
      rw [hseen, Option.some.injEq] at haccess
      rw [Option.map_some, Option.toList_some]
      by_cases hj : j = .renew fd
      · rw [renewedAt_renew hj, if_pos (haccess.mpr hj), Option.some_or]
        rfl
      · rw [renewedAt_other hj, if_neg fun h => hj (haccess.mp h), ih, Option.none_or]
        rfl

theorem synced_start (nums : ThreadNums) (files : Files (List Char) Char) (cfg : SocketTimes) (t : Int) :
    (Timed.start nums files cfg t).Synced nums :=
  ⟨start_routed nums files, List.nodup_nil, fun _ => iff_of_false (fun h => by cases h) (fun h => by cases h)⟩

/-- What the clients' times say, along a run. -/
theorem timed_stamped (h : (timed env nums cfg).Takes e)
    (hp : e.before.Synced nums ∧ (leasesView.state e.before).Stamped (leasesView.seen past)) :
    e.after.Synced nums ∧ (leasesView.state e.after).Stamped (leasesView.seen (past ++ [e])) := by
  have hshows := leasesView_shows env nums cfg
  refine ⟨hshows.kept e h hp.1, ?_⟩
  rw [View.seen_last, View.edge]
  cases hseen : leasesView.input e.input e.before with
  | none =>
    rw [Option.map_none, Option.toList_none, List.append_nil, (hshows.unseen e h hp.1 hseen).1]
    exact hp.2
  | some j => exact stamped_next (hshows.seen e h hp.1 j hseen) hp.2

theorem held_iff {s : Timed} {fd : Fd} {t : Int} :
    (leasesView.state s).held fd = some t ↔ fd ∈ s.fds ∧ s.lastAccess fd = t := by
  show (if fd ∈ s.fds then some (s.lastAccess fd) else none) = some t ↔ _
  split
  · rename_i hfd
    rw [Option.some.injEq, and_iff_right hfd]
  · rename_i hfd
    exact iff_of_false (fun h => by cases h) fun h => hfd h.1

/-- In time, no client is idle for long. -/
theorem timed_fresh {late : Int} (hlife : 0 ≤ cfg.socketLife) (hspan : 0 ≤ cfg.socketSpan) (hlate : 0 ≤ late)
    (h : (timed env nums cfg).Takes e) (hsynced : e.before.Synced nums) (hintime : e.before.InTime late e.input)
    (hp : (leasesView.state e.before).Fresh cfg.socketLife cfg.socketSpan late) :
    (leasesView.state e.after).Fresh cfg.socketLife cfg.socketSpan late := by
  have hshows := leasesView_shows env nums cfg
  cases hseen : leasesView.input e.input e.before with
  | none =>
    rw [(hshows.unseen e h hsynced hseen).1]
    exact hp
  | some j =>
    refine fresh_next hlife hspan hlate (hshows.seen e h hsynced j hseen) ?_ hp
    obtain ⟨s, i, u, es⟩ := e
    cases i with
    | clock t =>
      cases hseen
      exact hintime
    | timeout =>
      cases hseen
      trivial
    | serve i hi =>
      obtain ⟨a, _, rfl⟩ := Option.map_eq_some_iff.mp hseen
      cases a <;> trivial

/-- A step is a run of the server: none, one step, or the deletions of a sweep. -/
theorem timed_step_runs (he : (timed env nums cfg).Takes e) (hs : e.before.Synced nums) :
    ∃ events, (server env nums).Runs e.before.server events e.after.server e.effects := by
  obtain ⟨s, i, u, es⟩ := e
  have hacts : TimedActs env nums cfg s i (u, es) := timed_acts he
  cases hacts with
  | clock t => exact ⟨[], Machine.runs_nil _⟩
  | serve i hi t es ht =>
    refine ⟨[i], ?_⟩
    show (server env nums).Runs s.server [i] (s.served i t).server es
    rw [served_server]
    exact Machine.runs_one ht
  | early _ => exact ⟨[], Machine.runs_nil _⟩
  | due _ _ hr =>
    obtain ⟨⟨t, new⟩, ht, hr⟩ := bind_eq_ok.mp hr
    cases hr
    exact ⟨_, delClients_runs (getTimeoutClient_nodup hs) hs.routed
      (fun fd hfd => (hs.keys fd).mp ((getTimeoutClient_mem hs).mp hfd).1) ht⟩

end

/-- **Who times out**: in every run of the server with its timer, a callback of the timer that is due deletes exactly
the clients whose last access is longer ago than a session lives, posts for each of them one task that tells its session,
and does nothing else. -/
theorem timeouts_exact (env : Env) (nums : ThreadNums) (cfg : SocketTimes) (files : Files (List Char) Char) (start : Int)
    (inputs : List TimedEvent) :
    ∀ now e rest, (timed env nums cfg).trace (.start nums files cfg start) inputs = now ++ e :: rest →
      e.input = .timeout → e.before.due ≤ e.before.now →
        ∃ gone : List Fd, gone.Nodup ∧
          (∀ fd, fd ∈ gone ↔ (e.before.server.clients fd).isSome = true ∧
            ∃ t, lastAccessed now fd = some t ∧ cfg.socketLife + t < e.before.now) ∧
          (∀ fd, e.after.server.clients fd = if fd ∈ gone then none else e.before.server.clients fd) ∧
          e.effects = gone.map fun fd => ⟨fd, .net (.postToSession {fd := fd, action := .disconn})⟩ := by
  intro now e rest hrun hinput hdue
  obtain ⟨htakes, hsynced, hstamped⟩ := always_kept
    (H := fun past s => s.Synced nums ∧ (leasesView.state s).Stamped (leasesView.seen past)) inputs
    ⟨synced_start nums files cfg start, fun fd t ht => by cases ht⟩ (fun _ _ he hp => timed_stamped he hp) now e rest hrun
  obtain ⟨s, i, u, es⟩ := e
  cases hinput
  have hacts : TimedActs env nums cfg s .timeout (u, es) := timed_acts htakes
  cases hacts with
  | early hearly => exact absurd hdue (Int.not_le.mpr hearly)
  | due _ _ hr =>
    obtain ⟨_, _, _, _, _, hgone, hkept, heffects⟩ := onTimeout_ok hsynced hr
    refine ⟨s.getTimeoutClient cfg, getTimeoutClient_nodup hsynced, fun fd => ?_, fun fd => ?_, heffects⟩
    · rw [getTimeoutClient_mem hsynced, hsynced.keys]
      refine and_congr_right fun hthere => ?_
      have hlast : lastAccessed now fd = some (s.lastAccess fd) := by
        rw [← renewedAt_seen]
        exact hstamped fd _ (held_iff.mpr ⟨(hsynced.keys fd).mpr hthere, rfl⟩)
      rw [hlast]
      constructor
      · exact fun h => ⟨_, rfl, h⟩
      · intro h
        obtain ⟨t, ht, hold⟩ := h
        cases ht
        exact hold
    · split
      · exact hgone fd ‹_›
      · exact hkept fd ‹_›

/-- Two clients come, the second when the first has been idle for a while, and the timer goes off. -/
def twoIdle : List TimedEvent :=
  [.serve (.accept 7 "10.0.0.2".toList) rfl, .clock 50, .serve (.accept 8 "10.0.0.3".toList) rfl, .clock 130, .timeout]

theorem first_times_out :
    ∃ now e, ∃ gone : List Fd, (timed .shipped oneThread {}).trace (.start oneThread .empty {} 0) twoIdle = now ++ [e] ∧
      7 ∈ gone ∧ 8 ∉ gone ∧ e.after.server.clients 7 = none ∧
      e.effects = gone.map fun fd => ⟨fd, .net (.postToSession {fd := fd, action := .disconn})⟩ := by
  obtain ⟨gone, _, hgone, hclients, heffects⟩ :=
    timeouts_exact .shipped oneThread {} .empty 0 twoIdle [_, _, _, _] _ [] rfl rfl (by decide +kernel)
  have hseven : 7 ∈ gone := (hgone 7).mpr ⟨by decide +kernel, 0, by decide +kernel, by decide⟩
  refine ⟨[_, _, _, _], _, gone, rfl, hseven, fun height => ?_, (hclients 7).trans (if_pos hseven), heffects⟩
  obtain ⟨_, t, ht, hold⟩ := (hgone 8).mp height
  have hfifty : (50 : Int) = t := by
    refine Option.some.inj (Eq.trans ?_ ht)
    decide +kernel
  rw [← hfifty] at hold
  revert hold
  decide +kernel

/-- **No client is idle for long**: where the timer's callback is never kept waiting for longer than `late`, whoever is
still a client was accessed no longer ago than a session lives, the timer's span and `late` together. -/
theorem idle_bounded (env : Env) (nums : ThreadNums) (cfg : SocketTimes) (hlife : 0 ≤ cfg.socketLife)
    (hspan : 0 ≤ cfg.socketSpan) (files : Files (List Char) Char) (start late : Int) (hlate : 0 ≤ late)
    (inputs : List TimedEvent)
    (hintime : ∀ e ∈ (timed env nums cfg).trace (.start nums files cfg start) inputs, e.before.InTime late e.input) :
    ∀ now e rest, (timed env nums cfg).trace (.start nums files cfg start) inputs = now ++ e :: rest →
      ∀ fd, (e.after.server.clients fd).isSome = true →
        ∃ t, lastAccessed (now ++ [e]) fd = some t ∧
          e.after.now ≤ t + cfg.socketLife + cfg.socketSpan + late := by
  intro now e rest hrun fd hthere
  have hstart : (leasesView.state (.start nums files cfg start)).Fresh cfg.socketLife cfg.socketSpan late := by
    refine ⟨Int.le_refl _, ?_, fun fd t ht => by cases ht⟩
    show start ≤ start + cfg.socketSpan + late
    omega
  obtain ⟨_, _, ⟨hsynced, hstamped⟩, hfresh⟩ := Machine.history
    (H := fun past s => (s.Synced nums ∧ (leasesView.state s).Stamped (leasesView.seen past)) ∧
      (leasesView.state s).Fresh cfg.socketLife cfg.socketSpan late) (fun e => e.before.InTime late e.input) []
    ⟨⟨synced_start nums files cfg start, fun fd t ht => by cases ht⟩, hstart⟩
    (fun past e he hin hp => ⟨timed_stamped he hp.1, timed_fresh hlife hspan hlate he hp.1.1 hin hp.2⟩)
    hintime now e rest hrun
  have hheld := held_iff.mpr ⟨(hsynced.keys fd).mpr hthere, rfl⟩
  refine ⟨e.after.lastAccess fd, ?_, idle_le hfresh hheld⟩
  rw [← renewedAt_seen]
  exact hstamped fd _ hheld

/-- A client writes, and the timer goes off a little late. -/
def oneIdle : List TimedEvent :=
  [.serve (.accept 7 "10.0.0.2".toList) rfl, .clock 8, .serve (.read 7 (.text "SYST\r\n".toList)) rfl, .clock 12, .timeout]

theorem one_stays :
    ∃ now e, (timed .shipped oneThread {}).trace (.start oneThread .empty {} 0) oneIdle = now ++ [e] ∧
      ∃ t, lastAccessed (now ++ [e]) 7 = some t ∧ e.after.now ≤ t + 120 + 10 + 3 := by
  refine ⟨[_, _, _, _], _, rfl, ?_⟩
  refine idle_bounded .shipped oneThread {} (by decide) (by decide) .empty 0 3 (by decide) oneIdle ?_ _ _ [] rfl 7
    (by decide +kernel)
  decide +kernel

/-- **The timer adds nothing**: all that happens in a run of the server with its timer happens in a run of the server. -/
theorem timed_served (env : Env) (nums : ThreadNums) (cfg : SocketTimes) (files : Files (List Char) Char) (start : Int)
    (inputs : List TimedEvent) :
    ∃ events, (server env nums).Runs (.start nums files) events
      ((timed env nums cfg).final (.start nums files cfg start) inputs).server
      (((timed env nums cfg).trace (.start nums files cfg start) inputs).flatMap Edge.effects) := by
  have hstep : ∀ e, (timed env nums cfg).Takes e → e.before.Synced nums → e.after.Synced nums ∧
      ∃ events, (server env nums).Runs e.before.server events e.after.server e.effects := by
    intro e he hs
    exact ⟨synced_acts hs (timed_acts he), timed_step_runs he hs⟩
  exact Machine.runs_of_steps hstep (synced_start nums files cfg start) inputs

end HyperTransfer
