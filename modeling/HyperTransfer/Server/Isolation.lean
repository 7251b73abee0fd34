import HyperTransfer.Disk.Ownership
import HyperTransfer.Lib.Projection
import HyperTransfer.Server.Addressing
import HyperTransfer.Server.Parts

/-! What a connection sees of the server.

A step of the server is for one connection: that of the descriptor the event, the task or the
notification names. All the server keeps is filed under descriptors (`Server.Routed`), so the
step changes what is filed under its own alone, and does there what the connection would do by
itself (`Server.Serves`). Seen from one descriptor, a run of the server is a run of the connections on
it: what the others do, in which order the threads come and how many threads there are leaves no
trace. -/
namespace HyperTransfer
open CString Dispatch

/-! ### The view -/

/-- The queue of a descriptor. -/
abbrev ThreadNums.place (nums : ThreadNums) (fd : Fd) : Nat := fd % nums.sessionThreadNum

namespace Server

/-- What there is of the connection on `fd`. -/
def ofFd (nums : ThreadNums) (fd : Fd) (s : Server) : Connection where
  client := s.clients fd
  session := s.sessions.sessions fd
  transfer := s.disk.infos fd
  sessionQueue := ofKey SessionTask.fd nums.place s.pools.session.pending fd
  diskQueue := ofKey DiskTask.ctrlFd nums.place s.pools.disk.pending fd
  pipe := s.pipe.filter fun n => n.fd = fd

/-- The connection an event is for. -/
def owner (s : Server) : ServerEvent → Option Fd
  | .accept fd _ => some fd
  | .read fd _ => some fd
  | .callback fd _ => some fd
  | .timeout fd => some fd
  | .notify _ => s.pipe.head?.map EventNotify.fd
  | .session i _ _ => (s.pools.session.pending i).head?.map SessionTask.fd
  | .disk i _ => (s.pools.disk.pending i).head?.map DiskTask.ctrlFd

/-- What an event is to its connection. -/
def eventOf (s : Server) : ServerEvent → ConnectionEvent
  | .accept _ ip => .accept s.accepted ip
  | .read _ r => .read r
  | .callback _ k => .callback k
  | .timeout _ => .timeout
  | .notify ports => .notify ports
  | .session _ fs garbage => .session s.sessions.allocated fs garbage
  | .disk _ calls => .disk s.disk.allocated s.disk.files calls

/-- Everything is filed under the descriptor it names. -/
structure Routed (nums : ThreadNums) (s : Server) : Prop where
  clients : ∀ fd c, s.clients fd = some c → c.ctrlSocket = fd
  sessions : ∀ fd x, s.sessions.sessions fd = some x → x.fd = fd
  infos : ∀ fd d, s.disk.infos fd = some d → d.fd = fd
  sessionQueues : Placed SessionTask.fd nums.place s.pools.session.pending
  diskQueues : Placed DiskTask.ctrlFd nums.place s.pools.disk.pending

end Server

/-- The server, seen from `fd`. -/
def viewOf (nums : ThreadNums) (fd : Fd) :
    View ServerEvent Server ServerEffect ConnectionEvent Connection ThreadsEffect where
  state := Server.ofFd nums fd
  input i s := if s.owner i = some fd then some (s.eventOf i) else none
  effects es := (es.filter fun x => x.fd = fd).map ServerEffect.effect

/-! ### What is handed on -/

section
variable {A : Type} {key : A → Fd} {place : Fd → Nat}

/-- Tasks of one connection are put at the end of its queue. -/
theorem tailqInsertAll_ok {ts : List A} {fd : Fd} (hts : ∀ t ∈ ts, key t = fd) {p q : Pool A}
    (hp : Placed key place p.pending) (h : p.tailqInsertAll (fun t => place (key t)) ts = .ok q) :
    Placed key place q.pending ∧ ofKey key place q.pending fd = ofKey key place p.pending fd ++ ts ∧
      ∀ j, fd ≠ j → ofKey key place q.pending j = ofKey key place p.pending j := by
  induction ts generalizing p with
  | nil =>
    cases h
    exact ⟨hp, (List.append_nil _).symm, fun _ _ => rfl⟩
  | cons t rest ih =>
    obtain ⟨hfd, hrest⟩ := List.forall_mem_cons.mp hts
    unfold Pool.tailqInsertAll at h
    rw [List.foldlM_cons] at h
    obtain ⟨p', hp', h⟩ := bind_eq_ok.mp h
    obtain ⟨_, rfl⟩ := Pool.tailqInsert_ok.mp hp'
    obtain ⟨hplaced, hown, hothers⟩ := ih hrest (placed_insert hp t) h
    refine ⟨hplaced, ?_, fun j hj => ?_⟩
    · rw [hown, ← hfd, ofKey_insert_same, List.append_assoc, List.singleton_append]
    · rw [hothers j hj, ofKey_insert_other _ (hfd ▸ hj)]

end

section
variable {nums : ThreadNums} {s t : Server} {fd : Fd} {es : List ThreadsEffect} {out : List ServerEffect}

theorem post_ok (ht : t.Routed nums) (hnames : ∀ x ∈ es, x.Names fd) (h : t.post nums fd es = .ok (s, out)) :
    s.Routed nums ∧ out = es.map (⟨fd, ·⟩) ∧ s.ofFd nums fd = ((t.ofFd nums fd).post fd es).1 ∧
      ∀ j, fd ≠ j → s.ofFd nums j = t.ofFd nums j := by
  obtain ⟨session, hsession, h⟩ := bind_eq_ok.mp h
  obtain ⟨disk, hdisk, h⟩ := bind_eq_ok.mp h
  cases h
  have hsessions : ∀ u ∈ es.filterMap ThreadsEffect.session?, u.fd = fd := by
    intro u hu
    obtain ⟨x, hx, hu⟩ := List.mem_filterMap.mp hu
    exact (hnames x hx).session u hu
  have hdisks : ∀ u ∈ es.filterMap ThreadsEffect.disk?, u.ctrlFd = fd := by
    intro u hu
    obtain ⟨x, hx, hu⟩ := List.mem_filterMap.mp hu
    exact (hnames x hx).disk u hu
  have hnotify : ∀ n ∈ es.filterMap (ThreadsEffect.notify? fd), n.fd = fd := by
    intro n hn
    obtain ⟨x, hx, hn⟩ := List.mem_filterMap.mp hn
    exact (hnames x hx).notify n hn
  obtain ⟨hplaced, hown, hothers⟩ := tailqInsertAll_ok hsessions ht.sessionQueues (halting_eq_ok hsession)
  obtain ⟨hdplaced, hdown, hdothers⟩ := tailqInsertAll_ok hdisks ht.diskQueues (halting_eq_ok hdisk)
  refine ⟨⟨ht.clients, ht.sessions, ht.infos, hplaced, hdplaced⟩, rfl, ?_, fun j hj => ?_⟩
  · have hpipe : (t.pipe ++ es.filterMap (ThreadsEffect.notify? fd)).filter (fun n => n.fd = fd) =
        t.pipe.filter (fun n => n.fd = fd) ++ es.filterMap (ThreadsEffect.notify? fd) := by
      rw [List.filter_append, List.filter_eq_self.mpr fun n hn => decide_eq_true (hnotify n hn)]
    unfold Server.ofFd Connection.post
    rw [hown, hdown, hpipe]
  · have hpipe : (t.pipe ++ es.filterMap (ThreadsEffect.notify? fd)).filter (fun n => n.fd = j) =
        t.pipe.filter fun n => n.fd = j := by
      have hnone : (es.filterMap (ThreadsEffect.notify? fd)).filter (fun n => n.fd = j) = [] := by
        apply List.filter_eq_nil_iff.mpr
        intro n hn
        rw [hnotify n hn]
        simpa using hj
      rw [List.filter_append, hnone, List.append_nil]
    unfold Server.ofFd
    rw [hothers j hj, hdothers j hj, hpipe]

theorem post_nothing (s : Server) (fd : Fd) : s.post nums fd [] = .ok (s, []) := by
  show Except.ok (({s with pools := s.pools, pipe := s.pipe ++ []} : Server), _) = _
  rw [List.append_nil]
  rfl

theorem connection_post_nothing (c : Connection) : c.post fd [] = (c, []) := by
  simp [Connection.post]

end

/-! ### One step -/

/-- A step for the connection on `fd`, up to what it hands on: the others are left alone, and the
connection by itself does the same. -/
structure Server.Serves (env : Env) (nums : ThreadNums) (fd : Fd) (s : Server) (i : ServerEvent) (t : Server)
    (es : List ThreadsEffect) : Prop where
  routed : t.Routed nums
  names : ∀ x ∈ es, x.Names fd
  others : ∀ j, fd ≠ j → t.ofFd nums j = s.ofFd nums j
  own : (connectionOn env fd).step (s.eventOf i) (s.ofFd nums fd) = .ok ((t.ofFd nums fd).post fd es)

section
variable {env : Env} {nums : ThreadNums} {s : Server} {fd : Fd} {i : ServerEvent} {r : Server × List ServerEffect}

/-- The clients change at one descriptor, if at all. -/
theorem leave_routed (hs : s.Routed nums) {c : Option Client} (hc : ∀ d ∈ c, d.ctrlSocket = fd) :
    (s.leave fd c).Routed nums ∧ (s.leave fd c).ofFd nums fd = {s.ofFd nums fd with client := c} ∧
      ∀ j, fd ≠ j → (s.leave fd c).ofFd nums j = s.ofFd nums j := by
  cases c with
  | none =>
    refine ⟨⟨fun j d hd => ?_, hs.sessions, hs.infos, hs.sessionQueues, hs.diskQueues⟩, ?_, fun j hj => ?_⟩
    · by_cases hj : j = fd
      · rw [hj] at hd
        exact nomatch (Registry.erase_same s.clients fd).symm.trans hd
      · exact hs.clients j d ((Registry.erase_other _ hj).symm.trans hd)
    · exact congrArg (fun c => {s.ofFd nums fd with client := c}) (Registry.erase_same s.clients fd)
    · exact congrArg (fun c => {s.ofFd nums j with client := c}) (Registry.erase_other _ hj.symm)
  | some d =>
    refine ⟨⟨fun j d' hd' => ?_, hs.sessions, hs.infos, hs.sessionQueues, hs.diskQueues⟩, ?_, fun j hj => ?_⟩
    · by_cases hj : j = fd
      · rw [hj] at hd' ⊢
        rw [← Option.some.inj ((Registry.modify_same ..).symm.trans hd')]
        exact hc d rfl
      · exact hs.clients j d' ((Registry.modify_other _ _ hj).symm.trans hd')
    · exact congrArg (fun c => {s.ofFd nums fd with client := c}) (Registry.modify_same s.clients fd d)
    · exact congrArg (fun c => {s.ofFd nums j with client := c}) (Registry.modify_other _ _ hj.symm)

/-- A callback of a client is one of its connection. -/
theorem net_serves {s' : Server} (hs' : s'.Routed nums) (hothers : ∀ j, fd ≠ j → s'.ofFd nums j = s.ofFd nums j)
    {run : Client → Except Halt (Option Client × List NetEffect)}
    (hrun : ∀ c q, c.ctrlSocket = fd → run c = .ok q → Client.Names fd q) (h : s'.net nums fd run = .ok r)
    (hown : (connectionOn env fd).step (s.eventOf i) (s.ofFd nums fd) = (s'.ofFd nums fd).net fd run) :
    ∃ t es, s.Serves env nums fd i t es ∧ t.post nums fd es = .ok r := by
  unfold Server.net at h
  unfold Connection.net at hown
  split at h
  · rename_i hc
    cases h
    rw [show (s'.ofFd nums fd).client = none from hc] at hown
    exact ⟨s', [], ⟨hs', List.forall_mem_nil _, hothers, hown.trans (congrArg Except.ok (connection_post_nothing _).symm)⟩,
      post_nothing _ _⟩
  · rename_i c hc
    rw [show (s'.ofFd nums fd).client = some c from hc] at hown
    obtain ⟨q, hq, h⟩ := bind_eq_ok.mp h
    obtain ⟨hleft, heffects⟩ := hrun c q (hs'.clients fd c hc) hq
    obtain ⟨hrouted, hsame, hrest⟩ := leave_routed hs' hleft
    refine ⟨s'.leave fd q.1, q.2.map .net, ⟨hrouted, fun x hx => ?_, fun j hj => (hrest j hj).trans (hothers j hj), ?_⟩, h⟩
    · obtain ⟨y, hy, rfl⟩ := List.mem_map.mp hx
      exact heffects y hy
    · rw [hown, hsame]
      exact bind_eq_ok.mpr ⟨q, hq, rfl⟩

theorem accept_serves (hs : s.Routed nums) {ip : List Char} (h : s.onAccept nums fd ip = .ok r) :
    ∃ t es, s.Serves env nums fd (.accept fd ip) t es ∧ t.post nums fd es = .ok r := by
  refine ⟨{s with clients := Registry.insert s.clients fd (.new s.accepted fd), accepted := s.accepted + 1},
    [.net (.postToSession {fd := fd, action := .ctrlAccept, buf := ip, bufLen := ipLen + 1})],
    ⟨⟨fun j c hc => ?_, hs.sessions, hs.infos, hs.sessionQueues, hs.diskQueues⟩,
      List.forall_mem_singleton.mpr (names_task rfl), fun j hj => ?_, ?_⟩, h⟩
  · rcases Registry.insert_cases hc with hc | ⟨rfl, rfl⟩
    · exact hs.clients j c hc
    · rfl
  · exact congrArg (fun c => {s.ofFd nums j with client := c}) (Registry.insert_other _ _ hj.symm)
  · have hclient : some ((s.clients fd).getD (.new s.accepted fd)) =
        Registry.insert s.clients fd (.new s.accepted fd) fd := by
      cases hc : s.clients fd with
      | none => exact (Registry.insert_free hc _).symm
      | some c => rw [Registry.insert_taken hc, hc]; rfl
    show Except.ok (({s.ofFd nums fd with client := some ((s.clients fd).getD (.new s.accepted fd))} : Connection).post fd
      _) = _
    rw [hclient]
    rfl

theorem notify_serves (hs : s.Routed nums) {ports : List (Option (Fd × Int))} {n : EventNotify}
    {rest : List EventNotify} (hpipe : s.pipe = n :: rest) (h : s.onNotify env.config nums ports = .ok r) :
    ∃ t es, s.Serves env nums n.fd (.notify ports) t es ∧ t.post nums n.fd es = .ok r := by
  unfold Server.onNotify at h
  rw [hpipe] at h
  dsimp only at h
  split at h
  · cases h
  · rename_i c hc
    have hleft : Server.Routed nums {s with pipe := rest} :=
      ⟨hs.clients, hs.sessions, hs.infos, hs.sessionQueues, hs.diskQueues⟩
    refine net_serves hleft (fun j hj => ?_) (fun c q hcfd hq => ?_) h ?_
    · refine congrArg (fun pipe => {s.ofFd nums j with pipe := pipe}) ?_
      rw [hpipe, List.filter_cons_of_neg (by simpa using hj)]
    · cases hq
      exact onNotify_names hcfd rfl ports
    · have hfirst : (s.ofFd nums n.fd).pipe = n :: rest.filter fun m => m.fd = n.fd := by
        show s.pipe.filter _ = _
        rw [hpipe, List.filter_cons_of_pos (by simp)]
      show (s.ofFd nums n.fd).onNotify env.config n.fd ports = _
      unfold Connection.onNotify
      rw [hfirst]
      dsimp only
      split
      · rename_i hnone
        cases hnone.symm.trans hc
      · rfl

/-- A task of a session is one of its connection. -/
theorem session_serves (hs : s.Routed nums) {n : Nat} {fs : FileSystem} {garbage : List Char} {t : SessionTask}
    {rest : List SessionTask} (hqueue : s.pools.session.pending n = t :: rest)
    (h : s.sessionThread env nums n fs garbage = .ok r) :
    ∃ u es, s.Serves env nums t.fd (.session n fs garbage) u es ∧ u.post nums t.fd es = .ok r := by
  unfold Server.sessionThread at h
  rw [taken_first hqueue] at h
  obtain ⟨⟨m, es⟩, hroll, h⟩ := bind_eq_ok.mp h
  have hroll := halting_eq_ok hroll
  obtain ⟨halone, hothers⟩ := roll_alone hroll
  obtain ⟨hfiled, hnames⟩ := roll_names (hs.sessions t.fd) hroll
  obtain ⟨hplaced, hfirst, hrest⟩ := placed_take hs.sessionQueues hqueue
  refine ⟨{s with
      sessions := m
      pools := {s.pools with session := {s.pools.session with pending := Function.update s.pools.session.pending n rest}}},
    es.map .session, ⟨⟨hs.clients, fun j x hx => ?_, hs.infos, hplaced, hs.diskQueues⟩, fun x hx => ?_, fun j hj => ?_, ?_⟩, h⟩
  · by_cases hj : j = t.fd
    · rw [hj] at hx ⊢
      exact hfiled x hx
    · exact hs.sessions j x ((hothers j (Ne.symm hj)).symm.trans hx)
  · obtain ⟨y, hy, rfl⟩ := List.mem_map.mp hx
    exact hnames y hy
  · unfold Server.ofFd
    rw [hothers j hj, hrest j hj]
  · show (s.ofFd nums t.fd).sessionThread env t.fd s.sessions.allocated fs garbage = _
    unfold Connection.sessionThread
    rw [show (s.ofFd nums t.fd).sessionQueue = _ from hfirst]
    refine bind_eq_ok.mpr ⟨(m.alone t.fd, es), ?_, ?_⟩
    · show halting (rollStateMachine env {fs := fs, task := t, garbage := garbage} (s.sessions.alone t.fd)) = _
      rw [halone]
      rfl
    · show Except.ok (({s.ofFd nums t.fd with
        session := (m.alone t.fd).sessions t.fd
        sessionQueue := _ } : Connection).post t.fd _) = _
      rw [show (m.alone t.fd).sessions t.fd = m.sessions t.fd from Registry.single_same ..]
      rfl

/-- What a disk task leaves filed is filed under its own descriptor. -/
theorem infos_filed {c : DiskCalls} {t : DiskTask} {m : DiskManager} {g : DiskHandled}
    (hm : ∀ d, m.infos t.ctrlFd = some d → d.fd = t.ctrlFd) (hacts : DiskFsm.Acts c t m g) :
    (∀ d, g.manager.infos t.ctrlFd = some d → d.fd = t.ctrlFd) ∧
      ∀ j, t.ctrlFd ≠ j → g.manager.infos j = m.infos j := by
  cases hacts with
  | starts w _ hw hmanager =>
    rw [hmanager]
    refine ⟨fun d hd => ?_, fun j hj => Registry.insert_other _ _ (hw.fd ▸ hj.symm)⟩
    rcases Registry.insert_cases hd with hd | ⟨_, rfl⟩
    · exact hm d hd
    · exact hw.fd
  | unknown _ _ hmanager _ =>
    rw [hmanager]
    exact ⟨hm, fun _ _ => rfl⟩
  | works d w _ hfound _ hgoes hmanager _ =>
    rw [hmanager]
    refine ⟨fun d' hd' => ?_, fun j hj => Registry.modify_other _ _ hj.symm⟩
    rw [← Option.some.inj ((Registry.modify_same m.infos t.ctrlFd w.info).symm.trans hd')]
    exact hgoes.fd.trans (hm d hfound)
  | ends d files _ _ _ _ hmanager _ =>
    rw [hmanager]
    refine ⟨fun d' hd' => ?_, fun j hj => Registry.erase_other _ hj.symm⟩
    exact nomatch (Registry.erase_same m.infos t.ctrlFd).symm.trans hd'

/-- A task of a transfer is one of its connection. -/
theorem disk_serves (hs : s.Routed nums) {n : Nat} {calls : DiskCalls} {t : DiskTask} {rest : List DiskTask}
    (hqueue : s.pools.disk.pending n = t :: rest) (h : s.diskThread nums n calls = .ok r) :
    ∃ u es, s.Serves env nums t.ctrlFd (.disk n calls) u es ∧ u.post nums t.ctrlFd es = .ok r := by
  unfold Server.diskThread at h
  rw [taken_first hqueue] at h
  obtain ⟨g, hroll, h⟩ := bind_eq_ok.mp h
  have hroll := halting_eq_ok hroll
  have halone := DiskFsm.roll_alone hroll
  obtain ⟨hfiled, hothers⟩ := infos_filed (hs.infos t.ctrlFd) (DiskFsm.rollStateMachine_acts g hroll)
  have hnames := DiskFsm.roll_names (hs.infos t.ctrlFd) g hroll
  obtain ⟨hplaced, hfirst, hrest⟩ := placed_take hs.diskQueues hqueue
  refine ⟨{s with
      disk := g.manager
      pools := {s.pools with disk := {s.pools.disk with pending := Function.update s.pools.disk.pending n rest}}},
    g.effects.map .disk, ⟨⟨hs.clients, hs.sessions, fun j x hx => ?_, hs.sessionQueues, hplaced⟩, fun x hx => ?_,
      fun j hj => ?_, ?_⟩, h⟩
  · by_cases hj : j = t.ctrlFd
    · rw [hj] at hx ⊢
      exact hfiled x hx
    · exact hs.infos j x ((hothers j (Ne.symm hj)).symm.trans hx)
  · obtain ⟨y, hy, rfl⟩ := List.mem_map.mp hx
    exact hnames y hy
  · unfold Server.ofFd
    rw [hothers j hj, hrest j hj]
  · show (s.ofFd nums t.ctrlFd).diskThread t.ctrlFd s.disk.allocated s.disk.files calls = _
    unfold Connection.diskThread
    rw [show (s.ofFd nums t.ctrlFd).diskQueue = _ from hfirst]
    refine bind_eq_ok.mpr ⟨g.alone t.ctrlFd, ?_, ?_⟩
    · show halting (DiskFsm.rollStateMachine calls t (s.disk.alone t.ctrlFd)) = _
      rw [halone]
      rfl
    · show Except.ok (({s.ofFd nums t.ctrlFd with
        transfer := (g.alone t.ctrlFd).manager.infos t.ctrlFd
        diskQueue := _ } : Connection).post t.ctrlFd _) = _
      rw [show (g.alone t.ctrlFd).manager.infos t.ctrlFd = g.manager.infos t.ctrlFd from Registry.single_same ..]
      rfl

/-- A step without an owner does nothing; any other serves its owner. -/
theorem server_serves (hs : s.Routed nums) (h : (server env nums).step i s = .ok r) :
    (s.owner i = none ∧ r = (s, [])) ∨
      ∃ fd t es, s.owner i = some fd ∧ s.Serves env nums fd i t es ∧ t.post nums fd es = .ok r := by
  cases i with
  | accept fd ip =>
    obtain ⟨t, es, hserves, hpost⟩ := accept_serves hs h
    exact Or.inr ⟨fd, t, es, rfl, hserves, hpost⟩
  | read fd c =>
    obtain ⟨t, es, hserves, hpost⟩ := net_serves (i := .read fd c) hs (fun _ _ => rfl)
      (fun x q hx hq => by cases hq; exact onRead_names hx c) h rfl
    exact Or.inr ⟨fd, t, es, rfl, hserves, hpost⟩
  | callback fd k =>
    obtain ⟨t, es, hserves, hpost⟩ := net_serves (i := .callback fd k) hs (fun _ _ => rfl)
      (fun x q hx hq => callback_names hx hq) h rfl
    exact Or.inr ⟨fd, t, es, rfl, hserves, hpost⟩
  | timeout fd =>
    obtain ⟨t, es, hserves, hpost⟩ := net_serves (i := .timeout fd) hs (fun _ _ => rfl)
      (fun x q hx hq => by cases hq; exact onTimeout_names hx) h rfl
    exact Or.inr ⟨fd, t, es, rfl, hserves, hpost⟩
  | notify ports =>
    cases hpipe : s.pipe with
    | nil =>
      have hstep : s.onNotify env.config nums ports = .ok r := h
      unfold Server.onNotify at hstep
      rw [hpipe] at hstep
      cases hstep
      exact Or.inl ⟨by rw [Server.owner, hpipe]; rfl, rfl⟩
    | cons n rest =>
      obtain ⟨t, es, hserves, hpost⟩ := notify_serves hs hpipe h
      exact Or.inr ⟨n.fd, t, es, by rw [Server.owner, hpipe]; rfl, hserves, hpost⟩
  | session n fs garbage =>
    cases hqueue : s.pools.session.pending n with
    | nil =>
      have hstep : s.sessionThread env nums n fs garbage = .ok r := h
      unfold Server.sessionThread Pool.threadFunction takeFirst at hstep
      rw [hqueue] at hstep
      cases hstep
      exact Or.inl ⟨by rw [Server.owner, hqueue]; rfl, rfl⟩
    | cons t rest =>
      obtain ⟨u, es, hserves, hpost⟩ := session_serves hs hqueue h
      exact Or.inr ⟨t.fd, u, es, by rw [Server.owner, hqueue]; rfl, hserves, hpost⟩
  | disk n calls =>
    cases hqueue : s.pools.disk.pending n with
    | nil =>
      have hstep : s.diskThread nums n calls = .ok r := h
      unfold Server.diskThread Pool.threadFunction takeFirst at hstep
      rw [hqueue] at hstep
      cases hstep
      exact Or.inl ⟨by rw [Server.owner, hqueue]; rfl, rfl⟩
    | cons t rest =>
      obtain ⟨u, es, hserves, hpost⟩ := disk_serves hs hqueue h
      exact Or.inr ⟨t.ctrlFd, u, es, by rw [Server.owner, hqueue]; rfl, hserves, hpost⟩

end

section
variable {env : Env} {nums : ThreadNums} {fd : Fd}

theorem effects_same (es : List ThreadsEffect) : (viewOf nums fd).effects (es.map (⟨fd, ·⟩)) = es := by
  show ((es.map (⟨fd, ·⟩ : ThreadsEffect → ServerEffect)).filter fun x => x.fd = fd).map ServerEffect.effect = es
  rw [List.filter_eq_self.mpr, List.map_map]
  · exact List.map_id _
  · intro x hx
    obtain ⟨y, _, rfl⟩ := List.mem_map.mp hx
    exact decide_eq_true rfl

theorem effects_other {j : Fd} (hj : j ≠ fd) (es : List ThreadsEffect) :
    (viewOf nums fd).effects (es.map (⟨j, ·⟩)) = [] := by
  show ((es.map (⟨j, ·⟩ : ThreadsEffect → ServerEffect)).filter fun x => x.fd = fd).map ServerEffect.effect = []
  rw [List.filter_eq_nil_iff.mpr]
  · rfl
  · intro x hx
    obtain ⟨y, _, rfl⟩ := List.mem_map.mp hx
    simpa using hj

/-- Seen from a descriptor, the steps of the server are those of its connection. -/
theorem viewOf_shows (env : Env) (nums : ThreadNums) (fd : Fd) :
    (viewOf nums fd).Shows (server env nums) (connectionOn env fd) fun s => s.Routed nums := by
  have hserved {e : ServerEdge} (he : (server env nums).Takes e) (hs : e.before.Routed nums) :
      (e.before.owner e.input = none ∧ e.after = e.before ∧ e.effects = []) ∨
        ∃ j t es, e.before.owner e.input = some j ∧ e.before.Serves env nums j e.input t es ∧ e.after.Routed nums ∧
          e.effects = es.map (⟨j, ·⟩) ∧ e.after.ofFd nums j = ((t.ofFd nums j).post j es).1 ∧
            ∀ k, j ≠ k → e.after.ofFd nums k = t.ofFd nums k := by
    rcases server_serves hs he with ⟨howner, hnothing⟩ | ⟨j, t, es, howner, hserves, hpost⟩
    · injection hnothing with hafter heffects
      exact Or.inl ⟨howner, hafter, heffects⟩
    · obtain ⟨hrouted, heffects, hown, hothers⟩ := post_ok hserves.routed hserves.names hpost
      exact Or.inr ⟨j, t, es, howner, hserves, hrouted, heffects, hown, hothers⟩
  refine ⟨fun e he hs => ?_, fun e he hs j hj => ?_, fun e he hs hunseen => ?_⟩
  · rcases hserved he hs with ⟨_, hafter, _⟩ | ⟨_, _, _, _, _, hrouted, _⟩
    · rw [hafter]
      exact hs
    · exact hrouted
  · have hmine : e.before.owner e.input = some fd ∧ e.before.eventOf e.input = j := by
      simpa [viewOf] using hj
    obtain ⟨howner, rfl⟩ := hmine
    rcases hserved he hs with ⟨hnone, _, _⟩ | ⟨k, t, es, hk, hserves, _, heffects, hown, _⟩
    · rw [howner] at hnone
      cases hnone
    · rw [howner] at hk
      cases hk
      show (connectionOn env fd).step _ _ = .ok (e.after.ofFd nums fd, (viewOf nums fd).effects e.effects)
      rw [hown, heffects, effects_same]
      exact hserves.own
  · have hnot : e.before.owner e.input ≠ some fd := by
      intro howner
      simp [viewOf, howner] at hunseen
    rcases hserved he hs with ⟨_, hafter, heffects⟩ | ⟨k, t, es, hk, hserves, _, heffects, _, hothers⟩
    · rw [hafter, heffects]
      exact ⟨rfl, rfl⟩
    · have hkfd : k ≠ fd := fun hkfd => hnot (hkfd ▸ hk)
      rw [heffects, effects_other hkfd]
      exact ⟨(hothers fd hkfd).trans (hserves.others fd hkfd), rfl⟩

theorem start_routed (nums : ThreadNums) (files : Files (List Char) Char) : (Server.start nums files).Routed nums :=
  ⟨fun _ _ h => (nomatch h), fun _ _ h => (nomatch h), fun _ _ h => (nomatch h), placed_idle, placed_idle⟩

/-- **Seen from a descriptor, the server is the connections on it, and nothing else**: whatever else happens, in
whatever order the threads come, the steps that are for it are, one after the other, those the connection takes
by itself, and they end where it ends. -/
theorem server_seen (env : Env) (nums : ThreadNums) (files : Files (List Char) Char) (inputs : List ServerEvent)
    (fd : Fd) :
    (connectionOn env fd).trace .unused ((viewOf nums fd).inputs ((server env nums).trace (.start nums files) inputs)) =
        (viewOf nums fd).seen ((server env nums).trace (.start nums files) inputs) ∧
      (connectionOn env fd).final .unused
          ((viewOf nums fd).inputs ((server env nums).trace (.start nums files) inputs)) =
        ((server env nums).final (.start nums files) inputs).ofFd nums fd :=
  View.trace_seen (viewOf_shows env nums fd) (start_routed nums files) inputs

/-- Two threads a pool. -/
def twoThreads : ThreadNums :=
  {sessionThreadNum := 2, diskThreadNum := 2, session_pos := Nat.two_pos, disk_pos := Nat.two_pos}

/-- One thread a pool. -/
def oneThread : ThreadNums :=
  {sessionThreadNum := 1, diskThreadNum := 1, session_pos := Nat.one_pos, disk_pos := Nat.one_pos}

end

end HyperTransfer
