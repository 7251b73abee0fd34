import HyperTransfer.Lib.Projection
import HyperTransfer.Server.Whole

/-! The managers, inside the server.

The session threads share one map and the disk threads another. Of a step of the server a manager
sees the task its thread has taken and nothing of what the other threads do, so what holds of every
run of the session manager and of the disk manager holds of their parts of every run of the server
(`sessionsView_shows`, `diskView_shows`). -/
namespace HyperTransfer
open CString

def ThreadsEffect.ofSession? : ThreadsEffect → Option Effect
  | .session x => some x
  | _ => none

def ThreadsEffect.ofDisk? : ThreadsEffect → Option DiskEffect
  | .disk x => some x
  | _ => none

/-- The session manager's part. -/
def sessionsView : View ServerEvent Server ServerEffect ManagerInput Manager Effect where
  state s := s.sessions
  input i s :=
    match i with
    | .session n fs garbage =>
      (s.pools.session.pending n).head?.map fun t => {fs := fs, task := t, garbage := garbage}
    | _ => none
  effects es := es.filterMap fun x => x.effect.ofSession?

/-- The disk manager's part. -/
def diskView : View ServerEvent Server ServerEffect DiskInput DiskManager DiskEffect where
  state s := s.disk
  input i s :=
    match i with
    | .disk n calls => (s.pools.disk.pending n).head?.map fun t => {task := t, calls := calls}
    | _ => none
  effects es := es.filterMap fun x => x.effect.ofDisk?

/-- It happens in the event loop. -/
def ServerEvent.loops : ServerEvent → Bool
  | .session _ _ _ => false
  | .disk _ _ => false
  | _ => true

/-- What a step does, up to what it hands on. -/
inductive Server.Acts (env : Env) (nums : ThreadNums) (s : Server) : ServerEvent → Server × List ServerEffect → Prop where
  | idle (i : ServerEvent) (hi : i.loops = true ∨ (∃ n fs garbage, i = .session n fs garbage ∧ s.pools.session.pending n = []) ∨
      ∃ n calls, i = .disk n calls ∧ s.pools.disk.pending n = []) : Acts env nums s i (s, [])
  | accepts (fd : Fd) (ip : List Char) (r) (hr : s.onAccept nums fd ip = .ok r) : Acts env nums s (.accept fd ip) r
  | loop (i : ServerEvent) (fd : Fd) (c : Client) (pipe : List EventNotify) (q : Option Client × List NetEffect)
      (hi : i.loops = true) (hc : s.clients fd = some c)
      (hq : (∃ k, c.handle env.config k = .ok q) ∨ (∃ x, q = c.onRead x) ∨ q = c.onTimeout) (r)
      (hr : ({s with pipe := pipe}.leave fd q.1).post nums fd (q.2.map .net) = .ok r) : Acts env nums s i r
  | session (n : Nat) (fs : FileSystem) (garbage : List Char) (t : SessionTask) (rest : List SessionTask) (m : Manager)
      (es : List Effect) (hqueue : s.pools.session.pending n = t :: rest)
      (hroll : rollStateMachine env {fs := fs, task := t, garbage := garbage} s.sessions = .ok (m, es)) (r)
      (hr : {s with
        sessions := m
        pools := {s.pools with session := {s.pools.session with
          pending := Function.update s.pools.session.pending n rest}} : Server}.post nums t.fd (es.map .session) = .ok r) :
      Acts env nums s (.session n fs garbage) r
  | disk (n : Nat) (calls : DiskCalls) (t : DiskTask) (rest : List DiskTask) (h : DiskHandled)
      (hqueue : s.pools.disk.pending n = t :: rest) (hroll : DiskFsm.rollStateMachine calls t s.disk = .ok h) (r)
      (hr : {s with
        disk := h.manager
        pools := {s.pools with disk := {s.pools.disk with
          pending := Function.update s.pools.disk.pending n rest}} : Server}.post nums t.ctrlFd (h.effects.map .disk) =
            .ok r) :
      Acts env nums s (.disk n calls) r

section
variable {env : Env} {nums : ThreadNums} {s t : Server} {fd : Fd} {i : ServerEvent} {r : Server × List ServerEffect}

/-- The first task of a queue, and what is left. -/
theorem taken_first {A : Type} {p : Pool A} {i : Nat} {t : A} {rest : List A} (h : p.pending i = t :: rest) :
    p.threadFunction i = (some t, {p with pending := Function.update p.pending i rest}) := by
  unfold Pool.threadFunction Dispatch.takeFirst
  rw [h]

/-- There is nothing to take. -/
theorem taken_none {A : Type} {p : Pool A} {i : Nat} (h : p.pending i = []) : p.threadFunction i = (none, p) := by
  unfold Pool.threadFunction Dispatch.takeFirst
  rw [h]

theorem net_cases {s' : Server} {run : Client → Except Halt (Option Client × List NetEffect)}
    (h : s'.net nums fd run = .ok r) :
    (s'.clients fd = none ∧ r = (s', [])) ∨
      ∃ c q, s'.clients fd = some c ∧ run c = .ok q ∧ (s'.leave fd q.1).post nums fd (q.2.map .net) = .ok r := by
  unfold Server.net at h
  split at h
  · cases h
    exact Or.inl ⟨‹_›, rfl⟩
  · rename_i c hc
    obtain ⟨q, hq, h⟩ := bind_eq_ok.mp h
    exact Or.inr ⟨c, q, hc, hq, h⟩

/-- A step is one of these. -/
theorem server_acts (h : (server env nums).step i s = .ok r) : s.Acts env nums i r := by
  cases i with
  | accept fd ip => exact .accepts fd ip r h
  | read fd x =>
    rcases net_cases h with ⟨_, rfl⟩ | ⟨c, q, hc, hq, hr⟩
    · exact .idle _ (Or.inl rfl)
    · exact .loop _ fd c s.pipe q rfl hc (Or.inr (Or.inl ⟨x, (Except.ok.inj hq).symm⟩)) r hr
  | callback fd k =>
    rcases net_cases h with ⟨_, rfl⟩ | ⟨c, q, hc, hq, hr⟩
    · exact .idle _ (Or.inl rfl)
    · exact .loop _ fd c s.pipe q rfl hc (Or.inl ⟨_, hq⟩) r hr
  | timeout fd =>
    rcases net_cases h with ⟨_, rfl⟩ | ⟨c, q, hc, hq, hr⟩
    · exact .idle _ (Or.inl rfl)
    · exact .loop _ fd c s.pipe q rfl hc (Or.inr (Or.inr (Except.ok.inj hq).symm)) r hr
  | notify ports =>
    have h : s.onNotify env.config nums ports = .ok r := h
    unfold Server.onNotify at h
    split at h
    · cases h
      exact .idle _ (Or.inl rfl)
    · rename_i n rest hpipe
      split at h
      · exact nomatch h
      · rename_i c hc
        rcases net_cases h with ⟨hnone, _⟩ | ⟨c', q, hc', hq, hr⟩
        · exact nomatch hc.symm.trans hnone
        · exact .loop (s := s) (.notify ports) n.fd c' rest q rfl hc' (Or.inl ⟨_, hq⟩) r hr
  | session n fs garbage =>
    have h : s.sessionThread env nums n fs garbage = .ok r := h
    unfold Server.sessionThread at h
    cases hqueue : s.pools.session.pending n with
    | nil =>
      rw [taken_none hqueue] at h
      cases h
      exact .idle _ (Or.inr (Or.inl ⟨n, fs, garbage, rfl, hqueue⟩))
    | cons t rest =>
      rw [taken_first hqueue] at h
      obtain ⟨⟨m, es⟩, hroll, hr⟩ := bind_eq_ok.mp h
      exact .session n fs garbage t rest m es hqueue (halting_eq_ok hroll) r hr
  | disk n calls =>
    have h : s.diskThread nums n calls = .ok r := h
    unfold Server.diskThread at h
    cases hqueue : s.pools.disk.pending n with
    | nil =>
      rw [taken_none hqueue] at h
      cases h
      exact .idle _ (Or.inr (Or.inr ⟨n, calls, rfl, hqueue⟩))
    | cons t rest =>
      rw [taken_first hqueue] at h
      obtain ⟨g, hroll, hr⟩ := bind_eq_ok.mp h
      exact .disk n calls t rest g hqueue (halting_eq_ok hroll) r hr

/-- Handing on changes the queues and the pipe alone. -/
theorem post_keeps {es : List ThreadsEffect} (h : t.post nums fd es = .ok r) :
    r.1.clients = t.clients ∧ r.1.accepted = t.accepted ∧ r.1.sessions = t.sessions ∧ r.1.disk = t.disk ∧
      r.2 = es.map (⟨fd, ·⟩) := by
  obtain ⟨_, _, h⟩ := bind_eq_ok.mp h
  obtain ⟨_, _, h⟩ := bind_eq_ok.mp h
  cases h
  exact ⟨rfl, rfl, rfl, rfl, rfl⟩

end

/-! ### The views -/

section
variable {env : Env} {nums : ThreadNums} {fd : Fd} {s : Server} {es : List ThreadsEffect}

theorem sessions_of_session (es : List Effect) :
    sessionsView.effects ((es.map ThreadsEffect.session).map (⟨fd, ·⟩)) = es := by
  show List.filterMap _ _ = es
  rw [List.filterMap_map, List.filterMap_map]
  exact List.filterMap_some

theorem disk_of_disk (es : List DiskEffect) : diskView.effects ((es.map ThreadsEffect.disk).map (⟨fd, ·⟩)) = es := by
  show List.filterMap _ _ = es
  rw [List.filterMap_map, List.filterMap_map]
  exact List.filterMap_some

theorem sessions_silent (h : ∀ x ∈ es, x.ofSession? = none) : sessionsView.effects (es.map (⟨fd, ·⟩)) = [] := by
  apply List.filterMap_eq_nil_iff.mpr
  intro x hx
  obtain ⟨y, hy, rfl⟩ := List.mem_map.mp hx
  exact h y hy

theorem disk_silent (h : ∀ x ∈ es, x.ofDisk? = none) : diskView.effects (es.map (⟨fd, ·⟩)) = [] := by
  apply List.filterMap_eq_nil_iff.mpr
  intro x hx
  obtain ⟨y, hy, rfl⟩ := List.mem_map.mp hx
  exact h y hy

theorem leave_keeps (s : Server) (fd : Fd) (c : Option Client) :
    (s.leave fd c).sessions = s.sessions ∧ (s.leave fd c).disk = s.disk ∧ (s.leave fd c).pools = s.pools := by
  cases c <;> exact ⟨rfl, rfl, rfl⟩

/-- No manager has a part in what the loop does. -/
theorem loop_keeps {i : ServerEvent} (hi : i.loops = true) {r : Server × List ServerEffect} (h : s.Acts env nums i r) :
    r.1.sessions = s.sessions ∧ r.1.disk = s.disk ∧ sessionsView.effects r.2 = [] ∧ diskView.effects r.2 = [] := by
  have hnet (es : List NetEffect) (fd : Fd) : sessionsView.effects ((es.map ThreadsEffect.net).map (⟨fd, ·⟩)) = [] ∧
      diskView.effects ((es.map ThreadsEffect.net).map (⟨fd, ·⟩)) = [] := by
    refine ⟨sessions_silent fun x hx => ?_, disk_silent fun x hx => ?_⟩
    · obtain ⟨y, _, rfl⟩ := List.mem_map.mp hx
      rfl
    · obtain ⟨y, _, rfl⟩ := List.mem_map.mp hx
      rfl
  cases h with
  | idle _ _ => exact ⟨rfl, rfl, rfl, rfl⟩
  | accepts fd ip r hr =>
    obtain ⟨_, _, hsessions, hdisk, heffects⟩ := post_keeps hr
    rw [heffects]
    exact ⟨hsessions, hdisk, hnet [_] fd⟩
  | loop _ fd c pipe q _ _ _ r hr =>
    obtain ⟨_, _, hsessions, hdisk, heffects⟩ := post_keeps hr
    obtain ⟨hleft, hright, _⟩ := leave_keeps {s with pipe := pipe} fd q.1
    rw [heffects]
    exact ⟨hsessions.trans hleft, hdisk.trans hright, hnet q.2 fd⟩
  | session _ _ _ _ _ _ _ _ _ _ _ => cases hi
  | disk _ _ _ _ _ _ _ _ _ => cases hi

/-- The server's sessions are those of the session manager, under the tasks its threads take. -/
theorem sessionsView_shows (env : Env) (nums : ThreadNums) :
    sessionsView.Shows (server env nums) (sessionManager env) fun _ => True := by
  refine ⟨fun _ _ _ => trivial, fun e he _ j hj => ?_, fun e he _ hunseen => ?_⟩
  · obtain ⟨s, i, s', es⟩ := e
    have hacts : s.Acts env nums i (s', es) := server_acts he
    cases hacts with
    | session n fs garbage t rest m es' hqueue hroll _ hr =>
      obtain ⟨_, _, hsessions, _, heffects⟩ := post_keeps hr
      have hinput : ({fs := fs, task := t, garbage := garbage} : ManagerInput) = j := by
        simpa [sessionsView, hqueue] using hj
      show rollStateMachine env j s.sessions = .ok (s'.sessions, sessionsView.effects es)
      rw [← hinput, hroll, show s'.sessions = m from hsessions, show es = _ from heffects, sessions_of_session]
    | idle _ hi =>
      rcases hi with hi | ⟨n, fs, garbage, rfl, hqueue⟩ | ⟨n, calls, rfl, _⟩
      · cases i <;> first | cases hj | cases hi
      · simp [sessionsView, hqueue] at hj
      · cases hj
    | accepts _ _ _ _ => cases hj
    | loop _ _ _ _ _ hi _ _ _ _ => cases i <;> first | cases hj | cases hi
    | disk _ _ _ _ _ _ _ _ _ => cases hj
  · obtain ⟨s, i, s', es⟩ := e
    have hacts : s.Acts env nums i (s', es) := server_acts he
    cases hloops : i.loops with
    | true =>
      obtain ⟨hsessions, _, heffects, _⟩ := loop_keeps hloops hacts
      exact ⟨hsessions, heffects⟩
    | false =>
      cases hacts with
      | session n fs garbage t rest m es' hqueue hroll _ hr => simp [sessionsView, hqueue] at hunseen
      | idle _ _ => exact ⟨rfl, rfl⟩
      | accepts _ _ _ _ => cases hloops
      | loop _ _ _ _ _ hi _ _ _ _ => rw [hloops] at hi; cases hi
      | disk n calls t rest h hqueue hroll _ hr =>
        obtain ⟨_, _, hsessions, _, heffects⟩ := post_keeps hr
        refine ⟨hsessions, ?_⟩
        rw [show es = _ from heffects]
        apply sessions_silent
        intro x hx
        obtain ⟨y, _, rfl⟩ := List.mem_map.mp hx
        rfl

/-- The server's transfers are those of the disk manager, under the tasks its threads take. -/
theorem diskView_shows (env : Env) (nums : ThreadNums) :
    diskView.Shows (server env nums) diskManager fun _ => True := by
  refine ⟨fun _ _ _ => trivial, fun e he _ j hj => ?_, fun e he _ hunseen => ?_⟩
  · obtain ⟨s, i, s', es⟩ := e
    have hacts : s.Acts env nums i (s', es) := server_acts he
    cases hacts with
    | disk n calls t rest h hqueue hroll _ hr =>
      obtain ⟨_, _, _, hdisk, heffects⟩ := post_keeps hr
      have hinput : ({task := t, calls := calls} : DiskInput) = j := by
        simpa [diskView, hqueue] using hj
      refine bind_eq_ok.mpr ⟨h, ?_, ?_⟩
      · rw [← hinput]
        exact hroll
      · rw [show es = _ from heffects, disk_of_disk]
        exact congrArg (fun m => Except.ok (m, h.effects)) hdisk.symm
    | idle _ hi =>
      rcases hi with hi | ⟨n, fs, garbage, rfl, hqueue⟩ | ⟨n, calls, rfl, hqueue⟩
      · cases i <;> first | cases hj | cases hi
      · cases hj
      · simp [diskView, hqueue] at hj
    | accepts _ _ _ _ => cases hj
    | loop _ _ _ _ _ hi _ _ _ _ => cases i <;> first | cases hj | cases hi
    | session _ _ _ _ _ _ _ _ _ _ _ => cases hj
  · obtain ⟨s, i, s', es⟩ := e
    have hacts : s.Acts env nums i (s', es) := server_acts he
    cases hloops : i.loops with
    | true =>
      obtain ⟨_, hdisk, _, heffects⟩ := loop_keeps hloops hacts
      exact ⟨hdisk, heffects⟩
    | false =>
      cases hacts with
      | disk n calls t rest h hqueue hroll _ hr => simp [diskView, hqueue] at hunseen
      | idle _ _ => exact ⟨rfl, rfl⟩
      | accepts _ _ _ _ => cases hloops
      | loop _ _ _ _ _ hi _ _ _ _ => rw [hloops] at hi; cases hi
      | session n fs garbage t rest m es' hqueue hroll _ hr =>
        obtain ⟨_, _, _, hdisk, heffects⟩ := post_keeps hr
        refine ⟨hdisk, ?_⟩
        rw [show es = _ from heffects]
        apply disk_silent
        intro x hx
        obtain ⟨y, _, rfl⟩ := List.mem_map.mp hx
        rfl

end

end HyperTransfer
