import HyperTransfer.Disk.Coverage
import HyperTransfer.Server.Isolation

/-! Access control, across the whole server.

The check of a right, the task that is posted on its strength, and the read or write it leads to
are done by different threads, with anything in between. The invariant follows a right on its way:
an armed session goes back to the command that armed it (`Armed`), a start task in a queue of the disk
threads to the session that posted it, an object and an open file to a start task. Whatever a disk
thread opens, lists, reads or writes was so asked for by a user with the right to it. -/
namespace HyperTransfer
open CString

/-! ### Sessions in the map -/

/-- The part of a session that is there in a step of the session manager. -/
def sessionEdge (fd : Fd) (e : ManagerEdge) : Option SessionEdge :=
  match e.before.sessions fd, e.after.sessions fd with
  | some s, some s' =>
    if e.input.task.fd = fd ∧ e.input.task.action ≠ .ctrlAccept then
      some ⟨s, ⟨e.input.fs, e.input.task⟩, s', e.effects⟩
    else none
  | _, _ => none

/-- The steps of the past that were the session's. -/
def sessionPast (fd : Fd) (past : List ManagerEdge) : List SessionEdge := past.filterMap (sessionEdge fd)

/-- Every armed session was armed by a step of its own. -/
def ArmedAll (past : List ManagerEdge) (m : Manager) : Prop :=
  ∀ fd s, m.sessions fd = some s → s.dataAction.armed → Armed (sessionPast fd past) s.dataAction

/-- The step handled a command that may start the task, with the rights for it. -/
def Grants (t : DiskTask) (e : ManagerEdge) : Prop := ∃ x, sessionEdge t.ctrlFd e = some x ∧ Authorised t.action x

section
variable {env : Env} {past : List ManagerEdge} {e : ManagerEdge} {fd : Fd}

/-- What a step is for a session: a step of its own, or nothing, or the session is new. -/
theorem session_part (h : (sessionManager env).Takes e) {s' : Session} (hs' : e.after.sessions fd = some s') :
    (∃ s, e.before.sessions fd = some s ∧ (session env).Takes ⟨s, ⟨e.input.fs, e.input.task⟩, s', e.effects⟩ ∧
        sessionEdge fd e = some ⟨s, ⟨e.input.fs, e.input.task⟩, s', e.effects⟩) ∨
      (sessionEdge fd e = none ∧ (e.before.sessions fd = some s' ∨ s'.dataAction = .waiting)) := by
  by_cases haction : e.input.task.action = .ctrlAccept
  · have hnone : sessionEdge fd e = none := by
      unfold sessionEdge
      split
      · exact if_neg fun hboth => hboth.2 haction
      · rfl
    have hstep : rollStateMachine env e.input e.before = .ok (e.after, e.effects) := h
    unfold rollStateMachine at hstep
    rw [haction] at hstep
    obtain ⟨r, hr, he⟩ := bind_eq_ok.mp hstep
    injection he with he
    injection he with hafter _
    rw [← hafter] at hs'
    rcases Registry.insert_cases hs' with hold | ⟨_, rfl⟩
    · exact Or.inr ⟨hnone, Or.inl hold⟩
    · exact Or.inr ⟨hnone, Or.inr (acceptSession_writes _ _ _ _ r hr).2.1⟩
  · rcases (other_step h haction).2 with ⟨hnothing, hsame⟩ | ⟨s, r, hs, hr, heffects, hafter⟩
    · rw [hsame] at hs'
      refine Or.inr ⟨?_, Or.inl hs'⟩
      unfold sessionEdge
      split
      · rename_i hthere _
        refine if_neg fun hboth => ?_
        rw [hboth.1, hthere] at hnothing
        cases hnothing
      · rfl
    · by_cases hfd : e.input.task.fd = fd
      · rw [hfd] at hs hafter
        rw [hafter, Registry.modify_same] at hs'
        cases hs'
        have hroll : (session env).Takes ⟨s, ⟨e.input.fs, e.input.task⟩, r.session, e.effects⟩ :=
          bind_eq_ok.mpr ⟨r, hr, by rw [heffects]; rfl⟩
        refine Or.inl ⟨s, hs, hroll, ?_⟩
        unfold sessionEdge
        rw [hs, hafter, Registry.modify_same]
        exact if_pos ⟨hfd, haction⟩
      · rw [hafter, Registry.modify_other _ _ (Ne.symm hfd)] at hs'
        refine Or.inr ⟨?_, Or.inl hs'⟩
        unfold sessionEdge
        split
        · exact if_neg fun hboth => hfd hboth.1
        · rfl

theorem sessionPast_last (past : List ManagerEdge) (e : ManagerEdge) :
    sessionPast fd (past ++ [e]) = sessionPast fd past ++ (sessionEdge fd e).toList := by
  unfold sessionPast
  rw [List.filterMap_append]
  cases h : sessionEdge fd e with
  | none => rw [List.filterMap_cons_none h]; rfl
  | some x => rw [List.filterMap_cons_some h]; rfl

theorem armedAll_next (h : (sessionManager env).Takes e) (hp : ArmedAll past e.before) :
    ArmedAll (past ++ [e]) e.after := by
  intro fd s' hs' harmed
  rw [sessionPast_last]
  rcases session_part h hs' with ⟨s, hs, htakes, hedge⟩ | ⟨hnone, hold | hnew⟩
  · rw [hedge]
    exact armed_next htakes (hp fd s hs) harmed
  · rw [hnone, Option.toList_none, List.append_nil]
    exact hp fd s' hold harmed
  · rw [hnew] at harmed
    cases harmed

/-- A task a session posts to the disk threads was granted. -/
theorem posted_granted (h : (sessionManager env).Takes e) (hp : ArmedAll past e.before)
    (hfd : ∀ s, e.before.sessions e.input.task.fd = some s → s.fd = e.input.task.fd) {t : DiskTask}
    (ht : .postToDisk t ∈ e.effects) :
    t.action.starts = true ∧ t.ctrlFd = e.input.task.fd ∧ ∃ g ∈ past, Grants t g := by
  by_cases haction : e.input.task.action = .ctrlAccept
  · have hstep : rollStateMachine env e.input e.before = .ok (e.after, e.effects) := h
    unfold rollStateMachine at hstep
    rw [haction] at hstep
    obtain ⟨r, hr, he⟩ := bind_eq_ok.mp hstep
    injection he with he
    injection he with _ heffects
    obtain ⟨buf, len, hgreets⟩ := accept_greets hr
    rw [← heffects, hgreets] at ht
    cases List.mem_singleton.mp ht
  · rcases (other_step h haction).2 with ⟨hnothing, hsame⟩ | ⟨s, r, hs, hr, heffects, _⟩
    · have hstep : rollStateMachine env e.input e.before = .ok (e.after, e.effects) := h
      unfold rollStateMachine at hstep
      split at hstep
      · exact absurd ‹_› haction
      · rw [show e.before.seekSession e.input.task.fd = none from hnothing] at hstep
        injection hstep with he
        injection he with _ heffects
        rw [← heffects] at ht
        cases ht
    · rw [heffects] at ht
      have htakes : (session env).Takes ⟨s, ⟨e.input.fs, e.input.task⟩, r.session, r.effects⟩ :=
        bind_eq_ok.mpr ⟨r, hr, rfl⟩
      have hctrl : t.ctrlFd = e.input.task.fd := ((rollSession_names hr _ ht).disk t rfl).trans (hfd s hs)
      obtain ⟨_, hfrom, harmed⟩ := (takes_moves htakes).2 t ht
      obtain ⟨pre, c, post, hpast, _, _, hauth⟩ := hp _ s hs harmed
      have hc : c ∈ sessionPast e.input.task.fd past := hpast ▸ List.mem_append_right _ (List.mem_cons_self ..)
      obtain ⟨g, hg, hgc⟩ := List.mem_filterMap.mp hc
      refine ⟨?_, hctrl, g, hg, c, hctrl ▸ hgc, hauth t.action hfrom.symm (hfrom ▸ harmed)⟩
      have hstarts : t.action.from.armed = true := hfrom ▸ harmed
      cases ht : t.action with
      | indexStart => rfl
      | storStart => rfl
      | retrStart => rfl
      | _ =>
        rw [ht] at hstarts
        cases hstarts

end

/-! ### From the session to the files -/

/-- A session has asked the disk threads for the task, and a command of its own was the reason. -/
def AskedFor (past : List ServerEdge) (t : DiskTask) : Prop :=
  t.action.starts = true ∧ ∃ pre c post, past = pre ++ c :: post ∧ ⟨t.ctrlFd, .session (.postToDisk t)⟩ ∈ c.effects ∧
    ∃ g ∈ sessionsView.seen pre, Grants t g

/-- The path was named by a task for the descriptor that was asked for. -/
def NamedBefore (past : List ServerEdge) (fd : Fd) (p : List Char) : Prop :=
  ∃ t, AskedFor past t ∧ t.ctrlFd = fd ∧ p = strncpy pathSize t.curPath

/-- Everything that can lead to a file was asked for. -/
structure Mediated (nums : ThreadNums) (past : List ServerEdge) (s : Server) : Prop where
  routed : s.Routed nums
  armed : ArmedAll (sessionsView.seen past) s.sessions
  queued : ∀ i, ∀ t ∈ s.pools.disk.pending i, t.action.starts = true → AskedFor past t
  covered : s.disk.Covered (NamedBefore past)

theorem AskedFor.next {past : List ServerEdge} {t : DiskTask} (h : AskedFor past t) (e : ServerEdge) :
    AskedFor (past ++ [e]) t := by
  obtain ⟨hstarts, pre, c, post, hpast, hrest⟩ := h
  exact ⟨hstarts, pre, c, post ++ [e], by rw [hpast, List.append_assoc, List.cons_append], hrest⟩

theorem NamedBefore.next {past : List ServerEdge} {fd : Fd} {p : List Char} (h : NamedBefore past fd p)
    (e : ServerEdge) : NamedBefore (past ++ [e]) fd p := by
  obtain ⟨t, ht, hp⟩ := h
  exact ⟨t, ht.next e, hp⟩

theorem covered_mono {P Q : Fd → List Char → Prop} (h : ∀ fd p, P fd p → Q fd p) {m : DiskManager} (hm : m.Covered P) :
    m.Covered Q :=
  ⟨fun fd d hd => h _ _ (hm.infos fd d hd), fun n p hp => (hm.files n p hp).imp fun fd => h fd p⟩

section
variable {env : Env} {nums : ThreadNums} {s t : Server} {fd : Fd}

/-- The loop asks for no transfer. -/
theorem client_starts_nothing {cfg : Config} {c : Client} {q : Option Client × List NetEffect}
    (hq : (∃ k, c.handle cfg k = .ok q) ∨ (∃ x, q = c.onRead x) ∨ q = c.onTimeout) :
    ∀ x ∈ q.2, ∀ d ∈ x.disk?, d.action.starts = false := by
  have hnone {es : List NetEffect} (h : ∀ x ∈ es, x.disk? = none) : ∀ x ∈ es, ∀ d ∈ x.disk?, d.action.starts = false := by
    intro x hx d hd
    rw [h x hx] at hd
    cases hd
  have hone {d : DiskTask} (h : d.action.starts = false) :
      ∀ x ∈ [NetEffect.data (.postToDisk d)], ∀ d' ∈ x.disk?, d'.action.starts = false := by
    intro x hx d' hd'
    rw [List.mem_singleton.mp hx] at hd'
    cases hd'
    exact h
  rcases hq with ⟨k, hk⟩ | ⟨x, rfl⟩ | rfl
  · cases k with
    | notify n ports =>
      rw [handle_notify] at hk
      cases hk
      have h := onNotify_cases cfg ports n c
      revert h
      generalize c.onNotify cfg ports n = r
      intro h
      cases h with
      | port _ _ _ es hes =>
        refine hnone fun x hx => ?_
        obtain ⟨port, rfl⟩ := hes x hx
        rfl
      | _ => exact hnone (List.forall_mem_nil _)
    | callback k =>
      cases hfires : k.fires c with
      | false =>
        rw [handle_idle hfires] at hk
        cases hk
        exact hnone (List.forall_mem_nil _)
      | true =>
        cases k with
        | write w =>
          rw [handle_write hfires] at hk
          cases hk
          refine hnone ?_
          unfold Client.onWrite
          dsimp only
          split
          · exact List.forall_mem_nil _
          · split
            · split <;> exact List.forall_mem_singleton.mpr rfl
            · exact List.forall_mem_singleton.mpr rfl
        | dataAccept o =>
          rw [handle_dataAccept hfires] at hk
          cases hk
          cases o with
          | none => exact hnone (List.forall_mem_nil _)
          | some n => exact hnone (List.forall_mem_singleton.mpr rfl)
        | dataRead d =>
          rw [handle_dataRead hfires] at hk
          obtain ⟨p, hp, hk⟩ := bind_eq_ok.mp hk
          cases hk
          cases dataRead_cases hp with
          | ended => exact hone rfl
          | full _ _ _ _ => exact hone rfl
          | _ => exact hnone (List.forall_mem_nil _)
        | dataWrite w =>
          rw [handle_dataWrite hfires] at hk
          cases hk
          unfold Client.dataWrite TcpClient.dataWrite
          dsimp only
          split
          · exact hnone (List.forall_mem_nil _)
          · split
            · exact hnone (List.forall_mem_nil _)
            · exact hnone (List.forall_mem_nil _)
            · split
              · exact hnone (List.forall_mem_singleton.mpr rfl)
              · intro x hx d hd
                simp only [List.map_cons, List.map_nil, List.mem_cons, List.not_mem_nil, or_false] at hx
                rcases hx with rfl | rfl
                · cases hd
                · cases hd
                  rfl
  · cases x <;> exact hnone (List.forall_mem_singleton.mpr rfl)
  · exact hnone (List.forall_mem_singleton.mpr rfl)

theorem tailqInsertAll_mem {A : Type} {index : A → Nat} {ts : List A} {p q : Pool A}
    (h : p.tailqInsertAll index ts = .ok q) : ∀ i, ∀ a ∈ q.pending i, a ∈ p.pending i ∨ a ∈ ts := by
  induction ts generalizing p with
  | nil =>
    cases h
    exact fun _ _ ha => Or.inl ha
  | cons b rest ih =>
    unfold Pool.tailqInsertAll at h
    rw [List.foldlM_cons] at h
    obtain ⟨p', hp', h⟩ := bind_eq_ok.mp h
    obtain ⟨_, rfl⟩ := Pool.tailqInsert_ok.mp hp'
    intro i a ha
    rcases ih h i a ha with ha | ha
    · dsimp only [Dispatch.insertTail] at ha
      by_cases hi : i = index b
      · rw [hi, Function.update_self] at ha
        rcases List.mem_append.mp ha with ha | ha
        · exact Or.inl (hi ▸ ha)
        · exact Or.inr (List.mem_singleton.mp ha ▸ List.mem_cons_self ..)
      · rw [Function.update_of_ne hi] at ha
        exact Or.inl ha
    · exact Or.inr (List.mem_cons_of_mem _ ha)

/-- What is in the queues of the disk threads was there before, or is handed on. -/
theorem post_queued {es : List ThreadsEffect} {r : Server × List ServerEffect} (h : t.post nums fd es = .ok r) :
    ∀ i, ∀ d ∈ r.1.pools.disk.pending i, d ∈ t.pools.disk.pending i ∨ d ∈ es.filterMap ThreadsEffect.disk? := by
  obtain ⟨_, _, h⟩ := bind_eq_ok.mp h
  obtain ⟨disk, hdisk, h⟩ := bind_eq_ok.mp h
  cases h
  exact tailqInsertAll_mem (halting_eq_ok hdisk)

/-- A start task in a queue was there before, or a session has just asked for it. -/
theorem queued_next {past : List ServerEdge} {e : ServerEdge} (h : (server env nums).Takes e)
    (hp : Mediated nums past e.before) :
    ∀ i, ∀ d ∈ e.after.pools.disk.pending i, d.action.starts = true → AskedFor (past ++ [e]) d := by
  intro i d hd hstarts
  obtain ⟨s, input, s', effects⟩ := e
  have hold (hthere : d ∈ s.pools.disk.pending i) : AskedFor (past ++ [⟨s, input, s', effects⟩]) d :=
    (hp.queued i d hthere hstarts).next _
  have hacts : s.Acts env nums input (s', effects) := server_acts h
  cases hacts with
  | idle _ _ => exact hold hd
  | accepts fd ip _ hr =>
    rcases post_queued hr i d hd with hd | hd
    · exact hold hd
    · cases hd
  | loop _ fd c pipe q hi hc hq _ hr =>
    rcases post_queued hr i d hd with hd | hd
    · rw [(leave_keeps {s with pipe := pipe} fd q.1).2.2] at hd
      exact hold hd
    · obtain ⟨x, hx, hdisk⟩ := List.mem_filterMap.mp hd
      obtain ⟨y, hy, rfl⟩ := List.mem_map.mp hx
      rw [client_starts_nothing hq y hy d hdisk] at hstarts
      cases hstarts
  | session n fs garbage t rest m es hqueue hroll _ hr =>
    rcases post_queued hr i d hd with hd | hd
    · exact hold hd
    · obtain ⟨x, hx, hdisk⟩ := List.mem_filterMap.mp hd
      obtain ⟨y, hy, rfl⟩ := List.mem_map.mp hx
      have hy' : .postToDisk d ∈ es := by
        cases y with
        | postToDisk d' =>
          cases hdisk
          exact hy
        | _ => cases hdisk
      obtain ⟨_, hctrl, hgrants⟩ := posted_granted
        (e := ⟨s.sessions, ⟨fs, t, garbage⟩, m, es⟩) hroll hp.armed (hp.routed.sessions t.fd) hy'
      have hctrl : d.ctrlFd = t.fd := hctrl
      obtain ⟨_, _, _, _, heffects⟩ := post_keeps hr
      refine ⟨hstarts, past, _, [], rfl, ?_, hgrants⟩
      show ⟨d.ctrlFd, .session (.postToDisk d)⟩ ∈ effects
      rw [show effects = _ from heffects, hctrl]
      exact List.mem_map_of_mem (List.mem_map_of_mem hy')
  | disk n calls t rest g hqueue hroll _ hr =>
    rcases post_queued hr i d hd with hd | hd
    · have hd : d ∈ Function.update s.pools.disk.pending n rest i := hd
      by_cases hi : i = n
      · rw [hi, Function.update_self] at hd
        exact hold (by rw [hi, hqueue]; exact List.mem_cons_of_mem _ hd)
      · rw [Function.update_of_ne hi] at hd
        exact hold hd
    · obtain ⟨x, hx, hdisk⟩ := List.mem_filterMap.mp hd
      obtain ⟨y, _, rfl⟩ := List.mem_map.mp hx
      cases hdisk

/-- A start task that a disk thread takes was asked for: it was the first of its queue. -/
theorem disk_asked {past : List ServerEdge} {e : ServerEdge} (hp : Mediated nums past e.before) {j : DiskInput}
    (hseen : diskView.input e.input e.before = some j) (hstarts : j.task.action.starts = true) :
    AskedFor past j.task := by
  obtain ⟨s, input, s', effects⟩ := e
  cases input with
  | disk n calls =>
    cases hqueue : s.pools.disk.pending n with
    | nil => simp [diskView, hqueue] at hseen
    | cons t rest =>
      simp only [diskView, hqueue, List.head?_cons, Option.map_some, Option.some.injEq] at hseen
      refine hp.queued n j.task ?_ hstarts
      rw [← hseen]
      show t ∈ s.pools.disk.pending n
      rw [hqueue]
      exact List.mem_cons_self ..
  | _ => cases hseen

/-- What a step does on the disk side it does for the descriptor of its task. -/
theorem disk_effect {e : ServerEdge} (h : (server env nums).Takes e) {x : DiskEffect} (hx : ⟨fd, .disk x⟩ ∈ e.effects) :
    ∃ j, diskView.input e.input e.before = some j ∧ j.task.ctrlFd = fd ∧ x ∈ diskView.effects e.effects := by
  have hseen : x ∈ diskView.effects e.effects := List.mem_filterMap.mpr ⟨_, hx, rfl⟩
  obtain ⟨s, input, s', effects⟩ := e
  have hnet {j : Fd} {l : List NetEffect} (he : effects = (l.map ThreadsEffect.net).map (⟨j, ·⟩)) : False := by
    rw [he] at hx
    obtain ⟨y, hy, heq⟩ := List.mem_map.mp hx
    obtain ⟨z, _, rfl⟩ := List.mem_map.mp hy
    cases heq
  have hacts : s.Acts env nums input (s', effects) := server_acts h
  cases hacts with
  | idle _ _ => cases hx
  | accepts _ _ _ hr => exact absurd (post_keeps hr).2.2.2.2 fun he => hnet (l := [_]) he
  | loop _ _ _ _ _ _ _ _ _ hr => exact absurd (post_keeps hr).2.2.2.2 hnet
  | session _ _ _ _ _ _ _ _ _ _ hr =>
    have heffects : effects = _ := (post_keeps hr).2.2.2.2
    rw [heffects] at hx
    obtain ⟨y, hy, heq⟩ := List.mem_map.mp hx
    obtain ⟨z, _, rfl⟩ := List.mem_map.mp hy
    cases heq
  | disk n calls t rest g hqueue _ _ hr =>
    have heffects : effects = _ := (post_keeps hr).2.2.2.2
    refine ⟨{task := t, calls := calls}, by simp [diskView, hqueue], ?_, hseen⟩
    rw [heffects] at hx
    obtain ⟨y, _, heq⟩ := List.mem_map.mp hx
    exact congrArg ServerEffect.fd heq

/-- A step keeps it all, and touches paths named before alone. -/
theorem mediated_next {past : List ServerEdge} {e : ServerEdge} (h : (server env nums).Takes e)
    (hp : Mediated nums past e.before) :
    Mediated nums (past ++ [e]) e.after ∧
      ∀ fd x, ⟨fd, .disk x⟩ ∈ e.effects → ∀ p, x.path? = some p →
        ∃ fd', NamedBefore past fd' p ∧ (x.byPath = true → fd' = fd) := by
  have harmed : ArmedAll (sessionsView.seen (past ++ [e])) e.after.sessions := by
    rw [View.seen_last, View.edge]
    cases hseen : sessionsView.input e.input e.before with
    | none =>
      rw [Option.map_none, Option.toList_none, List.append_nil,
        show e.after.sessions = e.before.sessions from ((sessionsView_shows env nums).unseen e h trivial hseen).1]
      exact hp.armed
    | some j => exact armedAll_next ((sessionsView_shows env nums).seen e h trivial j hseen) hp.armed
  have hstep {j : DiskInput} (hseen : diskView.input e.input e.before = some j) :=
    covered_step ((diskView_shows env nums).seen e h trivial j hseen) hp.covered fun hstarts =>
      ⟨j.task, disk_asked hp hseen hstarts, rfl, rfl⟩
  have hcovered : e.after.disk.Covered (NamedBefore past) := by
    cases hseen : diskView.input e.input e.before with
    | none =>
      rw [show e.after.disk = e.before.disk from ((diskView_shows env nums).unseen e h trivial hseen).1]
      exact hp.covered
    | some j => exact (hstep hseen).1
  refine ⟨⟨(viewOf_shows env nums 0).kept e h hp.routed, harmed, queued_next h hp,
    covered_mono (fun _ _ hpath => hpath.next e) hcovered⟩, fun fd x hx p hpath => ?_⟩
  obtain ⟨j, hseen, hfd, hx⟩ := disk_effect h hx
  obtain ⟨fd', hnamed, hown⟩ := (hstep hseen).2 x hx p hpath
  exact ⟨fd', hnamed, fun hname => (hown hname).trans hfd⟩

theorem mediated_start (nums : ThreadNums) (files : Files (List Char) Char) (hfiles : ∀ n, files.opened n = none) :
    Mediated nums [] (.start nums files) := by
  refine ⟨start_routed nums files, fun _ _ h => (nomatch h), fun _ _ h => (nomatch h), fun _ _ h => (nomatch h),
    fun n p hp => ?_⟩
  have hnone : (files.opened n).map Description.path = some p := hp
  rw [hfiles n] at hnone
  cases hnone

/-- **Nothing is opened, listed, read or written that was not asked for**: in every run of the server, whatever path
a disk thread touches was named by a task that a session posted earlier, after it had handled a command that may
start that task, from a user logged in with the right to it. What is opened or listed was named for the descriptor it
is opened or listed for; what is read or written goes by the number of a handle, and was named for some descriptor. -/
theorem paths_asked_for (env : Env) (nums : ThreadNums) (files : Files (List Char) Char)
    (hfiles : ∀ n, files.opened n = none) (inputs : List ServerEvent) :
    ∀ now e rest, (server env nums).trace (.start nums files) inputs = now ++ e :: rest →
      ∀ fd x, ⟨fd, .disk x⟩ ∈ e.effects → ∀ p, x.path? = some p →
        ∃ fd', NamedBefore now fd' p ∧ (x.byPath = true → fd' = fd) := by
  intro now e rest hrun
  obtain ⟨htakes, hbefore, _⟩ := Machine.history (m := server env nums) (fun _ => True) []
    (mediated_start nums files hfiles)
    (fun past e he _ hp => (mediated_next he hp).1) (fun _ _ => trivial) now e rest hrun
  exact (mediated_next htakes hbefore).2

/-- A user of the shipped list logs in and lists the root. -/
def serverListing : List ServerEvent :=
  [.accept 7 "10.0.0.2".toList, .session 0 (.constant none) [],
    .read 7 (.text "USER share\r\n".toList), .session 0 (.constant none) [],
    .read 7 (.text "PASS share\r\n".toList), .session 0 (.constant none) [],
    .read 7 (.text "PASV\r\n".toList), .session 0 (.constant none) [],
    .notify [], .notify [], .notify [], .notify [some (8, 2024)], .session 0 (.constant none) [],
    .read 7 (.text "LIST\r\n".toList), .session 0 (.constant none) [],
    .callback 7 (.dataAccept (some 9)), .session 0 (.constant none) [], .disk 0 {}]

theorem listing_asked_for :
    ∃ now e, (server .shipped oneThread).trace (.start oneThread .empty) serverListing = now ++ [e] ∧
      ⟨7, .disk (.listed "/home/chentianjian/data/".toList)⟩ ∈ e.effects ∧
      NamedBefore now 7 "/home/chentianjian/data/".toList := by
  have hnamed (now : List ServerEdge) (e : ServerEdge)
      (hrun : (server .shipped oneThread).trace (.start oneThread .empty) serverListing = now ++ [e])
      (hlisted : ⟨7, .disk (.listed "/home/chentianjian/data/".toList)⟩ ∈ e.effects) :
      NamedBefore now 7 "/home/chentianjian/data/".toList := by
    obtain ⟨fd, hnamed, hown⟩ :=
      paths_asked_for .shipped oneThread .empty (fun _ => rfl) serverListing now e [] hrun 7 _ hlisted _ rfl
    obtain rfl : fd = 7 := hown rfl
    exact hnamed
  exact ⟨[_, _, _, _, _, _, _, _, _, _, _, _, _, _, _, _, _], _, rfl, List.mem_cons_self ..,
    hnamed _ _ rfl (List.mem_cons_self ..)⟩

end

end HyperTransfer
