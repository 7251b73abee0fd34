import HyperTransfer.Disk.Steps
import HyperTransfer.Lib.Queues
import HyperTransfer.Server.Threads
import HyperTransfer.Tcp.Upload

/-! Whether an upload's start comes before its bytes.

The start of an upload goes from the client to the session and from there to the disk thread,
its bytes go to the disk thread directly. Data connections are numbered, and each is waiting
for the session until its start is posted (`Numbered`). So the start comes first exactly where
bytes are handed over with no data connection waiting (`start_first_iff`), and then the disk
thread has an object for all of them. -/
namespace HyperTransfer
open CString History Queues

/-- The data connection a start task belongs to. -/
def startOf (q : Nat × DiskTask) : Option Nat := if q.2.action = .storStart then some q.1 else none

/-- The data connection whose bytes a task carries. -/
def uploadOf (q : Nat × DiskTask) : Option Nat := if q.2.uploads then some q.1 else none

/-- The data connection a task tells the session of. -/
def acceptOf (q : Nat × SessionTask) : Option Nat := if q.2.action = .dataAccept then some q.1 else none

/-- The data connections the session has yet to hear of. -/
def Threads.unheard (s : Threads) : List Nat := s.sessionQueue.filterMap acceptOf

/-- The task the disk thread takes. -/
def taken (e : ThreadsEdge) : List (Nat × DiskTask) :=
  match e.input with
  | .disk _ => e.before.diskQueue.take 1
  | _ => []

/-- The tasks of the disk thread in its order: those taken, and those in the queue. -/
def diskOrder (past : List ThreadsEdge) (s : Threads) : List (Nat × DiskTask) := past.flatMap taken ++ s.diskQueue

/-- The disk thread drops bytes: it knows no object for them. -/
def DropsBytes (e : ThreadsEdge) : Prop := ∃ q ∈ taken e, q.2.uploads = true ∧ e.before.disk.seekDisk q.2.ctrlFd = none

/-- The read callback hands the buffer over. -/
def Client.handsOn (c : Client) : ThreadsEvent → Bool
  | .callback k => c.handsOver (.callback k)
  | _ => false

def handsOn (e : ThreadsEdge) : Bool := e.before.client.any fun c => c.handsOn e.input

/-- The session has been in `DATA_STOR` up to this step. -/
def InStor (now : List ThreadsEdge) (e : ThreadsEdge) : Prop := ∀ p ∈ now ++ [e], p.before.session.dataAction = .stor

instance (e : ThreadsEdge) : Decidable (DropsBytes e) := inferInstanceAs (Decidable (∃ q ∈ taken e, _))

instance (now : List ThreadsEdge) (e : ThreadsEdge) : Decidable (InStor now e) :=
  inferInstanceAs (Decidable (∀ p ∈ now ++ [e], _))

/-! ### What the threads do about uploads -/

/-- What an event of the loop means for uploads; `hands` says whether the buffer is handed
over. -/
inductive Client.Moves (c : Client) : Bool → Option Client × List NetEffect → Prop where
  | accepts (d : Client) : Moves c false (some d, [.postToSession {fd := c.ctrlSocket, action := .dataAccept}])
  | hands (d : Client) (t : DiskTask) (hopen : c.dataFd.isSome = true) (hfd : t.ctrlFd = c.ctrlSocket)
      (ht : t.action = .storing ∨ t.action = .storOk ∧ d.dataFd = none) : Moves c true (some d, [.data (.postToDisk t)])
  | other (r : Option Client × List NetEffect) (hdisk : r.2.filterMap NetEffect.disk? = [])
      (haccepts : ∀ t ∈ r.2.filterMap NetEffect.session?, t.action ≠ .dataAccept)
      (hdata : ∀ d ∈ r.1, d.dataFd.isSome = true → c.dataFd.isSome = true) : Moves c false r

/-- What stays of a client: whose it is, and that nothing is written to its data connection. -/
def Client.Plain (fd : Fd) (c : Client) : Prop := c.ctrlSocket = fd ∧ c.dataWriteQ = []

section
variable {cfg : Config} {c : Client} {fd : Fd}

theorem clearDatafd_plain (h : c.Plain fd) : c.clearDatafd.Plain fd ∧ c.clearDatafd.dataFd = none := by
  obtain ⟨accept, write, hclear⟩ := clearDatafd_eq c
  rw [hclear]
  exact ⟨h, rfl⟩

/-- Nothing is posted, and the data connection stays as it is or is closed. -/
theorem moves_silent {d : Client} {es : List NetEffect} (hd : d.Plain fd)
    (hes : es.filterMap NetEffect.disk? = [] ∧ es.filterMap NetEffect.session? = [])
    (hdata : d.dataFd.isSome = true → c.dataFd.isSome = true) :
    c.Moves false (some d, es) ∧ ∀ d' ∈ some d, d'.Plain fd := by
  refine ⟨.other _ hes.1 ?_ (holds_left hdata), holds_left hd⟩
  rw [hes.2]
  exact fun _ ht => nomatch ht

/-- The session is told of something else than a data connection. -/
theorem moves_telling {s : Option Client} {t : SessionTask} (ht : t.action ≠ .dataAccept)
    (hs : ∀ d ∈ s, d.dataFd.isSome = true → c.dataFd.isSome = true) : c.Moves false (s, [.postToSession t]) := by
  refine .other _ rfl (fun t' ht' => ?_) hs
  rw [List.mem_singleton.mp ht']
  exact ht

theorem clearDatafd_moves (h : c.Plain fd) :
    c.Moves false (some c.clearDatafd, []) ∧ ∀ d ∈ some c.clearDatafd, d.Plain fd := by
  obtain ⟨hplain, hnone⟩ := clearDatafd_plain h
  apply moves_silent hplain ⟨rfl, rfl⟩
  intro hopen
  rw [hnone] at hopen
  exact nomatch hopen

theorem onNotify_moves (cfg : Config) {n : EventNotify} (hn : n.action ≠ .dataWrite) (ports : List (Option (Fd × Int)))
    (h : c.Plain fd) : c.Moves false (some (c.onNotify cfg ports n).1, (c.onNotify cfg ports n).2) ∧
      ∀ d ∈ some (c.onNotify cfg ports n).1, d.Plain fd := by
  have hcases := onNotify_cases cfg ports n c
  generalize c.onNotify cfg ports n = r at hcases ⊢
  cases hcases with
  | reply => exact moves_silent h ⟨rfl, rfl⟩ id
  | port _ listen accept es hes =>
    refine ⟨.other _ ?_ ?_ (holds_left id), holds_left h⟩
    · apply List.filterMap_eq_nil_iff.mpr
      intro x hx
      obtain ⟨port, rfl⟩ := hes x hx
      rfl
    · intro t ht
      obtain ⟨x, hx, hsession⟩ := List.mem_filterMap.mp ht
      obtain ⟨port, rfl⟩ := hes x hx
      cases hsession
      exact fun ha => nomatch ha
  | transOk =>
    obtain ⟨hplain, hnone⟩ := clearDatafd_plain (c := c.queueReply n) h
    apply moves_silent hplain ⟨rfl, rfl⟩
    intro hopen
    rw [hnone] at hopen
    exact nomatch hopen
  | data haction => exact absurd haction hn
  | unknown => exact moves_silent h ⟨rfl, rfl⟩ id

theorem onWrite_moves (r : WriteResult) (h : c.Plain fd) :
    c.Moves false (c.onWrite r) ∧ ∀ d ∈ (c.onWrite r).1, d.Plain fd := by
  unfold Client.onWrite
  dsimp only
  split
  · exact moves_silent h ⟨rfl, rfl⟩ id
  · split
    · split
      · exact moves_silent h ⟨rfl, rfl⟩ id
      · exact moves_silent h ⟨rfl, rfl⟩ id
    · exact ⟨moves_telling (by simp) (holds_gone _), holds_gone _⟩

theorem callback_moves {k : Callback} {r : Option Client × List NetEffect} (h : c.Plain fd)
    (hr : c.handle cfg (.callback k) = .ok r) :
    c.Moves (c.handsOver (.callback k)) r ∧ ∀ d ∈ r.1, d.Plain fd := by
  cases hfires : k.fires c with
  | false =>
    rw [handle_idle hfires] at hr
    cases hr
    have hsilent : c.handsOver (.callback k) = false := by
      cases k with
      | dataRead r =>
        have hfd : c.dataFd.isSome = false := hfires
        cases r <;> simp [Client.handsOver, hfd]
      | _ => rfl
    rw [hsilent]
    exact moves_silent h ⟨rfl, rfl⟩ id
  | true =>
    cases k with
    | write r =>
      rw [handle_write hfires] at hr
      cases hr
      exact onWrite_moves r h
    | dataAccept r =>
      rw [handle_dataAccept hfires] at hr
      cases hr
      cases r with
      | none => exact moves_silent h ⟨rfl, rfl⟩ id
      | some n => exact ⟨.accepts _, holds_left h⟩
    | dataWrite r =>
      rw [handle_dataWrite hfires] at hr
      cases hr
      have hnothing : c.toTcpClient.dataWrite r = ({c.toTcpClient with dataWritePending := false}, []) := by
        unfold TcpClient.dataWrite
        dsimp only
        rw [h.2]
      unfold Client.dataWrite
      rw [hnothing]
      exact moves_silent h ⟨rfl, rfl⟩ id
    | dataRead r =>
      have hfd : c.dataFd.isSome = true := hfires
      rw [handle_dataRead hfd] at hr
      obtain ⟨p, hp, hleft⟩ := bind_eq_ok.mp hr
      clear hr
      cases hleft
      cases dataRead_cases hp with
      | again _ hr =>
        have hsilent : c.handsOver (.callback (.dataRead r)) = false := by
          rcases hr with rfl | rfl <;> simp [Client.handsOver]
        rw [hsilent]
        exact moves_silent h ⟨rfl, rfl⟩ id
      | ended =>
        obtain ⟨hplain, hnone⟩ := clearDatafd_plain (c := c.clearData) h
        rw [show c.handsOver (.callback (.dataRead (.eof false))) = true by simp [Client.handsOver, hfd]]
        exact ⟨.hands _ (c.bufferTask .storOk) hfd rfl (Or.inr ⟨rfl, hnone⟩), holds_left hplain⟩
      | failed => exact clearDatafd_moves h
      | kept bytes pos le hfits =>
        have hsilent : c.handsOver (.callback (.dataRead (.read bytes pos le))) = false := by
          simp only [Client.handsOver, hfd, Bool.true_and, decide_eq_false_iff_not]
          omega
        rw [hsilent]
        exact moves_silent h ⟨rfl, rfl⟩ id
      | full bytes pos le hfull =>
        have hhands : c.handsOver (.callback (.dataRead (.read bytes pos le))) = true := by
          simp only [Client.handsOver, hfd, Bool.true_and, decide_eq_true_eq]
          omega
        rw [hhands]
        exact ⟨.hands _ ((c.copyData bytes).bufferTask .storing) hfd rfl (Or.inl rfl), holds_left h⟩

/-- What an event of the loop means for uploads. -/
theorem runs_moves {pipe left : List EventNotify} {i : ThreadsEvent} {r : Option Client × List NetEffect}
    (h : c.Plain fd) (hpipe : ∀ n ∈ pipe, n.action ≠ .dataWrite) (hruns : c.Runs cfg pipe i left r) :
    c.Moves (c.handsOn i) r ∧ (∀ d ∈ r.1, d.Plain fd) ∧ ∀ n ∈ left, n.action ≠ .dataWrite := by
  cases hruns with
  | callback k hr =>
    obtain ⟨hmoves, hplain⟩ := callback_moves h hr
    exact ⟨hmoves, hplain, hpipe⟩
  | notify n ports rest hrest hr =>
    rw [hrest] at hpipe
    rw [handle_notify] at hr
    cases hr
    obtain ⟨hmoves, hplain⟩ := onNotify_moves cfg (hpipe n (List.mem_cons_self ..)) ports h
    exact ⟨hmoves, hplain, fun n hn => hpipe n (List.mem_cons_of_mem _ hn)⟩
  | read r =>
    cases r with
    | text bytes => exact ⟨moves_telling (by simp) (holds_left id), holds_left h, hpipe⟩
    | closed => exact ⟨moves_telling (by simp) fun d hd => (nomatch hd), fun d hd => (nomatch hd), hpipe⟩
    | failed => exact ⟨moves_telling (by simp) fun d hd => (nomatch hd), fun d hd => (nomatch hd), hpipe⟩
  | timeout => exact ⟨moves_telling (by simp) fun d hd => (nomatch hd), fun d hd => (nomatch hd), hpipe⟩

end

/-! #### Sessions -/

section
variable {env : Env} {fs : FileSystem} {t : SessionTask} {s : Session} {h : Handled}

theorem rollSession_fd (hroll : rollSession env fs t s = .ok h) : h.session.fd = s.fd := by
  rcases rollSession_cases h hroll with ⟨_, hcore, _⟩ | ⟨deal, u, g, _, hu, _, hg, hcore, _, _⟩
  · exact congrArg Prod.snd (Session.link_of_core hcore)
  · exact congrArg Prod.snd (((Session.link_of_core hcore).trans (handle_link g hg).1).trans (Session.link_of_core hu))

/-- A session in `DATA_STOR` starts an upload when it hears of a data connection, and posts
nothing else to the disk thread. -/
theorem rollSession_starts (hroll : rollSession env fs t s = .ok h) (hstor : s.dataAction = .stor) :
    if t.action = .dataAccept then
      ∃ d, h.effects.filterMap Effect.disk? = [d] ∧ d.action = .storStart ∧ d.ctrlFd = s.fd
    else h.effects.filterMap Effect.disk? = [] := by
  split
  · rename_i haction
    unfold rollSession at hroll
    rw [haction] at hroll
    dsimp only at hroll
    rw [hstor] at hroll
    obtain ⟨name, _, hroll⟩ := bind_eq_ok.mp hroll
    cases hroll
    exact ⟨.ofPath s.fd .storStart name s.restSize, rfl, rfl, rfl⟩
  · rename_i haction
    have hedge : (session env).Takes ⟨s, ⟨fs, t⟩, h.session, h.effects⟩ := bind_eq_ok.mpr ⟨h, hroll, rfl⟩
    apply List.filterMap_eq_nil_iff.mpr
    intro x hx
    cases x with
    | postToDisk d => exact absurd ((takes_moves hedge).2 d hx).1 haction
    | _ => rfl

end
/-- No session's notification is of data. -/
theorem Effect.notify_ctrl (fd : Fd) {x : Effect} {n : EventNotify} (h : x.notify? fd = some n) :
    n.action ≠ .dataWrite := by
  cases x with
  | post buf len => cases h; exact fun ha => nomatch ha
  | postTransferOk buf len => cases h; exact fun ha => nomatch ha
  | pasvPost => cases h; exact fun ha => nomatch ha
  | _ => exact nomatch h

/-! #### The disk thread -/

/-- It notifies nobody, and tells the session of no data connection. -/
def DiskEffect.Silent (x : DiskEffect) : Prop := x.notify? = none ∧ ∀ t ∈ x.session?, t.action ≠ .dataAccept

section
variable {c : DiskCalls} {t : DiskTask} {m : DiskManager} {w : DiskWork}

theorem silent_append {es new : List DiskEffect} (hes : ∀ x ∈ es, x.Silent) (hnew : ∀ x ∈ new, x.Silent) :
    ∀ x ∈ es ++ new, x.Silent := by
  intro x hx
  rcases List.mem_append.mp hx with hx | hx
  · exact hes x hx
  · exact hnew x hx

theorem silent_told {a : SessionTaskAction} (ha : a ≠ .dataAccept) (fd : Fd) :
    ∀ x ∈ [DiskEffect.postToSession {fd := fd, action := a}], x.Silent := by
  refine List.forall_mem_singleton.mpr ⟨rfl, fun t ht => ?_⟩
  cases ht
  exact ha

theorem openPath_silent (create : Bool) : ∀ x ∈ ((m.construct t).openPath c create).effects, x.Silent :=
  List.forall_mem_singleton.mpr ⟨rfl, fun _ ht => nomatch ht⟩

theorem runStorStart_silent : ∀ x ∈ (DiskFsm.runStorStart c (m.construct t)).2.effects, x.Silent := by
  unfold DiskFsm.runStorStart
  split
  · exact openPath_silent true
  · have hseek : ((m.construct t).openPath c false |>.seekFileHandle c).effects =
        ((m.construct t).openPath c false).effects := by
      unfold DiskWork.seekFileHandle
      split <;> rfl
    show ∀ x ∈ (((m.construct t).openPath c false).seekFileHandle c).effects, x.Silent
    rw [hseek]
    exact openPath_silent false

theorem writeToDisk_silent (hw : ∀ x ∈ w.effects, x.Silent) : ∀ x ∈ (w.writeToDisk c t).2.effects, x.Silent := by
  unfold DiskWork.writeToDisk
  split
  · exact hw
  · dsimp only
    split
    · exact hw
    · exact silent_append hw (List.forall_mem_singleton.mpr ⟨rfl, fun _ ht => nomatch ht⟩)

theorem closeFileHandle_silent (hw : ∀ x ∈ w.effects, x.Silent) : ∀ x ∈ w.closeFileHandle.effects, x.Silent := by
  unfold DiskWork.closeFileHandle
  split
  · exact hw
  · exact silent_append hw (List.forall_mem_singleton.mpr ⟨rfl, fun _ ht => nomatch ht⟩)

theorem finish_silent {h : DiskHandled} (hh : ∀ x ∈ h.effects, x.Silent) (fd : Fd) :
    ∀ x ∈ (h.finish fd).effects, x.Silent := by
  apply silent_append (silent_append hh (silent_told (by decide) fd))
  rcases DiskFsm.delDisk_posts h.manager fd with hnone | ⟨n, hclosed⟩
  · rw [hnone]
    exact fun _ hx => nomatch hx
  · rw [hclosed]
    exact List.forall_mem_singleton.mpr ⟨rfl, fun _ ht => nomatch ht⟩

/-- The disk thread says nothing of data connections while it handles uploads. -/
theorem roll_silent {h : DiskHandled} (hroll : DiskFsm.rollStateMachine c t m = .ok h)
    (ht : t.action = .storStart ∨ t.uploads = true) : ∀ x ∈ h.effects, x.Silent := by
  have hnone : ∀ x ∈ ([] : List DiskEffect), x.Silent := List.forall_mem_nil _
  have hactions : t.action = .storStart ∨ t.action = .storing ∨ t.action = .storOk := by
    simpa [DiskTask.uploads] using ht
  unfold DiskFsm.rollStateMachine at hroll
  rcases hactions with haction | haction | haction
  · rw [haction] at hroll
    dsimp only at hroll
    split at hroll
    · cases hroll
      exact silent_append runStorStart_silent (silent_told (by decide) t.ctrlFd)
    · cases hroll
      exact runStorStart_silent
  · rw [haction] at hroll
    dsimp only at hroll
    split at hroll
    · cases hroll
      exact hnone
    · rename_i d _
      cases hroll
      have hwrite := writeToDisk_silent (c := c) (t := t)
        (w := DiskWork.setDataAction {info := d, files := m.files} .storing) hnone
      unfold DiskFsm.storing
      dsimp only
      split
      · exact hwrite
      · split <;> exact hwrite
  · rw [haction] at hroll
    dsimp only at hroll
    split at hroll
    · cases hroll
      exact hnone
    · rename_i d _
      cases hroll
      have hwrite := closeFileHandle_silent (writeToDisk_silent (c := c) (t := t)
        (w := DiskWork.setDataAction {info := d, files := m.files} .storing) hnone)
      unfold DiskFsm.storOk
      dsimp only
      split
      · exact hwrite
      · split
        · exact hwrite
        · exact finish_silent hwrite t.ctrlFd

/-- An object is there after a start, and stays until the end of an upload. -/
theorem roll_there {h : DiskHandled} (hroll : DiskFsm.rollStateMachine c t m = .ok h)
    (ht : t.action = .storStart ∨ t.action = .storing ∧ (m.infos t.ctrlFd).isSome = true) :
    (h.manager.infos t.ctrlFd).isSome = true := by
  unfold DiskFsm.rollStateMachine at hroll
  rcases ht with haction | ⟨haction, hfound⟩
  · rw [haction] at hroll
    have hadded : (Registry.insert m.infos (DiskFsm.runStorStart c (m.construct t)).2.info.fd
        ((DiskFsm.runStorStart c (m.construct t)).2.setDataAction .storStart).info t.ctrlFd).isSome = true := by
      rw [DiskFsm.runStorStart_begins.fd]
      cases hm : m.infos t.ctrlFd with
      | none => rw [Registry.insert_free hm]; rfl
      | some d => rw [Registry.insert_taken hm, hm]; rfl
    dsimp only at hroll
    rw [DiskFsm.runStorStart_ret, if_pos rfl] at hroll
    cases hroll
    exact hadded
  · rw [haction] at hroll
    obtain ⟨d, hd⟩ := Option.isSome_iff_exists.mp hfound
    unfold DiskManager.seekDisk at hroll
    rw [hd] at hroll
    cases hroll
    unfold DiskFsm.storing
    dsimp only
    have hworked (w : DiskWork) (ret : Int) : ((m.worked t.ctrlFd w ret).manager.infos t.ctrlFd).isSome = true := by
      show (Registry.modify m.infos t.ctrlFd w.info t.ctrlFd).isSome = true
      rw [Registry.modify_same]
      rfl
    split
    · exact hworked _ _
    · split <;> exact hworked _ _

end
/-! ### Steps -/

/-- Nothing goes on for the connection but uploads. -/
structure Threads.Plain (s : Threads) : Prop where
  client : ∀ c ∈ s.client, c.Plain s.session.fd
  tasks : ∀ q ∈ s.diskQueue, (q.2.action = .storStart ∨ q.2.uploads = true) ∧ q.2.ctrlFd = s.session.fd
  pipe : ∀ n ∈ s.pipe, n.action ≠ .dataWrite

/-- There is a data connection. -/
def Threads.Connected (s : Threads) : Prop := ∃ c ∈ s.client, c.dataFd.isSome = true

/-- There is an object for the connection. -/
def Threads.there (s : Threads) : Bool := (s.disk.infos s.session.fd).isSome

/-- What uploads depend on. -/
def Threads.uploadState (s : Threads) : Bool × List (Nat × DiskTask) × List Nat × Nat :=
  (s.there, s.diskQueue, s.unheard, s.accepts)

def makes (q : Nat × DiskTask) : Bool := q.2.action = .storStart

def unmakes (q : Nat × DiskTask) : Bool := q.2.action = .storOk

/-- What a step means for uploads. -/
inductive UploadStep (e : ThreadsEdge) : Prop where
  | accepts (htaken : taken e = []) (hhands : handsOn e = false)
      (hafter : e.after.uploadState =
        (e.before.there, e.before.diskQueue, e.before.unheard ++ [e.before.accepts + 1], e.before.accepts + 1))
  | hands (t : DiskTask) (htaken : taken e = []) (hhands : handsOn e = true) (hopen : e.before.Connected)
      (ht : t.action = .storing ∨ t.action = .storOk ∧ ¬ e.after.Connected)
      (hafter : e.after.uploadState =
        (e.before.there, e.before.diskQueue ++ [(e.before.accepts, t)], e.before.unheard, e.before.accepts))
  | starts (number : Nat) (t : DiskTask) (htaken : taken e = []) (hhands : handsOn e = false)
      (hopen : e.after.Connected → e.before.Connected) (ht : t.action = .storStart)
      (hunheard : e.before.unheard = number :: e.after.unheard)
      (hafter : e.after.uploadState =
        (e.before.there, e.before.diskQueue ++ [(number, t)], e.after.unheard, e.before.accepts))
  | works (q : Nat × DiskTask) (htaken : taken e = [q]) (hhands : handsOn e = false)
      (hopen : e.after.Connected → e.before.Connected) (hqueue : e.before.diskQueue = q :: e.after.diskQueue)
      (hthere : next makes unmakes e.before.there q = true → e.after.there = true)
      (hafter : e.after.uploadState = (e.after.there, e.after.diskQueue, e.before.unheard, e.before.accepts))
  | other (htaken : taken e = []) (hhands : handsOn e = false) (hopen : e.after.Connected → e.before.Connected)
      (hafter : e.after.uploadState = e.before.uploadState)

section
variable {env : Env} {s : Threads} {i : ThreadsEvent}

theorem taken_loops (s after : Threads) (es : List ThreadsEffect) (hi : i.loops = true) : taken ⟨s, i, after, es⟩ = [] := by
  cases i with
  | session fs => exact nomatch hi
  | disk calls => exact nomatch hi
  | _ => rfl

theorem unheard_append (s : Threads) (number : Nat) {tasks : List SessionTask} (h : ∀ t ∈ tasks, t.action ≠ .dataAccept) :
    {s with sessionQueue := s.sessionQueue ++ tasks.map (number, ·)}.unheard = s.unheard := by
  unfold Threads.unheard
  rw [List.filterMap_append]
  have hnone : (tasks.map (number, ·)).filterMap acceptOf = [] := by
    apply List.filterMap_eq_nil_iff.mpr
    intro q hq
    obtain ⟨t, ht, rfl⟩ := List.mem_map.mp hq
    exact if_neg (h t ht)
  rw [hnone, List.append_nil]

theorem accepts_none {es : List NetEffect} (h : ∀ t ∈ es.filterMap NetEffect.session?, t.action ≠ .dataAccept) :
    es.countP NetEffect.accepts = 0 := by
  apply List.countP_eq_zero.mpr
  intro x hx hx'
  unfold NetEffect.accepts at hx'
  cases ht : x.session? with
  | none =>
    rw [ht] at hx'
    exact nomatch hx'
  | some t =>
    rw [ht] at hx'
    exact h t (List.mem_filterMap.mpr ⟨x, hx, ht⟩) (of_decide_eq_true hx')

/-- An event of the loop. -/
theorem net_step {c : Client} {pipe : List EventNotify} {r : Option Client × List NetEffect} (hi : i.loops = true)
    (hc : s.client = some c) (hp : s.Plain) (hruns : c.Runs env.config s.pipe i pipe r) :
    UploadStep ⟨s, i, ({s with pipe := pipe}.netActs r).1, ({s with pipe := pipe}.netActs r).2⟩ ∧
      ({s with pipe := pipe}.netActs r).1.Plain := by
  obtain ⟨hmoves, hplain, hleft⟩ := runs_moves (hp.client c hc) hp.pipe hruns
  have htaken := taken_loops s ({s with pipe := pipe}.netActs r).1 ({s with pipe := pipe}.netActs r).2 hi
  have hhands : handsOn ⟨s, i, ({s with pipe := pipe}.netActs r).1, ({s with pipe := pipe}.netActs r).2⟩ =
      c.handsOn i := by
    unfold handsOn
    rw [hc]
    rfl
  generalize c.handsOn i = hands at hmoves hhands
  cases hmoves with
  | accepts d =>
    refine ⟨.accepts htaken hhands ?_, hplain, ?_, hleft⟩
    · simp [Threads.uploadState, Threads.there, Threads.netActs, Threads.unheard, acceptOf, NetEffect.accepts, NetEffect.session?,
        NetEffect.disk?]
    · simpa [Threads.netActs, NetEffect.disk?] using hp.tasks
  | hands d t hopen hfd ht =>
    refine ⟨.hands t htaken hhands ⟨c, hc, hopen⟩ ?_ ?_, hplain, ?_, hleft⟩
    · refine ht.imp_right fun h => ⟨h.1, fun hconnected => ?_⟩
      obtain ⟨d', hd', hopen'⟩ := hconnected
      cases hd'
      rw [h.2] at hopen'
      exact nomatch hopen'
    · simp [Threads.uploadState, Threads.there, Threads.netActs, Threads.unheard, acceptOf, NetEffect.accepts, NetEffect.session?,
        NetEffect.disk?]
    · intro q hq
      rcases List.mem_append.mp hq with hq | hq
      · exact hp.tasks q hq
      · rw [List.mem_singleton.mp hq]
        refine ⟨Or.inr ?_, hfd.trans (hp.client c hc).1⟩
        rcases ht with ht | ht <;> simp [DiskTask.uploads, ht]
  | other _ hdisk haccepts hdata =>
    have hafter : ({s with pipe := pipe}.netActs r).1.uploadState = s.uploadState := by
      unfold Threads.uploadState Threads.netActs
      dsimp only
      rw [hdisk, accepts_none haccepts, List.map_nil, List.append_nil]
      exact congrArg (fun n => (s.there, s.diskQueue, n, s.accepts)) (unheard_append s _ haccepts)
    refine ⟨.other htaken hhands ?_ hafter, hplain, ?_, hleft⟩
    · intro hconnected
      obtain ⟨d, hd, hopen⟩ := hconnected
      exact ⟨c, hc, hdata d hd hopen⟩
    · have hqueue : ({s with pipe := pipe}.netActs r).1.diskQueue = s.diskQueue :=
        congrArg (fun p => p.2.1) hafter
      rw [hqueue]
      exact hp.tasks

/-- A task of the session's, while it is in `DATA_STOR`. -/
theorem session_step {fs : FileSystem} {number : Nat} {t : SessionTask} {rest : List (Nat × SessionTask)} {h : Handled}
    (hqueue : s.sessionQueue = (number, t) :: rest) (hroll : rollSession env fs t s.session = .ok h)
    (hstor : s.session.dataAction = .stor) (hp : s.Plain) :
    UploadStep ⟨s, .session fs, (s.sessionActs number rest h).1, (s.sessionActs number rest h).2⟩ ∧
      (s.sessionActs number rest h).1.Plain := by
  have hfd : (s.sessionActs number rest h).1.session.fd = s.session.fd := rollSession_fd hroll
  have hthere : (s.sessionActs number rest h).1.there = s.there := by
    unfold Threads.there
    rw [hfd]
    rfl
  have hhands (e : ThreadsEdge) (he : e.input = .session fs) : handsOn e = false := by
    unfold handsOn
    rw [he]
    cases e.before.client <;> rfl
  have hclient : ∀ c ∈ s.client, c.Plain (s.sessionActs number rest h).1.session.fd := by
    rw [hfd]
    exact hp.client
  have hpipe : ∀ n ∈ (s.sessionActs number rest h).1.pipe, n.action ≠ .dataWrite := by
    intro n hn
    rcases List.mem_append.mp hn with hn | hn
    · exact hp.pipe n hn
    · obtain ⟨x, _, hx⟩ := List.mem_filterMap.mp hn
      exact Effect.notify_ctrl s.session.fd hx
  have hstarts := rollSession_starts hroll hstor
  split at hstarts
  · rename_i haction
    obtain ⟨d, hd, hstart, hto⟩ := hstarts
    have hafter : (s.sessionActs number rest h).1.diskQueue = s.diskQueue ++ [(number, d)] := by
      show s.diskQueue ++ _ = _
      rw [hd]
      rfl
    refine ⟨.starts number d rfl (hhands _ rfl) id hstart ?_ ?_, hclient, ?_, hpipe⟩
    · unfold Threads.unheard
      rw [hqueue, List.filterMap_cons_some (show acceptOf (number, t) = some number from if_pos haction)]
      rfl
    · unfold Threads.uploadState
      rw [hafter, hthere]
      rfl
    · intro q hq
      rw [hafter] at hq
      rw [hfd]
      rcases List.mem_append.mp hq with hq | hq
      · exact hp.tasks q hq
      · rw [List.mem_singleton.mp hq]
        exact ⟨Or.inl hstart, hto⟩
  · rename_i haction
    have hafter : (s.sessionActs number rest h).1.diskQueue = s.diskQueue := by
      show s.diskQueue ++ _ = _
      rw [hstarts]
      exact List.append_nil _
    refine ⟨.other rfl (hhands _ rfl) id ?_, hclient, ?_, hpipe⟩
    · have hunheard : (s.sessionActs number rest h).1.unheard = s.unheard := by
        unfold Threads.unheard
        rw [hqueue, List.filterMap_cons_none (show acceptOf (number, t) = none from if_neg haction)]
        rfl
      unfold Threads.uploadState
      rw [hafter, hunheard, hthere]
      rfl
    · rw [hafter, hfd]
      exact hp.tasks

/-- A task of the disk thread's. -/
theorem disk_step {calls : DiskCalls} {number : Nat} {t : DiskTask} {rest : List (Nat × DiskTask)} {h : DiskHandled}
    (hqueue : s.diskQueue = (number, t) :: rest) (hroll : DiskFsm.rollStateMachine calls t s.disk = .ok h)
    (hp : s.Plain) :
    UploadStep ⟨s, .disk calls, (s.diskActs number rest h).1, (s.diskActs number rest h).2⟩ ∧
      (s.diskActs number rest h).1.Plain := by
  obtain ⟨hkind, hto⟩ := hp.tasks (number, t) (by rw [hqueue]; exact List.mem_cons_self ..)
  have hsilent := roll_silent hroll hkind
  have hunheard : (s.diskActs number rest h).1.unheard = s.unheard := by
    apply unheard_append s number
    intro t' ht'
    obtain ⟨x, hx, hsession⟩ := List.mem_filterMap.mp ht'
    exact (hsilent x hx).2 t' hsession
  have hhands : handsOn ⟨s, .disk calls, (s.diskActs number rest h).1, (s.diskActs number rest h).2⟩ = false := by
    unfold handsOn
    cases s.client <;> rfl
  refine ⟨.works (number, t) ?_ hhands id hqueue ?_ ?_, hp.client, ?_, ?_⟩
  · show s.diskQueue.take 1 = _
    rw [hqueue]
    rfl
  · intro hnext
    show (h.manager.infos s.session.fd).isSome = true
    rw [← show t.ctrlFd = s.session.fd from hto]
    apply roll_there hroll
    rw [show t.ctrlFd = s.session.fd from hto]
    rcases hkind with hstart | huploads
    · exact Or.inl hstart
    · have hupload : t.action = .storing ∨ t.action = .storOk := by simpa [DiskTask.uploads] using huploads
      rcases hupload with hstoring | hlast
      · refine Or.inr ⟨hstoring, ?_⟩
        have hthere : s.there = true := by simpa [next, makes, unmakes, hstoring] using hnext
        exact hthere
      · simp [next, makes, unmakes, hlast] at hnext
  · unfold Threads.uploadState
    rw [hunheard]
    rfl
  · intro q hq
    exact hp.tasks q (by rw [hqueue]; exact List.mem_cons_of_mem _ hq)
  · intro n hn
    rcases List.mem_append.mp hn with hn | hn
    · exact hp.pipe n hn
    · obtain ⟨x, hx, hnotify⟩ := List.mem_filterMap.mp hn
      rw [(hsilent x hx).1] at hnotify
      exact nomatch hnotify

theorem threads_uploads {e : ThreadsEdge} (h : (threads env).Takes e) (hstor : e.before.session.dataAction = .stor)
    (hp : e.before.Plain) : UploadStep e ∧ e.after.Plain := by
  obtain ⟨before, input, after, effects⟩ := e
  have hacts : before.Acts env input (after, effects) := threads_acts h
  generalize hr : (after, effects) = r at hacts
  cases hacts with
  | gone _ hi hc =>
    cases hr
    refine ⟨.other (taken_loops _ _ _ hi) ?_ id rfl, hp⟩
    unfold handsOn
    rw [hc]
    rfl
  | netIdle ports hpipe =>
    cases hr
    refine ⟨.other rfl ?_ id rfl, hp⟩
    unfold handsOn
    cases before.client <;> rfl
  | net _ c pipe q hi hc hruns =>
    cases hr
    exact net_step hi hc hp hruns
  | sessionIdle fs hqueue =>
    cases hr
    refine ⟨.other rfl ?_ id rfl, hp⟩
    unfold handsOn
    cases before.client <;> rfl
  | session fs number t rest g hqueue hroll =>
    cases hr
    exact session_step hqueue hroll hstor hp
  | diskIdle calls hqueue =>
    cases hr
    refine ⟨.other ?_ ?_ id rfl, hp⟩
    · show before.diskQueue.take 1 = []
      rw [hqueue]
      rfl
    · unfold handsOn
      cases before.client <;> rfl
  | disk calls number t rest g hqueue hroll =>
    cases hr
    exact disk_step hqueue hroll hp

end

/-! ### Runs -/

/-- Data connections are started in the order they came, and wait for the session until then. -/
structure Numbered (past : List ThreadsEdge) (s : Threads) : Prop where
  plain : s.Plain
  numbers : (diskOrder past s).filterMap startOf ++ s.unheard = List.range' 1 s.accepts
  connected : s.Connected → 0 < s.accepts

/-- There will be an object for every task in the queue, and for more where no data connection
waits. -/
structure Attended (s : Threads) : Prop where
  served : Served makes unmakes (fun q => q.2.uploads) s.there s.diskQueue
  there : s.Connected → s.unheard = [] → left makes unmakes s.there s.diskQueue = true

section
variable {env : Env} {past : List ThreadsEdge} {e : ThreadsEdge}

theorem diskOrder_same (htaken : taken e = []) (hqueue : e.after.diskQueue = e.before.diskQueue) :
    diskOrder (past ++ [e]) e.after = diskOrder past e.before := by
  unfold diskOrder
  rw [List.flatMap_append, List.flatMap_singleton, htaken, hqueue, List.append_nil]

theorem diskOrder_posted {q : Nat × DiskTask} (htaken : taken e = [])
    (hqueue : e.after.diskQueue = e.before.diskQueue ++ [q]) :
    diskOrder (past ++ [e]) e.after = diskOrder past e.before ++ [q] := by
  unfold diskOrder
  rw [List.flatMap_append, List.flatMap_singleton, htaken, hqueue, List.append_nil, List.append_assoc]

theorem diskOrder_taken {q : Nat × DiskTask} (htaken : taken e = [q])
    (hqueue : e.before.diskQueue = q :: e.after.diskQueue) :
    diskOrder (past ++ [e]) e.after = diskOrder past e.before := by
  unfold diskOrder
  rw [List.flatMap_append, List.flatMap_singleton, htaken, hqueue, List.append_assoc]
  rfl

theorem numbered_step (h : UploadStep e) (hplain : e.after.Plain) (hpast : Numbered past e.before) :
    Numbered (past ++ [e]) e.after := by
  have hnumbers := hpast.numbers
  cases h with
  | accepts htaken hhands hafter =>
    obtain ⟨_, hqueue, hunheard, haccepts⟩ := by simpa only [Threads.uploadState, Prod.mk.injEq] using hafter
    refine ⟨hplain, ?_, fun _ => by omega⟩
    rw [diskOrder_same htaken hqueue, hunheard, haccepts, ← List.append_assoc, hnumbers, List.range'_1_concat,
      Nat.add_comm 1]
  | hands t htaken hhands hopen ht hafter =>
    obtain ⟨_, hqueue, hunheard, haccepts⟩ := by simpa only [Threads.uploadState, Prod.mk.injEq] using hafter
    refine ⟨hplain, ?_, fun _ => haccepts ▸ hpast.connected hopen⟩
    have hnone : startOf (e.before.accepts, t) = none := by
      rcases ht with ht | ht <;> simp [startOf, ht]
    rw [diskOrder_posted htaken hqueue, hunheard, haccepts, List.filterMap_append, List.filterMap_cons_none hnone,
      List.filterMap_nil, List.append_nil, hnumbers]
  | starts number t htaken hhands hopen ht hunheard hafter =>
    obtain ⟨_, hqueue, _, haccepts⟩ := by simpa only [Threads.uploadState, Prod.mk.injEq] using hafter
    refine ⟨hplain, ?_, fun hconnected => haccepts ▸ hpast.connected (hopen hconnected)⟩
    have hstart : startOf (number, t) = some number := if_pos ht
    rw [diskOrder_posted htaken hqueue, haccepts, List.filterMap_append, List.filterMap_cons_some hstart,
      List.filterMap_nil, List.append_assoc, List.singleton_append, ← hunheard, hnumbers]
  | works q htaken hhands hopen hqueue hthere hafter =>
    obtain ⟨_, _, hunheard, haccepts⟩ := by simpa only [Threads.uploadState, Prod.mk.injEq] using hafter
    refine ⟨hplain, ?_, fun hconnected => haccepts ▸ hpast.connected (hopen hconnected)⟩
    rw [diskOrder_taken htaken hqueue, hunheard, haccepts, hnumbers]
  | other htaken hhands hopen hafter =>
    obtain ⟨_, hqueue, hunheard, haccepts⟩ := by simpa only [Threads.uploadState, Prod.mk.injEq] using hafter
    refine ⟨hplain, ?_, fun hconnected => haccepts ▸ hpast.connected (hopen hconnected)⟩
    rw [diskOrder_same htaken hqueue, hunheard, haccepts, hnumbers]

/-- Bytes come after their start exactly if no data connection waits when they are handed
over. -/
theorem opened_step (h : UploadStep e) (hpast : Numbered past e.before) :
    Opened startOf uploadOf (diskOrder (past ++ [e]) e.after) ↔
      Opened startOf uploadOf (diskOrder past e.before) ∧ (handsOn e = true → e.before.unheard = []) := by
  -- nothing is handed over
  have hkept {order : List (Nat × DiskTask)} (hhands : handsOn e = false)
      (horder : Opened startOf uploadOf order ↔ Opened startOf uploadOf (diskOrder past e.before)) :
      Opened startOf uploadOf order ↔
        Opened startOf uploadOf (diskOrder past e.before) ∧ (handsOn e = true → e.before.unheard = []) := by
    rw [horder, hhands]
    exact (and_iff_left fun hh => nomatch hh).symm
  cases h with
  | accepts htaken hhands hafter =>
    have hqueue : e.after.diskQueue = e.before.diskQueue := congrArg (fun p => p.2.1) hafter
    rw [diskOrder_same htaken hqueue]
    exact hkept hhands Iff.rfl
  | hands t htaken hhands hopen ht hafter =>
    have hqueue : e.after.diskQueue = e.before.diskQueue ++ [(e.before.accepts, t)] := congrArg (fun p => p.2.1) hafter
    have hneeds : uploadOf (e.before.accepts, t) = some e.before.accepts := by
      rcases ht with ht | ht <;> simp [uploadOf, DiskTask.uploads, ht]
    rw [diskOrder_posted htaken hqueue, opened_append, hneeds]
    apply and_congr_right
    intro _
    have hlast := opened_last hpast.numbers (hpast.connected hopen)
    constructor
    · intro hopened _
      exact hlast.mp (hopened _ rfl)
    · intro hheard k hk
      cases hk
      exact hlast.mpr (hheard hhands)
  | starts number t htaken hhands hopen ht hunheard hafter =>
    have hqueue : e.after.diskQueue = e.before.diskQueue ++ [(number, t)] := congrArg (fun p => p.2.1) hafter
    rw [diskOrder_posted htaken hqueue]
    exact hkept hhands (opened_free (by simp [uploadOf, DiskTask.uploads, ht]))
  | works q htaken hhands hopen hqueue hthere hafter =>
    rw [diskOrder_taken htaken hqueue]
    exact hkept hhands Iff.rfl
  | other htaken hhands hopen hafter =>
    have hqueue : e.after.diskQueue = e.before.diskQueue := congrArg (fun p => p.2.1) hafter
    rw [diskOrder_same htaken hqueue]
    exact hkept hhands Iff.rfl

/-- Where bytes are handed over with no data connection waiting, an object attends them. -/
theorem attended_step (h : UploadStep e) (hheard : handsOn e = true → e.before.unheard = []) (ha : Attended e.before) :
    Attended e.after := by
  cases h with
  | accepts htaken hhands hafter =>
    obtain ⟨hthere, hqueue, hunheard, _⟩ := by simpa only [Threads.uploadState, Prod.mk.injEq] using hafter
    refine ⟨?_, fun _ hnone => ?_⟩
    · rw [hthere, hqueue]
      exact ha.served
    · rw [hunheard] at hnone
      simp at hnone
  | hands t htaken hhands hopen ht hafter =>
    obtain ⟨hthere, hqueue, hunheard, _⟩ := by simpa only [Threads.uploadState, Prod.mk.injEq] using hafter
    have hleft := ha.there hopen (hheard hhands)
    refine ⟨?_, fun hconnected _ => ?_⟩
    · rw [hthere, hqueue]
      exact served_append.mpr ⟨ha.served, fun _ => hleft⟩
    · rw [hthere, hqueue, left_append, hleft]
      rcases ht with ht | ⟨_, hclosed⟩
      · simp [next, unmakes, ht]
      · exact absurd hconnected hclosed
  | starts number t htaken hhands hopen ht hunheard hafter =>
    obtain ⟨hthere, hqueue, _, _⟩ := by simpa only [Threads.uploadState, Prod.mk.injEq] using hafter
    refine ⟨?_, fun _ _ => ?_⟩
    · rw [hthere, hqueue]
      refine served_append.mpr ⟨ha.served, fun huploads => ?_⟩
      simp [DiskTask.uploads, ht] at huploads
    · rw [hthere, hqueue, left_append]
      simp [next, makes, ht]
  | works q htaken hhands hopen hqueue hthere hafter =>
    have hunheard : e.after.unheard = e.before.unheard := congrArg (fun p => p.2.2.1) hafter
    have hserved := ha.served
    rw [hqueue] at hserved
    refine ⟨served_mono hthere hserved.2, fun hconnected hnone => left_mono hthere ?_⟩
    rw [← left_cons, ← hqueue]
    exact ha.there (hopen hconnected) (hunheard ▸ hnone)
  | other htaken hhands hopen hafter =>
    obtain ⟨hthere, hqueue, hunheard, _⟩ := by simpa only [Threads.uploadState, Prod.mk.injEq] using hafter
    refine ⟨?_, fun hconnected hnone => ?_⟩
    · rw [hthere, hqueue]
      exact ha.served
    · rw [hthere, hqueue]
      exact ha.there (hopen hconnected) (hunheard ▸ hnone)

/-- What is attended is not dropped. -/
theorem attended_keeps (h : UploadStep e) (hp : e.before.Plain) (ha : Attended e.before) : ¬ DropsBytes e := by
  intro hdrops
  obtain ⟨q, hq, huploads, hnone⟩ := hdrops
  cases h with
  | works q' htaken hhands hopen hqueue hthere hafter =>
    rw [htaken] at hq
    rw [List.mem_singleton.mp hq] at huploads hnone
    have hserved := ha.served
    rw [hqueue] at hserved
    have hsome : (e.before.disk.infos e.before.session.fd).isSome = true := hserved.1 huploads
    have hfd := (hp.tasks q' (by rw [hqueue]; exact List.mem_cons_self ..)).2
    unfold DiskManager.seekDisk at hnone
    rw [← hfd, hnone] at hsome
    exact nomatch hsome
  | accepts htaken => rw [htaken] at hq; exact nomatch hq
  | hands t htaken => rw [htaken] at hq; exact nomatch hq
  | starts number t htaken => rw [htaken] at hq; exact nomatch hq
  | other htaken => rw [htaken] at hq; exact nomatch hq

end

/-- The disk thread has every start before the bytes of its upload, and drops none. -/
def StartsFirst (now : List ThreadsEdge) (e : ThreadsEdge) : Prop :=
  InStor now e → Opened startOf uploadOf (diskOrder (now ++ [e]) e.after) ∧ ¬ DropsBytes e

/-- Where bytes are handed over, the session has heard of every data connection. -/
def HeardOf (now : List ThreadsEdge) (e : ThreadsEdge) : Prop :=
  InStor now e → handsOn e = true → e.before.unheard = []

instance (now : List ThreadsEdge) (e : ThreadsEdge) : Decidable (HeardOf now e) := inferInstanceAs (Decidable (_ → _))

/-- An upload may begin: there is no data connection yet, and no other transfer. -/
structure Threads.Ready (s : Threads) : Prop where
  plain : s.Plain
  accepts : s.accepts = 0
  unconnected : ¬ s.Connected
  unheard : s.unheard = []
  diskQueue : s.diskQueue = []

theorem ready_numbered {s : Threads} (hs : s.Ready) :
    Numbered [] s ∧ Opened startOf uploadOf (diskOrder [] s) ∧ Attended s := by
  have horder : diskOrder [] s = [] := hs.diskQueue
  refine ⟨⟨hs.plain, ?_, fun h => absurd h hs.unconnected⟩, ?_, ?_, fun h => absurd h hs.unconnected⟩
  · rw [horder, hs.unheard, hs.accepts]
    rfl
  · rw [horder]
    exact opened_nil
  · rw [hs.diskQueue]
    trivial

/-- **No upload byte overtakes its start**, exactly when bytes are handed over only while the
session has heard of every data connection. -/
theorem start_first_iff (env : Env) (s : Threads) (inputs : List ThreadsEvent) (hs : s.Ready) :
    Always StartsFirst ((threads env).trace s inputs) ↔ Always HeardOf ((threads env).trace s inputs) := by
  obtain ⟨hnumbered, hopened, hattended⟩ := ready_numbered hs
  have hearlier {past : List ThreadsEdge} {e : ThreadsEdge} (h : ∀ p ∈ past ++ [e], p.before.session.dataAction = .stor) :
      (∀ p ∈ past, p.before.session.dataAction = .stor) ∧ e.before.session.dataAction = .stor :=
    ⟨fun p hp => h p (List.mem_append_left _ hp), h e (List.mem_append_right _ (List.mem_singleton_self e))⟩
  constructor
  · intro hfirst
    have hrun := always_kept (m := threads env)
      (H := fun past t => (∀ p ∈ past, p.before.session.dataAction = .stor) → Numbered past t) inputs
      (fun _ => hnumbered) fun past e he hpast hstor => by
        obtain ⟨hbefore, hnow⟩ := hearlier hstor
        obtain ⟨hstep, hplain⟩ := threads_uploads he hnow (hpast hbefore).plain
        exact numbered_step hstep hplain (hpast hbefore)
    intro now e rest hnow hstor
    obtain ⟨htakes, hpast⟩ := hrun now e rest hnow
    obtain ⟨hbefore, haction⟩ := hearlier hstor
    obtain ⟨hstep, _⟩ := threads_uploads htakes haction (hpast hbefore).plain
    exact ((opened_step hstep (hpast hbefore)).mp (hfirst now e rest hnow hstor).1).2
  · intro hheard
    have hrun := always_history (m := threads env) (C := HeardOf)
      (H := fun past t => (∀ p ∈ past, p.before.session.dataAction = .stor) →
        Numbered past t ∧ Opened startOf uploadOf (diskOrder past t) ∧ Attended t) []
      (fun _ => ⟨hnumbered, hopened, hattended⟩)
      (fun past e he hc hpast hstor => by
        obtain ⟨hbefore, hnow⟩ := hearlier hstor
        obtain ⟨hnumbers, horder, hthere⟩ := hpast hbefore
        obtain ⟨hstep, hplain⟩ := threads_uploads he hnow hnumbers.plain
        exact ⟨numbered_step hstep hplain hnumbers, (opened_step hstep hnumbers).mpr ⟨horder, hc hstor⟩,
          attended_step hstep (hc hstor) hthere⟩)
      hheard
    intro now e rest hnow hstor
    obtain ⟨htakes, hpast⟩ := hrun now e rest hnow
    obtain ⟨hbefore, haction⟩ := hearlier hstor
    obtain ⟨hnumbers, horder, hthere⟩ := hpast hbefore
    obtain ⟨hstep, _⟩ := threads_uploads htakes haction hnumbers.plain
    exact ⟨(opened_step hstep hnumbers).mpr ⟨horder, hheard now e rest hnow hstor⟩,
      attended_keeps hstep hnumbers.plain hthere⟩

/-- A client that has sent `STOR` and may connect. -/
def connecting (h : Handled) : Threads where
  client := some {Client.new 0 7 with listenFd := some 9, acceptPending := true}
  session := (session Env.shipped).final h.session (sharePassive ++ [.read (.constant none) 7 "STOR up\r\n".toList])
  disk := .idle .empty
  accepts := 0
  sessionQueue := []
  diskQueue := []
  pipe := []

/-- It connects, sends two bytes and closes, and the session's thread comes in between or
afterwards. -/
def smallUpload (between afterwards : List ThreadsEvent) : List ThreadsEvent :=
  [.callback (.dataAccept (some 10))] ++ between ++
    [.callback (.dataRead (.read "ab".toList (by decide) (by decide))), .callback (.dataRead (.eof false))] ++
    afterwards ++ [.disk {opens := some 3, writes := some 2}, .disk {opens := some 3, writes := some 2}]

def heardUpload : List ThreadsEvent := smallUpload [.session (.constant none)] []

def unheardUpload : List ThreadsEvent := smallUpload [] [.session (.constant none)]

theorem start_first_heard :
    ∃ h, acceptSession Env.shipped.config 0 [] (.accept 7 "10.0.0.9".toList) = .ok h ∧
      Always StartsFirst ((threads Env.shipped).trace (connecting h) heardUpload) ∧
      ((threads Env.shipped).final (connecting h) heardUpload).disk.files.content
          "/home/chentianjian/data/up".toList = some "ab".toList := by
  have hready {h : Handled} (hfd : (connecting h).session.fd = 7) : (connecting h).Ready := by
    have hplain : (connecting h).Plain := by
      refine ⟨fun c hc => ?_, List.forall_mem_nil _, List.forall_mem_nil _⟩
      cases hc
      exact ⟨hfd.symm, rfl⟩
    refine ⟨hplain, rfl, fun hconnected => ?_, rfl, rfl⟩
    obtain ⟨c, hc, hopen⟩ := hconnected
    cases hc
    exact nomatch hopen
  refine ⟨_, rfl, ?_, by decide +kernel⟩
  exact (start_first_iff Env.shipped (connecting _) heardUpload (hready (by decide +kernel))).mpr (by decide +kernel)

/-- The client is faster than the session's thread: the last task of the upload is handled
first, for no object, and its bytes are lost; the start comes after it and makes an empty
file. -/
theorem bytes_dropped :
    ∃ h, acceptSession Env.shipped.config 0 [] (.accept 7 "10.0.0.9".toList) = .ok h ∧
      ¬ Always StartsFirst ((threads Env.shipped).trace (connecting h) unheardUpload) ∧
      (((threads Env.shipped).trace (connecting h) unheardUpload).flatMap taken).map
          (fun q => (q.1, q.2.action)) = [(1, .storOk), (1, .storStart)] ∧
      ((threads Env.shipped).final (connecting h) unheardUpload).disk.files.content
          "/home/chentianjian/data/up".toList = some [] := by
  refine ⟨_, rfl, fun hfirst => ?_, by decide +kernel, by decide +kernel⟩
  have hdropped := hfirst [_, _, _, _] _ [_] rfl (by decide +kernel)
  exact hdropped.2 (by decide +kernel)

end HyperTransfer
