import HyperTransfer.Lib.Registry
import HyperTransfer.Session.Writes

/-! The session manager, and whose session a connection gets.

`roll_state_machine` makes a session for every accept and finds it again by
descriptor for every other task. The map's insertion keeps what is there and no task
removes an entry, so a connection whose descriptor was in use before is served by the
session of the first client that had it (`read_served_iff`). -/
namespace HyperTransfer
open CString

/-- `m_session_map` and how many sessions have been made. -/
structure Manager where
  sessions : Fd → Option Session
  allocated : Nat

namespace Manager

def empty : Manager := {sessions := fun _ => none, allocated := 0}

def addSession (m : Manager) (s : Session) : Manager :=
  {m with sessions := Registry.insert m.sessions s.fd s}

def seekSession (m : Manager) (fd : Fd) : Option Session := m.sessions fd

/-- Write through the pointer found for `fd`. -/
def update (m : Manager) (fd : Fd) (s : Session) : Manager :=
  {m with sessions := Registry.modify m.sessions fd s}

end Manager

/-- A task, with the file system as it is meanwhile and what the allocator leaves in
the password of a session made. -/
structure ManagerInput where
  fs : FileSystem
  task : SessionTask
  garbage : List Char := []

/-- `roll_state_machine`. -/
def rollStateMachine (env : Env) (i : ManagerInput) (m : Manager) : Except Fault (Manager × List Effect) :=
  match i.task.action with
  | .ctrlAccept => do
    let h ← acceptSession env.config m.allocated i.garbage i.task
    return ({m with allocated := m.allocated + 1}.addSession h.session, h.effects)
  | _ =>
    match m.seekSession i.task.fd with
    | some s => do
      let h ← rollSession env i.fs i.task s
      return (m.update i.task.fd h.session, h.effects)
    | none => .ok (m, [])

def sessionManager (env : Env) : Machine ManagerInput Manager Effect Fault where
  step i m := rollStateMachine env i m

abbrev ManagerEdge := Edge ManagerInput Manager Effect

/-- The step accepts a connection on `fd`. -/
def Accepts (fd : Fd) (e : ManagerEdge) : Bool := e.input.task.action = .ctrlAccept && e.input.task.fd = fd

/-- The step handles no command of the connection on `fd`. -/
def Idle (fd : Fd) (e : ManagerEdge) : Prop := e.input.task.fd = fd → ∀ line, .dispatch line ∉ e.effects

/-- Not logged in, without rights, in the root. -/
structure Session.Newcomer (cfg : Config) (s : Session) : Prop where
  logIn : s.logIn = false
  uploadPer : s.uploadPer = false
  downloadPer : s.downloadPer = false
  delePer : s.delePer = false
  curPath : s.curPath = cfg.initPath

section
variable {env : Env} {e : ManagerEdge}

theorem accept_step (h : (sessionManager env).Takes e) (ha : e.input.task.action = .ctrlAccept) :
    e.after.allocated = e.before.allocated + 1 ∧ ∃ s : Session, s.link = (e.before.allocated, e.input.task.fd) ∧
      s.Newcomer env.config ∧ e.after.sessions = Registry.insert e.before.sessions e.input.task.fd s := by
  have hstep : rollStateMachine env e.input e.before = .ok (e.after, e.effects) := h
  unfold rollStateMachine at hstep
  rw [ha] at hstep
  obtain ⟨r, hr, he⟩ := bind_eq_ok.mp hstep
  injection he with he
  injection he with hafter _
  obtain ⟨hlink, _, hidentity, hplace, _⟩ := acceptSession_writes _ _ _ _ r hr
  have hfd : r.session.fd = e.input.task.fd := congrArg Prod.snd hlink
  rw [← hafter]
  refine ⟨rfl, r.session, hlink, ?_, by rw [← hfd]; rfl⟩
  exact {
    logIn := congrArg Session.Identity.logIn hidentity
    uploadPer := congrArg Session.Identity.uploadPer hidentity
    downloadPer := congrArg Session.Identity.downloadPer hidentity
    delePer := congrArg Session.Identity.delePer hidentity
    curPath := congrArg (fun p => p.2.2) hplace }

/-- Any other task works on the session its descriptor leads to, if there is one. -/
theorem other_step (h : (sessionManager env).Takes e) (ha : e.input.task.action ≠ .ctrlAccept) :
    e.after.allocated = e.before.allocated ∧
      ((e.before.sessions e.input.task.fd = none ∧ e.after.sessions = e.before.sessions) ∨
        ∃ s r, e.before.sessions e.input.task.fd = some s ∧
          rollSession env e.input.fs e.input.task s = .ok r ∧ e.effects = r.effects ∧
          e.after.sessions = Registry.modify e.before.sessions e.input.task.fd r.session) := by
  have hstep : rollStateMachine env e.input e.before = .ok (e.after, e.effects) := h
  unfold rollStateMachine at hstep
  split at hstep
  · exact absurd ‹_› ha
  · split at hstep
    · rename_i s hs
      obtain ⟨r, hr, he⟩ := bind_eq_ok.mp hstep
      injection he with he
      injection he with hafter heffects
      rw [← hafter]
      exact ⟨rfl, Or.inr ⟨s, r, hs, hr, heffects.symm, rfl⟩⟩
    · rename_i hs
      injection hstep with he
      injection he with hafter _
      rw [← hafter]
      exact ⟨rfl, Or.inl ⟨hs, rfl⟩⟩

/-- A task that dispatches nothing leaves the identity and the place alone. -/
theorem newcomer_roll {fs : FileSystem} {t : SessionTask} {s : Session} {r : Handled}
    (h : rollSession env fs t s = .ok r) :
    r.session.address = s.address ∧
      ((∀ line, .dispatch line ∉ r.effects) → s.Newcomer env.config → r.session.Newcomer env.config) := by
  rcases rollSession_cases r h with ⟨_, hcore, _⟩ | ⟨deal, u, g, _, hu, _, hg, hcore, _, heff⟩
  · have hidentity : r.session.identity = s.identity := Session.identity_of_core hcore
    refine ⟨congrArg Prod.fst (Session.link_of_core hcore), fun _ hn => ?_⟩
    exact {
      logIn := (congrArg Session.Identity.logIn hidentity).trans hn.logIn
      uploadPer := (congrArg Session.Identity.uploadPer hidentity).trans hn.uploadPer
      downloadPer := (congrArg Session.Identity.downloadPer hidentity).trans hn.downloadPer
      delePer := (congrArg Session.Identity.delePer hidentity).trans hn.delePer
      curPath := (congrArg (fun p => p.2.2) (Session.place_of_core hcore)).trans hn.curPath }
  · have hlink : r.session.link = s.link :=
      ((Session.link_of_core hcore).trans (handle_link g hg).1).trans (Session.link_of_core hu)
    refine ⟨congrArg Prod.fst hlink, fun hidle => ?_⟩
    rw [heff] at hidle
    exact absurd (List.mem_cons_self ..) (hidle deal)

/-- A step that accepts nothing on `fd` keeps its session, if there is one. -/
theorem kept_step {fd : Fd} (h : (sessionManager env).Takes e) (ha : Accepts fd e = false) :
    (e.before.sessions fd = none → e.after.sessions fd = none) ∧
      ∀ s, e.before.sessions fd = some s → ∃ r : Session, e.after.sessions fd = some r ∧
        r.address = s.address ∧ (Idle fd e → s.Newcomer env.config → r.Newcomer env.config) := by
  by_cases hfd : e.input.task.fd = fd
  · have haction : e.input.task.action ≠ .ctrlAccept := by
      intro hc
      simp [Accepts, hc, hfd] at ha
    rcases (other_step h haction).2 with ⟨hnone, hsame⟩ | ⟨s, r, hs, hr, heff, hafter⟩
    · rw [hsame, ← hfd]
      refine ⟨id, fun s hs => ?_⟩
      rw [hnone] at hs
      exact nomatch hs
    · rw [hafter, ← hfd, hs]
      refine ⟨fun hn => (nomatch hn), fun s' hs' => ?_⟩
      injection hs' with hs'
      rw [← hs', Registry.modify_same]
      obtain ⟨haddress, hnew⟩ := newcomer_roll hr
      refine ⟨r.session, rfl, haddress, fun hidle => hnew ?_⟩
      rw [← heff]
      exact hidle rfl
  · have hsame : e.after.sessions fd = e.before.sessions fd := by
      have hne : fd ≠ e.input.task.fd := fun he => hfd he.symm
      by_cases haction : e.input.task.action = .ctrlAccept
      · obtain ⟨_, s, _, _, hafter⟩ := accept_step h haction
        rw [hafter, Registry.insert_other _ _ hne]
      · rcases (other_step h haction).2 with ⟨_, hsame⟩ | ⟨s, r, _, _, _, hafter⟩
        · rw [hsame]
        · rw [hafter, Registry.modify_other _ _ hne]
    rw [hsame]
    exact ⟨id, fun s hs => ⟨s, hs, rfl, fun _ hn => hn⟩⟩

theorem allocated_mono (h : (sessionManager env).Takes e) : e.before.allocated ≤ e.after.allocated := by
  by_cases ha : e.input.task.action = .ctrlAccept
  · rw [(accept_step h ha).1]
    exact Nat.le_succ _
  · rw [(other_step h ha).1]

/-! ### The first accept of a descriptor serves it for good -/

/-- What a run so far says about the session found for `fd`. -/
structure Serves (env : Env) (fd : Fd) (past : List ManagerEdge) (m : Manager) : Prop where
  free : (∀ p ∈ past, Accepts fd p = false) → m.sessions fd = none
  first : ∀ pre a post, past = pre ++ a :: post → Accepts fd a = true → (∀ p ∈ pre, Accepts fd p = false) →
    ∃ s, m.sessions fd = some s ∧ s.address = a.before.allocated ∧
      ((∀ p ∈ post, Idle fd p) → s.Newcomer env.config)
  older : ∀ p ∈ past, Accepts fd p = true → p.before.allocated < m.allocated

theorem serves_kept {fd : Fd} {past : List ManagerEdge} (h : (sessionManager env).Takes e)
    (ha : Accepts fd e = false) (hp : Serves env fd past e.before) : Serves env fd (past ++ [e]) e.after := by
  obtain ⟨hfree, hkept⟩ := kept_step h ha
  refine ⟨fun hno => hfree (hp.free fun p hmem => hno p (List.mem_append_left _ hmem)), ?_, ?_⟩
  · intro pre a post hpast haccepts hpre
    rcases append_last hpast with ⟨_, _, hlast⟩ | ⟨rest, hpost, hpast⟩
    · rw [hlast, haccepts] at ha
      exact nomatch ha
    · obtain ⟨s, hs, haddress, hnew⟩ := hp.first pre a rest hpast haccepts hpre
      obtain ⟨r, hr, hraddress, hrnew⟩ := hkept s hs
      refine ⟨r, hr, hraddress.trans haddress, fun hidle => ?_⟩
      rw [hpost] at hidle
      exact hrnew (hidle e (List.mem_append_right _ (List.mem_singleton_self e)))
        (hnew fun p hmem => hidle p (List.mem_append_left _ hmem))
  · intro p hmem haccepts
    rcases List.mem_append.mp hmem with hmem | hmem
    · exact Nat.lt_of_lt_of_le (hp.older p hmem haccepts) (allocated_mono h)
    · rw [List.mem_singleton.mp hmem, ha] at haccepts
      exact nomatch haccepts

theorem serves_accepted {fd : Fd} {past : List ManagerEdge} (h : (sessionManager env).Takes e)
    (ha : Accepts fd e = true) (hp : Serves env fd past e.before) : Serves env fd (past ++ [e]) e.after := by
  have haction : e.input.task.action = .ctrlAccept ∧ e.input.task.fd = fd := by
    simpa [Accepts] using ha
  obtain ⟨hallocated, s, hlink, hnewcomer, hafter⟩ := accept_step h haction.1
  rw [haction.2] at hafter
  refine ⟨fun hno => ?_, ?_, ?_⟩
  · rw [hno e (List.mem_append_right _ (List.mem_singleton_self e))] at ha
    exact nomatch ha
  · intro pre a post hpast haccepts hpre
    rcases append_last hpast with ⟨hpost, hpre', hlast⟩ | ⟨rest, hpost, hpast⟩
    · -- the first accept of the descriptor finds it free
      rw [hafter, ← hlast]
      rw [← hpre'] at hpre
      exact ⟨s, Registry.insert_free (hp.free hpre) s, congrArg Prod.fst hlink, fun _ => hnewcomer⟩
    · -- a later one finds it taken, and its session is lost
      obtain ⟨r, hr, haddress, hnew⟩ := hp.first pre a rest hpast haccepts hpre
      rw [hafter, Registry.insert_taken hr]
      refine ⟨r, hr, haddress, fun hidle => hnew fun p hmem => hidle p ?_⟩
      rw [hpost]
      exact List.mem_append_left _ hmem
  · intro p hmem haccepts
    rw [hallocated]
    rcases List.mem_append.mp hmem with hmem | hmem
    · exact Nat.lt_succ_of_lt (hp.older p hmem haccepts)
    · rw [List.mem_singleton.mp hmem]
      exact Nat.lt_succ_self _

/-- A run of the manager, seen from one descriptor. -/
theorem serves_run (env : Env) (fd : Fd) (inputs : List ManagerInput) :
    ∀ now e rest, (sessionManager env).trace .empty inputs = now ++ e :: rest →
      Serves env fd now e.before := by
  intro now e rest hrun
  have hfirst : Serves env fd [] Manager.empty := by
    refine ⟨fun _ => rfl, fun pre a post h => ?_, fun p hmem => nomatch hmem⟩
    simp at h
  refine (Machine.history (fun _ => True) [] hfirst ?_ (fun _ _ => trivial) now e rest hrun).2.1
  intro past e he _ hp
  cases ha : Accepts fd e with
  | false => exact serves_kept he ha hp
  | true => exact serves_accepted he ha hp

/-- In the run, `e` is a read of the connection accepted in the step `a`: no later
step up to it accepts the same descriptor. -/
structure ReadOf (env : Env) (inputs : List ManagerInput) (pre : List ManagerEdge) (a : ManagerEdge)
    (post : List ManagerEdge) (e : ManagerEdge) : Prop where
  run : ∃ rest, (sessionManager env).trace .empty inputs = pre ++ a :: (post ++ e :: rest)
  read : e.input.task.action = .read
  accepted : Accepts e.input.task.fd a = true
  latest : ∀ p ∈ post, Accepts e.input.task.fd p = false

/-- **Whose session.** A read of a connection is handled by the session made for that
very connection, which its first command finds new, exactly when the descriptor had not
been given out before the connection. -/
theorem read_served_iff (env : Env) (inputs : List ManagerInput) (pre : List ManagerEdge) (a : ManagerEdge)
    (post : List ManagerEdge) (e : ManagerEdge) (h : ReadOf env inputs pre a post e) :
    (∃ s, e.before.seekSession e.input.task.fd = some s ∧ s.address = a.before.allocated ∧
      ((∀ p ∈ post, Idle e.input.task.fd p) → s.Newcomer env.config)) ↔
    ∀ p ∈ pre, Accepts e.input.task.fd p = false := by
  obtain ⟨rest, hrun⟩ := h.run
  have haccept := serves_run env e.input.task.fd inputs pre a _ hrun
  rw [← List.cons_append, ← List.append_assoc] at hrun
  have hread := serves_run env e.input.task.fd inputs _ e rest hrun
  constructor
  · intro hs
    obtain ⟨s, hs, haddress, _⟩ := hs
    cases hfind : pre.find? (Accepts e.input.task.fd) with
    | none => exact fun p hmem => Bool.eq_false_iff.mpr (List.find?_eq_none.mp hfind p hmem)
    | some b =>
      -- the session found is the one of the first accept, made before this one
      obtain ⟨hb, before, after, hpre, hbefore⟩ := List.find?_eq_some_iff_append.mp hfind
      have hsplit : pre ++ a :: post = before ++ b :: (after ++ a :: post) := by simp [hpre]
      obtain ⟨r, hr, hraddress, _⟩ := hread.first before b _ hsplit hb fun p hmem => by
        simpa using hbefore p hmem
      have hsame : r = s := Option.some.inj (hr.symm.trans hs)
      have hlt := haccept.older b (by rw [hpre]; exact List.mem_append_right _ (List.mem_cons_self ..)) hb
      rw [hsame, haddress] at hraddress
      omega
  · exact fun hno => hread.first pre a post rfl h.accepted hno

/-- A client logs in as `share` and leaves; the next one is given its descriptor. -/
def reusedDescriptor : List ManagerInput :=
  [{fs := .constant none, task := .accept 7 "10.0.0.9".toList},
    {fs := .constant none, task := (SessionInput.read (.constant none) 7 "USER share\r\n".toList).task},
    {fs := .constant none, task := (SessionInput.read (.constant none) 7 "PASS share\r\n".toList).task},
    {fs := .constant none, task := {fd := 7, action := .disconn}},
    {fs := .constant none, task := .accept 7 "10.0.0.23".toList},
    {fs := .constant none, task := (SessionInput.read (.constant none) 7 "PWD\r\n".toList).task}]

theorem read_served_first :
    ∃ a post e, ReadOf Env.shipped reusedDescriptor [] a post e ∧
      ∃ s, e.before.seekSession e.input.task.fd = some s ∧ s.address = a.before.allocated ∧
        ((∀ p ∈ post, Idle e.input.task.fd p) → s.Newcomer Env.shipped.config) := by
  refine ⟨_, [], _, ⟨⟨_, rfl⟩, rfl, rfl, fun p hmem => nomatch hmem⟩, ?_⟩
  exact (read_served_iff Env.shipped reusedDescriptor [] _ [] _
    ⟨⟨_, rfl⟩, rfl, rfl, fun p hmem => nomatch hmem⟩).mpr fun p hmem => nomatch hmem

/-- The first command of the second client is handled by the first client's session,
logged in with every right. -/
theorem read_not_served_reused :
    ∃ pre a e, ReadOf Env.shipped reusedDescriptor pre a [] e ∧
      ∃ s, e.before.seekSession e.input.task.fd = some s ∧ s.address ≠ a.before.allocated ∧
        s.logIn = true ∧ s.uploadPer = true ∧ s.downloadPer = true ∧ s.delePer = true := by
  refine ⟨[_, _, _, _], _, _, ⟨⟨_, rfl⟩, rfl, rfl, fun p hmem => nomatch hmem⟩, _, rfl, ?_⟩
  decide +kernel

end
end HyperTransfer
