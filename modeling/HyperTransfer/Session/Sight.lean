import HyperTransfer.Session.Manager

/-! What a session gets to know of the rest of the server.

The number of its object tells a session from others and nothing else: the same session under
another number does the same (`Session.numbered`). Of the file system it learns what it asks, and
what it asks is among its effects (`FileSystem.Alike`). -/
namespace HyperTransfer
open CString

/-- The same session, as another object. -/
def Session.numbered (n : Nat) (s : Session) : Session := {s with address := n}

def Handled.numbered (n : Nat) (h : Handled) : Handled := {h with session := h.session.numbered n}

/-- What the effects ask of one file system, another answers alike. -/
structure FileSystem.Alike (es : List Effect) (fs fs' : FileSystem) : Prop where
  stat : ∀ p, .stat p ∈ es → fs'.stat p = fs.stat p
  lstat : ∀ p, .lstat p ∈ es → fs'.lstat p = fs.lstat p

/-- The answers to what the effects ask. -/
def FileSystem.shown (es : List Effect) (fs : FileSystem) : FileSystem where
  stat p := if .stat p ∈ es then fs.stat p else none
  lstat p := if .lstat p ∈ es then fs.lstat p else none

theorem shown_alike (es : List Effect) (fs : FileSystem) : fs.Alike es (fs.shown es) :=
  ⟨fun _ h => if_pos h, fun _ h => if_pos h⟩

theorem FileSystem.Alike.mono {es es' : List Effect} {fs fs' : FileSystem} (h : fs.Alike es fs') (hsub : es' ⊆ es) :
    fs.Alike es' fs' :=
  ⟨fun p hp => h.stat p (hsub hp), fun p hp => h.lstat p (hsub hp)⟩

/-- A handler of `s` does the same for the session under another number, where it learns the same. -/
abbrev Handled.Same (n : Nat) (fs fs' : FileSystem) (x y : Except Fault Handled) : Prop :=
  Mirrors (fun h => fs.Alike h.effects fs') (Handled.numbered n) x y

section
variable {n : Nat} {fs fs' : FileSystem} {s : Session}

/-! ### Commands that do not look at the file system -/

theorem comUSER_same (users : List UserList) :
    Handled.Same n fs fs' (comUSER users s) (comUSER users (s.numbered n)) := by
  have hbegun : (if (s.numbered n).cmpProcessingCommand "Anonymous".toList then
        ((s.numbered n).setUsername "Anonymous".toList).setRetCommand "331 User name okay, need password.\r\n".toList
      else s.numbered n) =
      (if s.cmpProcessingCommand "Anonymous".toList then
        (s.setUsername "Anonymous".toList).setRetCommand "331 User name okay, need password.\r\n".toList
      else s).numbered n := by
    rw [apply_ite (Session.numbered n)]
    rfl
  unfold comUSER
  dsimp only
  rw [hbegun]
  generalize (if s.cmpProcessingCommand "Anonymous".toList then
    (s.setUsername "Anonymous".toList).setRetCommand "331 User name okay, need password.\r\n".toList else s) = t
  refine .ite (fun _ => .ok fun _ => rfl) fun _ => ?_
  have hseek : seekUser users (t.numbered n).processingCommand = seekUser users t.processingCommand := rfl
  rw [hseek]
  cases seekUser users t.processingCommand with
  | none => exact .ok fun _ => rfl
  | some u =>
    refine .bind_up (g := Session.numbered n) (.ok fun _ => rfl) fun r => ?_
    exact .bind fun _ => .ok fun _ => rfl

theorem setPermission_mirrors :
    Mirrors (fun _ => True) (Session.numbered n) s.setPermission (s.numbered n).setPermission := by
  unfold Session.setPermission
  have huser : (s.numbered n).userInfo = s.userInfo := rfl
  rw [huser]
  cases s.userInfo with
  | none => exact .error _ _
  | some u => exact .ok fun _ => rfl

theorem comPASS_same : Handled.Same n fs fs' (comPASS s) (comPASS (s.numbered n)) := by
  unfold comPASS
  refine .ite (fun _ => .ok fun _ => rfl) fun _ => .ite (fun _ => .ite (fun _ => ?_) fun _ => .ok fun _ => rfl)
    fun _ => .ok fun _ => rfl
  refine .bind_up (g := Session.numbered n) (setPermission_mirrors (s := s.setLogin true)) fun r => ?_
  exact .bind fun _ => .ok fun _ => rfl

theorem comTYPE_same : Handled.Same n fs fs' (.ok (comTYPE s)) (.ok (comTYPE (s.numbered n))) := by
  refine .ok fun _ => ?_
  unfold comTYPE
  rw [apply_ite (Handled.numbered n), apply_ite (Handled.numbered n)]
  rfl

theorem comPWD_same : Handled.Same n fs fs' (comPWD s) (comPWD (s.numbered n)) := by
  unfold comPWD
  refine .ite (fun _ => ?_) fun _ => .ok fun _ => rfl
  exact .bind fun _ => .bind fun _ => .bind fun _ => .ok fun _ => rfl

theorem comREST_same : Handled.Same n fs fs' (comREST s) (comREST (s.numbered n)) := by
  unfold comREST
  exact .ite (fun _ => .bind fun _ => .ok fun _ => rfl) fun _ => .ok fun _ => rfl

theorem comPASV_same : Handled.Same n fs fs' (.ok (comPASV s)) (.ok (comPASV (s.numbered n))) := by
  refine .ok fun _ => ?_
  unfold comPASV
  rw [apply_ite (Handled.numbered n)]
  rfl

theorem comLIST_same : Handled.Same n fs fs' (.ok (comLIST s)) (.ok (comLIST (s.numbered n))) := by
  refine .ok fun _ => ?_
  unfold comLIST
  rw [apply_ite (Handled.numbered n), apply_ite (Handled.numbered n)]
  rfl

/-! ### Commands that do -/

theorem comCWD_same : Handled.Same n fs fs' (comCWD fs s) (comCWD fs' (s.numbered n)) := by
  unfold comCWD
  refine .ite (fun _ => .ok fun _ => rfl) fun _ => .ite (fun _ => ?_) fun _ => .ok fun _ => rfl
  refine .bind fun jump => .bind fun cur => .bind fun root => .bind fun a => ?_
  cases a with
  | none => exact .bind fun _ => .ok fun _ => rfl
  | some a =>
    dsimp only
    intro h hh hfs
    have hasked : .lstat a.path ∈ h.effects := by
      refine (?_ : Returns _ fun h => .lstat a.path ∈ h.effects) h hh
      split
      · exact .bind_any fun _ => .ok (List.mem_cons_self ..)
      · split
        · exact .bind_any fun _ => .ok (List.mem_cons_self ..)
        · split
          · exact .bind_any fun _ => .bind_any fun _ => .bind_any fun _ => .ok (List.mem_cons_self ..)
          · exact .bind_any fun _ => .bind_any fun _ => .ok (List.mem_cons_self ..)
    rw [hfs.lstat _ hasked]
    refine (?_ : Handled.Same n fs fs' _ _) h hh hfs
    cases fs.lstat a.path with
    | none => exact .bind fun _ => .ok fun _ => rfl
    | some info =>
      refine .ite (fun _ => .bind fun _ => .ok fun _ => rfl) fun _ => .ite (fun _ => .bind fun path => ?_) fun _ =>
        .bind fun _ => .bind fun _ => .ok fun _ => rfl
      by_cases hroot : a.buffer = .root
      · rw [if_pos hroot, if_pos hroot]
        exact .bind fun _ => .bind fun _ => .ok fun _ => rfl
      · rw [if_neg hroot, if_neg hroot]
        exact .bind fun _ => .bind fun _ => .ok fun _ => rfl

theorem comSIZE_same : Handled.Same n fs fs' (comSIZE fs s) (comSIZE fs' (s.numbered n)) := by
  unfold comSIZE
  refine .bind fun cur => .bind fun path => .bind fun name => ?_
  intro h hh hfs
  have hasked : .stat name ∈ h.effects := by
    refine (?_ : Returns _ fun h => .stat name ∈ h.effects) h hh
    split
    · split
      · exact .bind_any fun _ => .bind_any fun _ => .ok (List.mem_cons_self ..)
      · exact .bind_any fun _ => .ok (List.mem_cons_self ..)
    · exact .bind_any fun _ => .bind_any fun _ => .ok (List.mem_cons_self ..)
  rw [hfs.stat _ hasked]
  refine (?_ : Handled.Same n fs fs' _ _) h hh hfs
  cases fs.stat name with
  | none => exact .bind fun _ => .bind fun _ => .ok fun _ => rfl
  | some info =>
    exact .ite (fun _ => .bind fun _ => .bind fun _ => .ok fun _ => rfl) fun _ => .bind fun _ => .ok fun _ => rfl

theorem comSTOR_same : Handled.Same n fs fs' (comSTOR fs s) (comSTOR fs' (s.numbered n)) := by
  unfold comSTOR
  refine .ite (fun _ => .ok fun _ => rfl) fun _ => .ite (fun _ => .ok fun _ => rfl) fun _ =>
    .ite (fun _ => .ok fun _ => rfl) fun _ => .bind fun p => ?_
  obtain ⟨a, jump⟩ := p
  intro h hh hfs
  have hasked : .stat a.path ∈ h.effects := by
    refine (?_ : Returns _ fun h => .stat a.path ∈ h.effects) h hh
    dsimp only
    split
    · exact .bind_any fun _ => .ok (List.mem_cons_self ..)
    · exact .ok (List.mem_cons_self ..)
  dsimp only
  rw [hfs.stat _ hasked]
  refine (?_ : Handled.Same n fs fs' _ _) h hh hfs
  dsimp only
  cases fs.stat a.path with
  | none => exact .ok fun _ => rfl
  | some info => exact .bind fun _ => .ok fun _ => rfl

theorem comAPPE_same : Handled.Same n fs fs' (comAPPE fs s) (comAPPE fs' (s.numbered n)) := by
  unfold comAPPE
  refine .ite (fun _ => .ok fun _ => rfl) fun _ => .ite (fun _ => .ok fun _ => rfl) fun _ => .bind fun p => ?_
  obtain ⟨a, jump⟩ := p
  refine .ok fun hfs => ?_
  rw [hfs.stat _ (List.mem_cons_self ..)]
  cases fs.stat a.path with
  | none => rfl
  | some info => rfl

theorem comRETR_same : Handled.Same n fs fs' (comRETR fs s) (comRETR fs' (s.numbered n)) := by
  unfold comRETR
  refine .ite (fun _ => .ok fun _ => rfl) fun _ => .ite (fun _ => .ok fun _ => rfl) fun _ =>
    .ite (fun _ => .ok fun _ => rfl) fun _ => .bind fun p => ?_
  obtain ⟨a, jump⟩ := p
  intro h hh hfs
  have hasked : .stat a.path ∈ h.effects := by
    refine (?_ : Returns _ fun h => .stat a.path ∈ h.effects) h hh
    dsimp only
    split
    · split
      · exact .bind_any fun _ => .ok (List.mem_cons_self ..)
      · split
        · exact .bind_any fun _ => .bind_any fun _ => .ok (List.mem_cons_self ..)
        · exact .ok (List.mem_cons_self ..)
    · exact .bind_any fun _ => .bind_any fun _ => .ok (List.mem_cons_self ..)
  dsimp only
  rw [hfs.stat _ hasked]
  refine (?_ : Handled.Same n fs fs' _ _) h hh hfs
  dsimp only
  cases fs.stat a.path with
  | none => exact .bind fun _ => .bind fun _ => .ok fun _ => rfl
  | some info =>
    exact .ite (fun _ => .bind fun _ => .ok fun _ => rfl) fun _ =>
      .ite (fun _ => .bind fun _ => .bind fun _ => .ok fun _ => rfl) fun _ => .ok fun _ => rfl

/-! ### Tasks -/

theorem handle_same (env : Env) (cmd : Command) :
    Handled.Same n fs fs' (cmd.handle env fs s) (cmd.handle env fs' (s.numbered n)) := by
  cases cmd with
  | user => exact comUSER_same env.users
  | pass => exact comPASS_same
  | type => exact comTYPE_same
  | cwd => exact comCWD_same
  | cdup => exact comCWD_same
  | pwd => exact comPWD_same
  | appe => exact comAPPE_same
  | size => exact comSIZE_same
  | rest => exact comREST_same
  | pasv => exact comPASV_same
  | list => exact comLIST_same
  | stor => exact comSTOR_same
  | retr => exact comRETR_same
  | syst => exact .ok fun _ => rfl
  | feat => exact .ok fun _ => rfl
  | bad => exact .ok fun _ => rfl

/-- What is done before and after asks no more of the file system. -/
theorem same_bind {x y : Except Fault Handled} {k : Handled → Except Fault Handled}
    (h : Handled.Same n fs fs' x y) (hk : ∀ g, Mirrors (fun _ => True) (Handled.numbered n) (k g) (k (g.numbered n)))
    (heffects : ∀ g, Returns (k g) fun r => g.effects ⊆ r.effects) : Handled.Same n fs fs' (x >>= k) (y >>= k) := by
  intro r hr hfs
  obtain ⟨g, hg, hr⟩ := bind_eq_ok.mp hr
  rw [h g hg (hfs.mono (heffects g r hr))]
  exact hk g r hr trivial

theorem dispatch_same (env : Env) (deal : List Char) :
    Handled.Same n fs fs' (dispatch env fs deal s) (dispatch env fs' deal (s.numbered n)) := by
  unfold dispatch
  exact same_bind (handle_same env (command deal).1) (fun g => .ok fun _ => rfl)
    fun g => .ok (List.subset_cons_self _ _)

theorem frame_mirrors :
    Mirrors (fun _ => True) (Option.map fun p => (p.1, p.2.numbered n)) (frame s) (frame (s.numbered n)) := by
  unfold frame
  have hrecv : (s.numbered n).getRecvCommand = s.getRecvCommand := rfl
  rw [hrecv]
  cases s.getRecvCommand with
  | none => exact .error _ _
  | some recv =>
    refine .ite (fun _ => .ok fun _ => rfl) fun _ => .ite (fun _ => .ok fun _ => rfl) fun _ => ?_
    cases strstr ((strncpy commandSize recv).take (commandSize - 1)) Session.crlf with
    | none => exact .error _ _
    | some left => exact .ok fun _ => rfl

theorem runFsmCommand_same (env : Env) :
    Handled.Same n fs fs' (runFsmCommand env fs s) (runFsmCommand env fs' (s.numbered n)) := by
  unfold runFsmCommand
  refine .bind_up frame_mirrors fun p => ?_
  cases p with
  | none => exact .ok fun _ => rfl
  | some p => exact dispatch_same env p.1

theorem catRecvCommand_mirrors (buf : List Char) :
    Mirrors (fun _ => True) (Session.numbered n) (s.catRecvCommand buf) ((s.numbered n).catRecvCommand buf) :=
  .bind fun _ => .ok fun _ => rfl

theorem wait_numbered (h : Handled) : (h.numbered n).wait = h.wait.numbered n := by
  unfold Handled.wait
  rw [apply_ite (Handled.numbered n)]
  rfl

theorem runPasv_mirrors (cfg : Config) (port : Int) :
    Mirrors (fun _ => True) (Handled.numbered n) (runPasv cfg s port) (runPasv cfg (s.numbered n) port) := by
  unfold runPasv
  exact .ite (fun _ => .bind fun _ => .bind fun _ => .ok fun _ => rfl) fun _ => .ok fun _ => rfl

/-- A session under another number, which learns the same, does the same. -/
theorem rollSession_same (env : Env) (t : SessionTask) :
    Handled.Same n fs fs' (rollSession env fs t s) (rollSession env fs' t (s.numbered n)) := by
  unfold rollSession
  cases t.action with
  | pasv =>
    refine .bind_up (runPasv_mirrors env.config t.bufLen) fun h => ?_
    exact .ite (fun _ => .ok fun _ => rfl) fun _ => .ok fun _ => rfl
  | dataAccept =>
    have hdata : (s.numbered n).dataAction = s.dataAction := rfl
    dsimp only
    rw [hdata]
    cases s.dataAction with
    | list => exact .bind fun _ => .bind fun _ => .bind fun _ => .ok fun _ => rfl
    | stor => exact .bind fun _ => .ok fun _ => rfl
    | retr => exact .bind fun _ => .bind fun _ => .bind fun _ => .bind fun _ => .ok fun _ => rfl
    | _ => exact .ok fun _ => rfl
  | storStart => exact .bind fun _ => .bind fun _ => .ok fun _ => rfl
  | read =>
    refine .bind_up (catRecvCommand_mirrors (s := s.setAction (.task .read)) t.buf) fun r => ?_
    refine same_bind (runFsmCommand_same env) (fun g => .ok fun _ => wait_numbered g) fun g => .ok ?_
    rw [(wait_writes g).2.2]
    exact List.Subset.refl _
  | _ => exact .ok fun _ => rfl

theorem setServerIp_mirrors (cfg : Config) :
    Mirrors (fun _ => True) (Session.numbered n) (s.setServerIp cfg) ((s.numbered n).setServerIp cfg) := by
  unfold Session.setServerIp
  refine .ite (fun _ => .ok fun _ => rfl) fun _ => .ite (fun _ => .ok fun _ => rfl) fun _ =>
    .ite (fun _ => .bind fun a => .ok fun _ => ?_) fun _ => .ok fun _ => rfl
  rw [apply_ite (Session.numbered n)]
  rfl

/-- A session is made the same whatever number it gets. -/
theorem acceptSession_mirrors (cfg : Config) (address : Nat) (garbage : List Char) (t : SessionTask) :
    Mirrors (fun _ => True) (Handled.numbered n) (acceptSession cfg address garbage t)
      (acceptSession cfg n garbage t) := by
  have hgreets (s : Session) :
      Mirrors (fun _ => True) (Handled.numbered n) (runFsmAccept cfg s) (runFsmAccept cfg (s.numbered n)) :=
    .bind_up (setServerIp_mirrors cfg) fun _ => .ok fun _ => rfl
  unfold acceptSession
  refine .bind_up (g := Session.numbered n) (.bind fun _ => .ok fun _ => rfl) fun s => ?_
  exact .bind_up (hgreets s) fun _ => .ok fun _ => rfl

/-! ### The manager -/

/-- A task other than an accept is handled by the session found. -/
theorem roll_other {env : Env} {i : ManagerInput} {m : Manager} (h : i.task.action ≠ .ctrlAccept) :
    rollStateMachine env i m =
      match m.seekSession i.task.fd with
      | some s => do
        let h ← rollSession env i.fs i.task s
        return (m.update i.task.fd h.session, h.effects)
      | none => .ok (m, []) := by
  unfold rollStateMachine
  split
  · exact absurd ‹_› h
  · rfl

/-- The session manager does the same for a descriptor whatever the numbers are, and whatever else there is
in the file system. -/
theorem roll_same {env : Env} {t : SessionTask} {garbage : List Char} {m r m' : Manager} {es : List Effect}
    (h : rollStateMachine env {fs := fs, task := t, garbage := garbage} m = .ok (r, es)) (hfs : fs.Alike es fs')
    (hsession : m'.sessions t.fd = (m.sessions t.fd).map (Session.numbered n)) (hnumber : m'.allocated = n) :
    ∃ r', rollStateMachine env {fs := fs', task := t, garbage := garbage} m' = .ok (r', es) ∧
      r'.sessions t.fd = (r.sessions t.fd).map (Session.numbered n) := by
  by_cases haction : t.action = .ctrlAccept
  · unfold rollStateMachine at h ⊢
    rw [haction] at h
    dsimp only
    rw [haction]
    obtain ⟨g, hg, h⟩ := bind_eq_ok.mp h
    cases h
    refine ⟨_, bind_eq_ok.mpr ⟨_, acceptSession_mirrors (n := m'.allocated) _ _ _ _ g hg trivial, rfl⟩, ?_⟩
    have hfd : g.session.fd = t.fd := congrArg Prod.snd (acceptSession_writes _ _ _ _ g hg).1
    show Registry.insert m'.sessions g.session.fd _ t.fd = (Registry.insert m.sessions g.session.fd _ t.fd).map _
    rw [hfd]
    cases hthere : m.sessions t.fd with
    | none =>
      rw [hthere] at hsession
      rw [Registry.insert_free hthere, Registry.insert_free hsession, hnumber]
      rfl
    | some s =>
      rw [hthere] at hsession
      rw [Registry.insert_taken hthere, Registry.insert_taken hsession, hsession, hthere]
  · rw [roll_other haction] at h ⊢
    rw [show m'.seekSession t.fd = _ from hsession]
    cases hthere : m.sessions t.fd with
    | none =>
      rw [show m.seekSession t.fd = none from hthere] at h
      cases h
      rw [hthere] at hsession
      exact ⟨m', rfl, hsession.trans (by rw [hthere])⟩
    | some s =>
      rw [show m.seekSession t.fd = some s from hthere] at h
      obtain ⟨g, hg, h⟩ := bind_eq_ok.mp h
      cases h
      refine ⟨_, bind_eq_ok.mpr ⟨_, rollSession_same env t g hg hfs, rfl⟩, ?_⟩
      show Registry.modify m'.sessions t.fd _ t.fd = (Registry.modify m.sessions t.fd _ t.fd).map _
      rw [Registry.modify_same, Registry.modify_same]
      rfl

end

end HyperTransfer
