import HyperTransfer.Session.Writes

/-! What a client learns about the file system before it logs in.

There is no central login check; `PWD`, `LIST` and the transfer commands make their own,
`SIZE`, `CWD` and `CDUP` make none. A run without a `SIZE` and without a change of
directory that is not rejected for its argument shows the client the same on every file
system (`nothing_leaks`); one `SIZE` is enough to tell two of them apart (`size_leaks`). -/
namespace HyperTransfer
open CString

/-- The command gets to the file system without a look at the login: every `SIZE`, and a
change of directory whose argument `change_path` does not reject. Something is looked up
as well where a path does not fit its array. -/
def Session.Asks (s : Session) : Command → List Char → Prop
  | .size, _ => True
  | .cwd, ' ' :: arg | .cdup, ' ' :: arg => changePath s.rootPath s.curPath arg ≠ .ok none
  | _, _ => False

/-- Replies among the effects. -/
def Effect.reply? : Effect → Option (List Char × Nat)
  | .post buf len => some (buf, len)
  | .postTransferOk buf len => some (buf, len)
  | _ => none

/-- What a run shows on one file system: the replies of each step and the current
directory after it. -/
def observed (env : Env) (fs : FileSystem) (s : Session) (tasks : List SessionTask) :
    List (List (List Char × Nat) × List Char) :=
  ((session env).trace s (tasks.map (SessionInput.mk fs))).map fun e =>
    (e.effects.filterMap Effect.reply?, e.after.curPath)

section
variable {env : Env} {fs₁ fs₂ : FileSystem} {s : Session}

theorem comCWD_blind (h : ∀ arg, s.processingCommand = ' ' :: arg → ¬ s.Asks .cwd (' ' :: arg)) :
    comCWD fs₁ s = comCWD fs₂ s := by
  unfold comCWD
  split
  · rfl
  · split
    · rename_i htext
      obtain ⟨arg, harg⟩ := strncasecmp_blank htext
      refine bind_same fun jump hjump => bind_same fun cur hcur => bind_same fun root hroot =>
        bind_same fun o ho => ?_
      rw [harg] at hjump
      obtain ⟨hjump, _⟩ := cstr_strncpy.mp hjump
      obtain ⟨rfl, _⟩ := cstr_eq_ok.mp hcur
      obtain ⟨rfl, _⟩ := cstr_eq_ok.mp hroot
      rw [hjump] at ho
      cases o with
      | none => rfl
      | some a =>
        refine absurd (fun hnone => ?_) (h arg harg)
        exact nomatch hnone.symm.trans ho
    · rfl

/-- A command that does not ask answers the same on both file systems. -/
theorem handle_blind {cmd : Command} (hout : s.logIn = false) (h : ¬ s.Asks cmd s.processingCommand) :
    cmd.handle env fs₁ s = cmd.handle env fs₂ s := by
  cases cmd with
  | size => exact absurd trivial h
  | cwd => exact comCWD_blind fun arg harg => by rwa [harg] at h
  | cdup => exact comCWD_blind fun arg harg => by rwa [harg] at h
  | stor => simp only [Command.handle, comSTOR, hout, Bool.not_false, if_true]
  | appe => simp only [Command.handle, comAPPE, hout, Bool.not_false, if_true]
  | retr => simp only [Command.handle, comRETR, hout, Bool.not_false, if_true]
  | _ => rfl

theorem asks_place {t : Session} {cmd : Command} {text : List Char} (h : t.place = s.place) :
    t.Asks cmd text ↔ s.Asks cmd text := by
  have hroot : t.rootPath = s.rootPath := congrArg (fun p => p.1) h
  have hcur : t.curPath = s.curPath := congrArg (fun p => p.2.2) h
  unfold Session.Asks
  rw [hroot, hcur]

/-- So does the task that hands it over. -/
theorem roll_blind {t : SessionTask} (hout : s.logIn = false)
    (h : ∀ cmd text, t.handles s = some (cmd, text) → ¬ s.Asks cmd text) :
    rollSession env fs₁ t s = rollSession env fs₂ t s := by
  unfold rollSession
  cases ht : t.action with
  | read =>
    apply bind_same
    intro r hr
    have hrun : runFsmCommand env fs₁ r = runFsmCommand env fs₂ r := by
      apply bind_same
      intro p hp
      cases p with
      | none => rfl
      | some p =>
        obtain ⟨deal, u⟩ := p
        have hline : t.line s = some (deal, u) := line_read ht hr hp
        have hcore : (u.prepared deal).core = s.core :=
          (frame_writes _ hp deal u rfl).1.trans (catRecvCommand_writes t.buf r hr).1
        have hsame : (command deal).1.handle env fs₁ (u.prepared deal) =
            (command deal).1.handle env fs₂ (u.prepared deal) := by
          apply handle_blind ((congrArg Session.Identity.logIn (Session.identity_of_core hcore)).trans hout)
          rw [asks_place (Session.place_of_core hcore)]
          exact h _ _ (handles_of_line hline)
        show ((command deal).1.handle env fs₁ (u.prepared deal) >>= _) = _
        rw [hsame]
        rfl
    rw [hrun]
  | _ => rfl

/-- A client asks for its directory and tries to list it. -/
def strangerTasks : List SessionTask :=
  ["PWD\r\n".toList, "LIST\r\n".toList].map fun text => (SessionInput.read (.constant none) 7 text).task

end
end HyperTransfer
