import HyperTransfer.Lib.ReplyText
import HyperTransfer.Session.Composing
import HyperTransfer.Session.Login

/-! Every answer is a reply.

What a session quotes in its answers is what it was sent in one line, a path it went to, its address
or the name of its user. None of it breaks a line if what was configured does not: a line with a
command in it has no line end left in it, though one that begins with a line end has
(`command_front`); then it is no command and is not quoted. So each answer is one reply, as a whole, with its
true length (`roll_fine`). -/
namespace HyperTransfer
open CString ReplyText

/-- Nothing that was configured breaks a line. -/
structure Env.Quotable (env : Env) : Prop where
  initPath : Plain env.config.initPath
  lanIp : Plain env.config.serverLanIp
  wanIp : Plain env.config.serverWanIp
  users : ∀ u ∈ env.users, Plain u.user

/-- Nothing that a session keeps and quotes breaks a line. -/
structure Session.Quotable (s : Session) : Prop where
  rootPath : Plain s.rootPath
  curPath : Plain s.curPath
  fileName : Plain s.fileName
  serverIp : Plain s.serverIp
  username : Plain s.username

/-- Each answer is one reply, of its true length. -/
def Handled.Speaks (h : Handled) : Prop :=
  ∀ e ∈ h.effects, ∀ buf len, e.reply? = some (buf, len) → len = buf.length ∧ IsReply buf

def Handled.Fine (h : Handled) : Prop := h.session.Quotable ∧ h.Speaks

section
variable {env : Env} {fs : FileSystem} {s : Session} {front middle back text : List Char}

/-! ### What a session quotes -/

theorem plain_strncpy {n : Nat} (h : Plain text) : Plain (strncpy n text) := h.sublist (List.take_sublist ..)

theorem plain_drop (k : Nat) (h : Plain text) : Plain (text.drop k) := h.sublist (List.drop_sublist ..)

theorem cstr_plain {n : Nat} (h : Plain text) : Returns (cstr n text) Plain := by
  intro t ht
  rw [(cstr_eq_ok.mp ht).1]
  exact h

theorem advance_plain {k : Int} (h : Plain text) : Returns (advance text k) Plain := by
  unfold advance
  split
  · exact .ok (plain_drop _ h)
  · exact .error _

theorem plain_decimal (n : Int) : Plain (decimal n) := by
  have hdigits (m : Nat) : Plain (Nat.toDigits 10 m) := plain_digits fun c hc => Nat.isDigit_of_mem_toDigits (by decide) (by decide) hc
  unfold decimal
  split
  · exact plain_append (a := ['-']).mpr ⟨by decide, hdigits _⟩
  · exact hdigits _

theorem comCDUP_plain {path : List Char} (h : Plain path) : Plain (comCDUP path) := by
  rcases comCDUP_cases path with hsame | ⟨a, b, hpath, hcut⟩
  · rw [hsame]
    exact h
  · rw [hcut]
    rw [hpath] at h
    exact (plain_append.mp h).1

/-- Where an argument leads is made of it, the root and the current directory. -/
theorem leads_plain {P : List Char → Prop} (hP : ∀ p, Plain p → P p) {root cur arg : List Char} (hroot : Plain root)
    (hcur : Plain cur) (harg : Plain arg) : Leads P root cur arg := by
  fun_induction Leads P root cur arg with
  | case1 cur rest ih => exact ih (comCDUP_plain hcur) (plain_drop 3 harg)
  | case2 cur rest ih => exact ih hcur (plain_drop 2 harg)
  | case3 cur => exact hP _ (comCDUP_plain hcur)
  | case4 cur => exact hP _ (comCDUP_plain (comCDUP_plain hcur))
  | case5 => exact hP _ hroot
  | case6 => trivial
  | case7 cur => exact hP _ (comCDUP_plain hcur)
  | case8 cur rest => exact hP _ (plain_append.mpr ⟨hroot, plain_drop 1 harg⟩)
  | case9 cur rest => exact hP _ (plain_append.mpr ⟨hcur, harg⟩)

theorem changePath_plain {root cur arg : List Char} (hlen : root.length < pathSize) (hcurlen : cur.length < pathSize)
    (hroot : Plain root) (hcur : Plain cur) (harg : Plain arg) {a : APath}
    (ha : changePath root cur arg = .ok (some a)) : Plain a.path ∧ Plain (a.argument arg) := by
  have hpath : Plain a.path :=
    (changePath_leads root cur arg hlen hcurlen).mpr
      (leads_plain (P := fun p => p.length < pathSize → Plain p) (fun _ hp _ => hp) hroot hcur harg) a ha
  refine ⟨hpath, ?_⟩
  unfold APath.argument
  split
  · exact hpath
  · exact harg

theorem addSlash_plain {path : List Char} (h : Plain path) : Returns (addSlash path) Plain := by
  intro q hq
  rcases addSlash_cases hq with rfl | ⟨rfl, _⟩
  · exact h
  · exact plain_append.mpr ⟨h, by decide⟩

/-! ### What the setters leave -/

theorem Session.Quotable.same {t : Session} (hs : s.Quotable)
    (h : (t.rootPath, t.curPath, t.fileName, t.serverIp, t.username) =
      (s.rootPath, s.curPath, s.fileName, s.serverIp, s.username)) : t.Quotable := by
  simp only [Prod.mk.injEq] at h
  obtain ⟨hroot, hcur, hname, hip, huser⟩ := h
  exact ⟨hroot ▸ hs.rootPath, hcur ▸ hs.curPath, hname ▸ hs.fileName, hip ▸ hs.serverIp, huser ▸ hs.username⟩

theorem Session.Quotable.setUsername (hs : s.Quotable) (h : Plain text) : (s.setUsername text).Quotable :=
  ⟨hs.rootPath, hs.curPath, hs.fileName, hs.serverIp, plain_strncpy h⟩

theorem Session.Quotable.setFileName (hs : s.Quotable) (h : Plain text) : (s.setFileName text).Quotable :=
  ⟨hs.rootPath, hs.curPath, plain_strncpy h, hs.serverIp, hs.username⟩

theorem Session.Quotable.setCurPath (hs : s.Quotable) (h : Plain text) : (s.setCurPath text).Quotable :=
  ⟨hs.rootPath, plain_strncpy h, hs.fileName, hs.serverIp, hs.username⟩

/-! ### Answers -/

theorem compose_returns (parts : List (List Char)) :
    Returns (compose parts) fun text => text = parts.flatten ∧ text.length < commandSize := by
  intro text h
  obtain ⟨rfl, hlen⟩ := (concat_eq_ok (by decide)).mp h
  exact ⟨rfl, hlen⟩

/-- What is posted is the reply that was put together. -/
theorem posted_speaks {h : Handled} (hposted : h.effects.filterMap Effect.reply? =
    [(strncpy commandSize text, (strncpy commandSize text).length)]) (hlen : text.length < commandSize)
    (hreply : IsReply text) : h.Speaks := by
  intro e he buf len hbuf
  have hmem : (buf, len) ∈ h.effects.filterMap Effect.reply? := List.mem_filterMap.mpr ⟨e, he, hbuf⟩
  rw [hposted, strncpy_of_le (Nat.le_of_lt hlen), List.mem_singleton] at hmem
  cases hmem
  exact ⟨rfl, hreply⟩

theorem silent_speaks {h : Handled} (hnone : h.effects.filterMap Effect.reply? = []) : h.Speaks := by
  intro e he buf len hbuf
  rw [List.filterMap_eq_nil_iff.mp hnone e he] at hbuf
  cases hbuf

theorem after_fine {h : Handled} {es : List Effect} (hes : ∀ e ∈ es, e.reply? = none) (hh : h.Fine) :
    (h.after es).Fine := by
  refine ⟨hh.1, fun e he buf len hbuf => ?_⟩
  rcases List.mem_append.mp he with he | he
  · rw [hes e he] at hbuf
    cases hbuf
  · exact hh.2 e he buf len hbuf

theorem answer_fine (hs : s.Quotable) {ret : Int} (hlen : text.length < commandSize) (hreply : IsReply text) :
    (s.answer text ret).Fine :=
  ⟨hs.same rfl, posted_speaks rfl hlen hreply⟩

/-- A fixed answer. -/
theorem fixed_fine (hs : s.Quotable) {ret : Int}
    (h : text.length < commandSize ∧ Fronts (text.take 4) ∧ Backs (text.drop 4)) : (s.answer text ret).Fine :=
  answer_fine hs h.1 (isReply_fixed h.2)

/-- An answer that quotes a text. -/
theorem quote_returns (hfixed : Fronts front ∧ Backs back) (hmiddle : Plain middle) :
    Returns (compose [front, middle, back]) fun text => text.length < commandSize ∧ IsReply text := by
  refine (compose_returns _).mono fun text h => ⟨h.2, ?_⟩
  rw [h.1]
  exact isReply_quote hfixed.1 hmiddle (by rw [List.flatten_singleton]; exact hfixed.2)

theorem quote_fine (hs : s.Quotable) {ret : Int} (hfixed : Fronts front ∧ Backs back) (hmiddle : Plain middle) :
    Returns (do return s.answer (← compose [front, middle, back]) ret) Handled.Fine :=
  .bind (quote_returns hfixed hmiddle) fun _ h => .pure (answer_fine hs h.1 h.2)

/-- The same behind what the handler has looked up. -/
theorem quote_after_fine (hs : s.Quotable) {ret : Int} {es : List Effect} (hes : ∀ e ∈ es, e.reply? = none)
    (hfixed : Fronts front ∧ Backs back) (hmiddle : Plain middle) :
    Returns (do return (s.answer (← compose [front, middle, back]) ret).after es) Handled.Fine :=
  .bind (quote_returns hfixed hmiddle) fun _ h => .pure (after_fine hes (answer_fine hs h.1 h.2))

theorem relativeName_plain (h : Plain s.fileName) : Returns s.getRelativeName Plain :=
  .bind (cstr_plain h) fun _ hn => advance_plain hn

/-! ### Commands -/

theorem comUSER_fine (husers : ∀ u ∈ env.users, Plain u.user) (hs : s.Quotable) (htext : Plain s.processingCommand) :
    Returns (comUSER env.users s) Handled.Fine := by
  unfold comUSER
  dsimp only
  generalize ht : (if s.cmpProcessingCommand "Anonymous".toList = true then
    (s.setUsername "Anonymous".toList).setRetCommand "331 User name okay, need password.\r\n".toList else s) = t
  have hboth : t.Quotable ∧ Plain t.processingCommand := by
    rw [← ht]
    split
    · have hanonymous : (s.setUsername "Anonymous".toList).Quotable := hs.setUsername (by decide)
      exact ⟨hanonymous.same rfl, htext⟩
    · exact ⟨hs, htext⟩
  obtain ⟨hset, htext⟩ := hboth
  split
  · have hshare : (t.setUsername "BGIShare".toList).Quotable := hset.setUsername (by decide)
    exact .ok (fixed_fine hshare (by decide))
  · split
    · rename_i u hu
      have hnamed : (t.setUsername u.user).Quotable := hset.setUsername (husers u (seekUser_mem hu))
      have hfound : Session.Quotable {(t.setUserInfo u).setUsername u.user with password := strncpy passLen u.pass} :=
        hnamed.same rfl
      exact .ok_bind (quote_fine hfound (by decide) htext)
    · exact .ok (fixed_fine hset (by decide))

theorem comPASS_fine (hs : s.Quotable) : Returns (comPASS s) Handled.Fine := by
  have hlogin : (s.setLogin true).Quotable := hs.same rfl
  unfold comPASS
  split
  · exact .ok (fixed_fine hlogin (by decide))
  · split
    · split
      · cases hu : s.userInfo with
        | none =>
          simp only [Session.setPermission, Session.setLogin, hu]
          exact .error _
        | some u =>
          simp only [Session.setPermission, Session.setLogin, hu]
          have hpermitted : Session.Quotable {s with
              logIn := true, userInfo := some u, uploadPer := u.uploadPer, downloadPer := u.downloadPer
              delePer := u.delePer} := hs.same rfl
          exact .ok_bind (quote_fine hpermitted (by decide) hs.username)
      · exact .ok (fixed_fine hs (by decide))
    · exact .ok (fixed_fine hs (by decide))

theorem comTYPE_fine (hs : s.Quotable) : (comTYPE s).Fine := by
  unfold comTYPE
  split
  · exact fixed_fine hs (by decide)
  · split <;> exact fixed_fine hs (by decide)

theorem comSYST_fine (hs : s.Quotable) (unameOk : Bool) : (comSYST unameOk s).Fine := by
  unfold comSYST
  split <;> exact fixed_fine hs (by decide)

/-- The one answer of several lines. -/
def features : Reply where
  code := "211".toList
  before := ["Extensions supported:".toList, " PASV".toList, " SIZE".toList, " REST".toList, " APPE".toList]
  last := "End.".toList
  three := rfl
  decimal := List.all_eq_true.mp (by decide : "211".toList.all Char.isDigit = true)
  plain := by decide
  inner := by decide

theorem comFEAT_fine (hs : s.Quotable) : (comFEAT s).Fine := answer_fine hs (by decide) ⟨features, rfl⟩

theorem comPASV_fine (hs : s.Quotable) : (comPASV s).Fine := by
  unfold comPASV
  split
  · exact fixed_fine hs (by decide)
  · exact ⟨hs.same rfl, silent_speaks rfl⟩

theorem comLIST_fine (hs : s.Quotable) : (comLIST s).Fine := by
  unfold comLIST
  split
  · exact fixed_fine hs (by decide)
  · split
    · exact fixed_fine hs (by decide)
    · exact ⟨hs.same rfl, silent_speaks rfl⟩

theorem comPWD_fine (hs : s.Quotable) : Returns (comPWD s) Handled.Fine := by
  unfold comPWD
  split
  · exact .bind (cstr_plain hs.curPath) fun _ hcur => .bind (advance_plain hcur) fun _ hrest =>
      quote_fine hs (by decide) hrest
  · exact .ok (fixed_fine hs (by decide))

theorem comREST_fine (hs : s.Quotable) (htext : Plain s.processingCommand) : Returns (comREST s) Handled.Fine := by
  unfold comREST
  split
  · have hset : (s.setRestSize ((scanLong (s.processingCommand.drop 1)).getD 0)).Quotable := hs.same rfl
    exact quote_fine hset (by decide) (plain_drop 1 htext)
  · have hset : (s.setRestSize 0).Quotable := hs.same rfl
    exact .ok (fixed_fine hset (by decide))

theorem comCWD_fine (hs : s.Quotable) (htext : Plain s.processingCommand) : Returns (comCWD fs s) Handled.Fine := by
  have hsilent (path : List Char) : ∀ e ∈ [Effect.lstat path], e.reply? = none := List.forall_mem_singleton.mpr rfl
  unfold comCWD
  split
  · exact .ok (fixed_fine (hs.setCurPath hs.rootPath) (by decide))
  · split
    · refine .bind (fun _ h => cstr_strncpy.mp h) fun jump hjump => ?_
      refine .bind (fun _ h => cstr_eq_ok.mp h) fun cur hcur => .bind (fun _ h => cstr_eq_ok.mp h) fun root hroot => ?_
      obtain ⟨rfl, _⟩ := hjump
      obtain ⟨rfl, hcurlen⟩ := hcur
      obtain ⟨rfl, hrootlen⟩ := hroot
      have harg : Plain (s.processingCommand.drop 1) := plain_drop 1 htext
      refine .bind (fun _ h => h) fun o ho => ?_
      cases o with
      | none => exact quote_fine hs (by decide) harg
      | some a =>
        obtain ⟨hpath, hargument⟩ := changePath_plain hrootlen hcurlen hs.rootPath hs.curPath harg ho
        dsimp only
        split
        · exact quote_after_fine hs (hsilent _) (by decide) hargument
        · split
          · exact quote_after_fine hs (hsilent _) (by decide) hargument
          · split
            · refine .bind (addSlash_plain hpath) fun path hslash => ?_
              have hentered : Session.Quotable
                  ((if a.buffer = .root then {s with rootPath := path} else s).setCurPath path) := by
                refine Session.Quotable.setCurPath ?_ hslash
                split
                · exact ⟨hslash, hs.curPath, hs.fileName, hs.serverIp, hs.username⟩
                · exact hs
              exact .bind (advance_plain hslash) fun r hr => quote_after_fine hentered (hsilent _) (by decide) hr
            · exact .bind (advance_plain hpath) fun r hr => quote_after_fine hs (hsilent _) (by decide) hr
    · exact .ok (fixed_fine hs (by decide))

theorem stat_quiet (path : List Char) : ∀ e ∈ [Effect.stat path], e.reply? = none := List.forall_mem_singleton.mpr rfl

theorem comSIZE_fine (hs : s.Quotable) (htext : Plain s.processingCommand) : Returns (comSIZE fs s) Handled.Fine := by
  unfold comSIZE
  refine .bind (cstr_plain hs.curPath) fun cur hcur => .bind (compose_returns _) fun path hpath => ?_
  have hplain : Plain path := by
    rw [hpath.1]
    exact plain_append.mpr ⟨hcur, plain_append.mpr ⟨htext, by decide⟩⟩
  have hset : (s.setFileName path).Quotable := hs.setFileName hplain
  refine .bind (cstr_plain hset.fileName) fun name hname => ?_
  split
  · rename_i info _
    split
    · exact .bind (relativeName_plain hset.fileName) fun r hr => quote_after_fine hset (stat_quiet _) (by decide) hr
    · have hlen : ((s.setFileName path).setFileLen info.size).Quotable := hset.same rfl
      exact quote_after_fine hlen (stat_quiet _) (by decide) (plain_decimal _)
  · exact .bind (relativeName_plain hset.fileName) fun r hr => quote_after_fine hset (stat_quiet _) (by decide) hr

/-! ### Transfers -/

theorem transferPath_plain (hs : s.Quotable) (htext : Plain s.processingCommand) :
    Returns (transferPath s) fun r => Plain r.1.path ∧ Plain r.2 := by
  intro r hr
  obtain ⟨⟨hroot, hcur, _⟩, ha, hjump⟩ := transferPath_eq_ok.mp hr
  rw [hjump]
  exact changePath_plain hroot hcur hs.rootPath hs.curPath htext ha

theorem silent_fine {h : Handled} (hs : h.session.Quotable) (hnone : h.effects.filterMap Effect.reply? = []) : h.Fine :=
  ⟨hs, silent_speaks hnone⟩

theorem comSTOR_fine (hs : s.Quotable) (htext : Plain s.processingCommand) : Returns (comSTOR fs s) Handled.Fine := by
  unfold comSTOR
  split
  · exact .ok (fixed_fine hs (by decide))
  · split
    · exact .ok (fixed_fine hs (by decide))
    · split
      · exact .ok (fixed_fine hs (by decide))
      · refine .bind (transferPath_plain hs htext) fun r hr => ?_
        have hset : (s.setFileName r.1.path).Quotable := hs.setFileName hr.1
        dsimp only
        split
        · exact quote_after_fine hset (stat_quiet _) (by decide) hr.1
        · exact .pure (silent_fine (hset.same rfl) rfl)

theorem comAPPE_fine (hs : s.Quotable) (htext : Plain s.processingCommand) : Returns (comAPPE fs s) Handled.Fine := by
  unfold comAPPE
  split
  · exact .ok (fixed_fine hs (by decide))
  · split
    · exact .ok (fixed_fine hs (by decide))
    · refine .bind (transferPath_plain hs htext) fun r hr => ?_
      have hset : (s.setFileName r.1.path).Quotable := hs.setFileName hr.1
      refine .pure (silent_fine (hset.same ?_) rfl)
      dsimp only
      split <;> rfl

theorem comRETR_fine (hs : s.Quotable) (htext : Plain s.processingCommand) : Returns (comRETR fs s) Handled.Fine := by
  unfold comRETR
  split
  · exact .ok (fixed_fine hs (by decide))
  · split
    · exact .ok (fixed_fine hs (by decide))
    · split
      · exact .ok (fixed_fine hs (by decide))
      · refine .bind (transferPath_plain hs htext) fun r hr => ?_
        have hset : (s.setFileName r.1.path).Quotable := hs.setFileName hr.1
        dsimp only
        split
        · split
          · exact quote_after_fine hset (stat_quiet _) (by decide) hr.2
          · split
            · exact .bind (relativeName_plain hset.fileName) fun n hn =>
                quote_after_fine hset (stat_quiet _) (by decide) hn
            · exact .pure (silent_fine (hset.same rfl) rfl)
        · exact .bind (relativeName_plain hset.fileName) fun n hn => quote_after_fine hset (stat_quiet _) (by decide) hn

/-! ### Events -/

theorem runPasv_fine (cfg : Config) (hs : s.Quotable) (port : Int) : Returns (runPasv cfg s port) Handled.Fine := by
  unfold runPasv
  split
  · refine .bind (cstr_plain hs.serverIp) fun ip hip => .bind (compose_returns _) fun text htext => .pure ?_
    have hhost : Plain (ip.map fun c => if c != '.' then c else ',') := by
      refine ⟨fun h => ?_, fun h => ?_⟩
      · obtain ⟨c, hc, hmap⟩ := List.mem_map.mp h
        split at hmap
        · exact hip.1 (hmap ▸ hc)
        · exact absurd hmap (by decide)
      · obtain ⟨c, hc, hmap⟩ := List.mem_map.mp h
        split at hmap
        · exact hip.2 (hmap ▸ hc)
        · exact absurd hmap (by decide)
    have hpart (n : Int) : Plain ((decimal n).take (portPartLen - 1)) := (plain_decimal n).sublist (List.take_sublist ..)
    refine answer_fine hs htext.2 ?_
    have hfront : Fronts "227 Entering Passive Mode (".toList := by decide
    have hback : Backs ").\r\n".toList := by decide
    have hreply := isReply_quote hfront
      (plain_append.mpr ⟨plain_append.mpr ⟨hhost, (by decide : Plain [','])⟩, plain_append.mpr ⟨hpart (port >>> (8 : Nat)),
        plain_append.mpr ⟨(by decide : Plain ",".toList), hpart (port % 256)⟩⟩⟩) hback
    rw [htext.1]
    simp only [List.flatten_cons, List.flatten_nil, List.append_nil, List.append_assoc] at hreply ⊢
    exact hreply
  · exact .ok (fixed_fine hs (by decide))

/-- A reply that is posted when the data connection is there. -/
theorem runListLoad_fine (hs : s.Quotable) : Returns (runListLoad s) Handled.Fine := by
  unfold runListLoad
  refine .bind (cstr_plain hs.serverIp) fun ip hip => .bind (quote_returns (by decide) hip) fun text htext => ?_
  have hset : ((s.setRetCommand text).setDataAction .indexDownload).Quotable := hs.same rfl
  exact .bind (cstr_plain hset.curPath) fun path _ => .pure ⟨hset, posted_speaks rfl htext.1 htext.2⟩

theorem runStorLoad_fine (hs : s.Quotable) : Returns (runStorLoad s) Handled.Fine :=
  .bind (cstr_plain hs.fileName) fun _ _ => .pure (silent_fine hs rfl)

theorem runStorStart_fine (hs : s.Quotable) : Returns (runStorStart s) Handled.Fine :=
  .bind (cstr_plain hs.serverIp) fun _ hip => quote_fine hs (by decide) hip

theorem runRetrLoad_fine (hs : s.Quotable) : Returns (runRetrLoad s) Handled.Fine := by
  unfold runRetrLoad
  refine .bind (cstr_plain hs.serverIp) fun ip hip => .bind (relativeName_plain hs.fileName) fun name hname => ?_
  refine .bind (compose_returns _) fun text htext => ?_
  have hset : ((s.setRetCommand text).setDataAction .fileDownload).Quotable := hs.same rfl
  have hreply : IsReply text := by
    have hfront : Fronts "150 Data connection accepted from ".toList := by decide
    have hback : Backs " bytes)\r\n".toList := by decide
    have hquote := isReply_quote hfront
      (plain_append.mpr ⟨hip, plain_append.mpr ⟨(by decide : Plain ";transfer starting for".toList),
        plain_append.mpr ⟨hname, plain_append.mpr ⟨(by decide : Plain " (".toList), plain_decimal s.fileLen⟩⟩⟩⟩) hback
    rw [htext.1]
    simp only [List.flatten_cons, List.flatten_nil, List.append_nil, List.append_assoc] at hquote ⊢
    exact hquote
  exact .bind (cstr_plain hset.fileName) fun path _ => .pure ⟨hset, posted_speaks rfl htext.2 hreply⟩

theorem runTransferOk_fine (hs : s.Quotable) : (runTransferOk s).Fine := by
  have hreply : IsReply "226 Transfer ok.\r\n".toList := isReply_fixed (by decide)
  exact ⟨hs.same rfl, posted_speaks rfl (by decide) hreply⟩

/-! ### Lines -/

/-- A command line does not begin with a line end. -/
theorem command_front {deal : List Char} (h : (command deal).1 ≠ .bad) :
    ∃ c rest, deal = c :: rest ∧ Session.crlf.contains c = false := by
  have hfront {name : List Char} {n : Nat} (hsame : strncmp deal name n = true)
      (hname : (name.take n).head?.any fun c => !Session.crlf.contains c) :
      ∃ c rest, deal = c :: rest ∧ Session.crlf.contains c = false := by
    rw [← show deal.take n = name.take n from beq_iff_eq.mp hsame] at hname
    cases deal with
    | nil =>
      rw [List.take_nil] at hname
      cases hname
    | cons c rest =>
      cases n with
      | zero => cases hname
      | succ n => exact ⟨c, rest, rfl, by simpa using hname⟩
  revert h
  fun_cases command deal with
  | case16 => exact fun h => absurd rfl h
  | _ => exact fun _ => hfront ‹_› (by decide)

/-- What is left of a line that does not begin with a line end has none. -/
theorem token_plain {bak : List Char} {c : Char} {rest : List Char} (h : strtok bak Session.crlf = c :: rest)
    (hc : Session.crlf.contains c = false) : Plain (strtok bak Session.crlf) := by
  have hnone : bak.takeWhile Session.crlf.contains = [] := by
    cases hdelims : bak.takeWhile Session.crlf.contains with
    | nil => rfl
    | cons d more =>
      have hd := List.mem_takeWhile_imp (hdelims ▸ List.mem_cons_self (a := d) (l := more))
      unfold strtok at h
      rw [hdelims, List.cons_append] at h
      rw [List.head_eq_of_cons_eq h, hc] at hd
      cases hd
  have hall {d : Char} (hd : d ∈ strtok bak Session.crlf) : (!Session.crlf.contains d) = true := by
    unfold strtok at hd
    rw [hnone, List.nil_append] at hd
    exact List.mem_takeWhile_imp (p := fun c => !Session.crlf.contains c) hd
  exact ⟨fun hmem => absurd (hall hmem) (by decide), fun hmem => absurd (hall hmem) (by decide)⟩

/-- A line is a token of the receive buffer, and what is kept of the session stays. -/
theorem frame_returns (hs : s.Quotable) : Returns (frame s) fun o => ∀ deal u, o = some (deal, u) →
    u.Quotable ∧ ∃ bak, deal = strtok bak Session.crlf := by
  unfold frame
  split
  · exact .error _
  · dsimp only
    split
    · exact .ok fun _ _ h => nomatch h
    · split
      · refine .ok fun deal u h => ?_
        cases h
        exact ⟨hs.same rfl, _, rfl⟩
      · split
        · refine .ok fun deal u h => ?_
          cases h
          exact ⟨hs.same rfl, _, rfl⟩
        · exact .error _

/-! ### The state machine -/

theorem handle_fine (henv : env.Quotable) (hs : s.Quotable) (cmd : Command)
    (htext : cmd ≠ .bad → Plain s.processingCommand) : Returns (cmd.handle env fs s) Handled.Fine := by
  cases cmd with
  | user => exact comUSER_fine henv.users hs (htext nofun)
  | pass => exact comPASS_fine hs
  | type => exact .ok (comTYPE_fine hs)
  | cwd => exact comCWD_fine hs (htext nofun)
  | cdup => exact comCWD_fine hs (htext nofun)
  | pwd => exact comPWD_fine hs
  | appe => exact comAPPE_fine hs (htext nofun)
  | size => exact comSIZE_fine hs (htext nofun)
  | rest => exact comREST_fine hs (htext nofun)
  | pasv => exact .ok (comPASV_fine hs)
  | list => exact .ok (comLIST_fine hs)
  | stor => exact comSTOR_fine hs (htext nofun)
  | retr => exact comRETR_fine hs (htext nofun)
  | syst => exact .ok (comSYST_fine hs _)
  | feat => exact .ok (comFEAT_fine hs)
  | bad => exact .ok (fixed_fine hs (by decide))

/-- The text left for a handler is of its line, or fixed. -/
theorem command_text {deal : List Char} (h : Plain deal) : Plain (command deal).2 := by
  fun_cases command deal with
  | case5 => exact (by decide : Plain " ..".toList)
  | case16 => exact h
  | _ => exact plain_drop _ h

theorem dispatch_fine (henv : env.Quotable) (hs : s.Quotable) {bak : List Char} :
    Returns (dispatch env fs (strtok bak Session.crlf) s) Handled.Fine := by
  have hset {deal text : List Char} : ((s.setProcessingCommand deal).setProcessingCommand text).Quotable := hs.same rfl
  unfold dispatch
  refine .bind (P := Handled.Fine) (handle_fine henv hset _ fun hcmd => ?_) fun h hh => .pure ⟨hh.1, ?_⟩
  · obtain ⟨c, rest, hdeal, hc⟩ := command_front hcmd
    exact plain_strncpy (command_text (token_plain hdeal hc))
  · intro e he buf len hreply
    rcases List.mem_cons.mp he with rfl | he
    · cases hreply
    · exact hh.2 e he buf len hreply

/-- **A task is answered by whole replies**, one each, of their true lengths. -/
theorem roll_fine (henv : env.Quotable) (hs : s.Quotable) (t : SessionTask) :
    Returns (rollSession env fs t s) Handled.Fine := by
  unfold rollSession
  split
  · refine .bind (runPasv_fine env.config hs _) fun h hh => ?_
    split
    · refine .pure ⟨hh.1.same rfl, fun e he buf len hreply => ?_⟩
      rcases List.mem_append.mp he with he | he
      · exact hh.2 e he buf len hreply
      · rw [List.mem_singleton.mp he] at hreply
        cases hreply
    · exact .pure hh
  · split
    · exact runListLoad_fine hs
    · exact runStorLoad_fine hs
    · exact runRetrLoad_fine hs
    · exact .ok (silent_fine hs rfl)
  · exact runStorStart_fine hs
  · exact .ok (runTransferOk_fine hs)
  · have hcat : Returns ((s.setAction (.task .read)).catRecvCommand t.buf) Session.Quotable :=
      .bind (fun _ h => h) fun text _ => .pure (hs.same rfl)
    refine .bind hcat fun u hu => .bind (P := Handled.Fine) ?_ fun h hh => .pure ?_
    · refine .bind (frame_returns hu) fun o ho => ?_
      cases o with
      | none => exact .pure (silent_fine hu rfl)
      | some r =>
        obtain ⟨hr, bak, hdeal⟩ := ho r.1 r.2 rfl
        rw [show r = (strtok bak Session.crlf, r.2) from Prod.ext hdeal rfl]
        exact dispatch_fine henv hr
    · unfold Handled.wait
      split
      · exact ⟨hh.1.same rfl, hh.2⟩
      · exact hh
  · exact .ok (silent_fine hs rfl)
  · exact .ok (silent_fine hs rfl)
  · exact .ok (silent_fine hs rfl)
  · exact .ok (silent_fine hs rfl)

/-- So is an accept, by the greeting. -/
theorem accept_fine (henv : env.Quotable) (address : Nat) (garbage : List Char) (t : SessionTask) :
    Returns (acceptSession env.config address garbage t) Handled.Fine := by
  have hnew : Returns (Session.new env.config address garbage t) Session.Quotable := by
    refine .bind (cstr_plain (plain_strncpy henv.initPath)) fun root hroot => .pure ?_
    have hnone : Plain [] := by decide
    exact ⟨hroot, plain_strncpy henv.initPath, hnone, hnone, hnone⟩
  have hset {u : Session} (hu : u.Quotable) : Returns (u.setServerIp env.config) Session.Quotable := by
    have hlan : Session.Quotable {u with serverIp := strncpy ipLen env.config.serverLanIp} :=
      ⟨hu.rootPath, hu.curPath, hu.fileName, plain_strncpy henv.lanIp, hu.username⟩
    have hwan : Session.Quotable {u with serverIp := strncpy ipLen env.config.serverWanIp} :=
      ⟨hu.rootPath, hu.curPath, hu.fileName, plain_strncpy henv.wanIp, hu.username⟩
    unfold Session.setServerIp
    dsimp only
    split
    · exact .ok hlan
    · split
      · exact .ok hlan
      · split
        · refine .bind_any fun octet => .pure ?_
          split
          · exact hlan
          · exact hwan
        · exact .ok hwan
  refine .bind hnew fun u hu => .bind (P := Handled.Fine) (.bind (hset hu) fun v hv => .pure (fixed_fine hv (by decide))) ?_
  exact fun h hh => .pure ⟨hh.1.same rfl, hh.2⟩

end

end HyperTransfer
