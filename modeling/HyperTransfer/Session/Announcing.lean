import HyperTransfer.Lib.Numerals
import HyperTransfer.Tcp.Events
import HyperTransfer.Session.Naming

/-! The address a passive reply announces.

The reply to `PASV` spells the server's address and the port the network side listens on as
six numbers. They are the ones a client reads back (`pasv_reply_decodes`), whatever the
address and the port; but the ends of the range of ports are taken by the network side and
refused by the session (`pasv_agrees_iff`), which then knows nothing of the listener. -/
namespace HyperTransfer
open CString Numerals

/-- `PASV_RET_IPLEN`. -/
abbrev pasvRetIpLen : Nat := 17

/-- `host_ip`: commas in the place of the dots, and one more. -/
def pasvHost (serverIp : List Char) : List Char := serverIp.map (fun c => if c != '.' then c else ',') ++ [',']

/-- `port`, as `snprintf` leaves it. -/
def pasvPart (n : Int) : List Char := (decimal n).take (portPartLen - 1)

/-- The parts of the reply. -/
def pasvParts (serverIp : List Char) (port : Int) : List (List Char) :=
  ["227 Entering Passive Mode (".toList, pasvHost serverIp, pasvPart (port >>> (8 : Nat)), ",".toList,
    pasvPart (port % 256), ").\r\n".toList]

/-- An address in dotted-quad text: four numbers up to 255 between dots, in an array of `IPLEN`. -/
structure DottedQuad (ip : List Char) (octets : List Nat) : Prop where
  fits : ip.length < ipLen
  reads : numbers '.' ip = some octets
  four : octets.length = 4
  bytes : ∀ o ∈ octets, o ≤ 255

/-- What a client reads in a passive reply: six numbers between commas inside the one pair of
parentheses of a line. -/
def readPassive (reply : List Char) : Option (List Nat) :=
  if Session.crlf <:+ reply ∧ reply.count '\r' = 1 ∧ reply.count '\n' = 1 ∧ reply.count '(' = 1 ∧
      reply.count ')' = 1 then
    (numbers ',' (((reply.dropWhile (· != '(')).drop 1).takeWhile (· != ')'))).filter (·.length = 6)
  else none

/-! ### Reading the reply back -/

section
variable {cfg : Config} {s : Session} {ip : List Char} {octets : List Nat} {port : Nat}

theorem answer_effects (s : Session) (text : List Char) :
    (s.answer text).effects = [.post (strncpy commandSize text) (strncpy commandSize text).length] := rfl

theorem runPasv_range {port : Int} (hport : cfg.startPort < port ∧ port < cfg.endPort) :
    runPasv cfg s port = (do
      let serverIp ← s.getServerIp
      return s.answer (← compose (pasvParts serverIp port))) := if_pos hport

theorem pasvParts_length (hip : s.serverIp.length < ipLen) (port : Int) :
    (pasvParts s.serverIp port).flatten.length < commandSize := by
  have hip : s.serverIp.length < 16 := hip
  have hpart : portPartLen = 4 := rfl
  have htexts : "227 Entering Passive Mode (".toList.length = 27 ∧ ",".toList.length = 1 ∧
      ").\r\n".toList.length = 4 := by decide
  simp only [pasvParts, pasvHost, pasvPart, List.flatten_cons, List.flatten_nil, List.length_append, List.length_map,
    List.length_take, List.length_singleton, List.length_nil, htexts]
  show _ < 1461
  omega

theorem runPasv_announced {port : Int} (hport : cfg.startPort < port ∧ port < cfg.endPort)
    (hip : s.serverIp.length < ipLen) :
    runPasv cfg s port = .ok (s.answer (pasvParts s.serverIp port).flatten) := by
  rw [runPasv_range hport, Session.getServerIp, cstr_of_lt hip]
  have hcompose : compose (pasvParts s.serverIp port) = .ok (pasvParts s.serverIp port).flatten :=
    (concat_eq_ok (by decide)).mpr ⟨rfl, pasvParts_length hip port⟩
  exact bind_eq_ok.mpr ⟨_, rfl, bind_eq_ok.mpr ⟨_, hcompose, rfl⟩⟩

/-- A byte has at most three digits. -/
theorem decimal_byte {n : Nat} (h : n ≤ 255) : (decimal n).length < portPartLen :=
  Nat.lt_succ_of_le ((decimal_natCast_length (by decide)).mpr (by omega))

theorem pasvPart_byte {n : Nat} (h : n ≤ 255) : pasvPart n = Nat.toDigits 10 n := by
  rw [pasvPart, List.take_of_length_le (Nat.le_sub_one_of_lt (decimal_byte h)), decimal_natCast]

theorem shiftRight_byte (port : Nat) : ((port : Int) >>> (8 : Nat)) = ((port / 256 : Nat) : Int) := by
  rw [Int.shiftRight_eq_div_pow]
  rfl

/-- The text between the parentheses. -/
def pasvBody (ip : List Char) (port : Nat) : List Char :=
  pasvHost ip ++ (Nat.toDigits 10 (port / 256) ++ ',' :: Nat.toDigits 10 (port % 256))

theorem pasvParts_flatten (hmax : port ≤ 65535) : (pasvParts ip port).flatten =
    "227 Entering Passive Mode (".toList ++ (pasvBody ip port ++ ").\r\n".toList) := by
  have hlow : ((port : Int) % 256) = ((port % 256 : Nat) : Int) := rfl
  rw [pasvParts, shiftRight_byte, hlow, pasvPart_byte (by omega), pasvPart_byte (by omega)]
  simp only [List.flatten_cons, List.flatten_nil, pasvBody, List.append_assoc, List.append_nil]
  rfl

theorem numbers_body (hip : DottedQuad ip octets) (port : Nat) :
    numbers ',' (pasvBody ip port) = some (octets ++ [port / 256, port % 256]) := by
  have hhost : numbers ',' (ip.map fun c => if c != '.' then c else ',') = some octets :=
    numbers_map (by decide) (by decide) hip.reads
  have hport : numbers ',' (Nat.toDigits 10 (port / 256) ++ ',' :: Nat.toDigits 10 (port % 256)) =
      some ([port / 256] ++ [port % 256]) :=
    numbers_append (numbers_single (by decide) (number_toDigits _)) (numbers_single (by decide) (number_toDigits _))
  rw [pasvBody, pasvHost, List.append_assoc, List.singleton_append]
  exact numbers_append hhost hport

/-- What stands between the parentheses is read. -/
theorem readPassive_body {body : List Char} {ns : List Nat} (hbody : numbers ',' body = some ns)
    (hsix : ns.length = 6) :
    readPassive ("227 Entering Passive Mode (".toList ++ (body ++ ").\r\n".toList)) = some ns := by
  have hmem : ∀ c ∈ body, c.isDigit ∨ c = ',' := numbers_mem hbody
  have hcount {c : Char} (hdigit : c.isDigit = false) (hcomma : c ≠ ',') : body.count c = 0 := by
    rw [List.count_eq_zero]
    intro hc
    rcases hmem c hc with h | h
    · exact nomatch hdigit.symm.trans h
    · exact hcomma h
  have hopen : "227 Entering Passive Mode ".toList.all (· != '(') = true := by decide
  have hclose : ∀ c ∈ body, (c != ')') = true := by
    intro c hc
    rw [bne_iff_ne]
    rintro rfl
    rcases hmem _ hc with h | h
    · exact nomatch h
    · exact nomatch h
  have hinside :
      (((("227 Entering Passive Mode (".toList ++ (body ++ ").\r\n".toList)).dropWhile (· != '(')).drop 1).takeWhile
        (· != ')')) = body := by
    have hdrop : ("227 Entering Passive Mode (".toList ++ (body ++ ").\r\n".toList)).dropWhile (· != '(') =
        '(' :: (body ++ ").\r\n".toList) := by
      have hwords : "227 Entering Passive Mode (".toList = "227 Entering Passive Mode ".toList ++ ['('] := by decide
      rw [hwords, List.append_assoc, List.dropWhile_append_of_pos (List.all_eq_true.mp hopen)]
      rfl
    rw [hdrop, List.drop_one, List.tail_cons, List.takeWhile_append_of_pos hclose]
    exact List.append_nil body
  unfold readPassive
  rw [if_pos, hinside, hbody, Option.filter_some, if_pos (by simpa using hsix)]
  simp only [List.count_append]
  rw [hcount (by decide) (by decide), hcount (by decide) (by decide), hcount (by decide) (by decide),
    hcount (by decide) (by decide)]
  refine ⟨?_, by decide, by decide, by decide, by decide⟩
  exact ⟨"227 Entering Passive Mode (".toList ++ (body ++ ").".toList), by simp [Session.crlf]⟩

/-- **Announcement.** The reply to a port of the range fits its arrays and reads as the server's
address and the port. -/
theorem pasv_reply_decodes (cfg : Config) (s : Session) (octets : List Nat) (port : Nat)
    (hip : DottedQuad s.serverIp octets) (hport : cfg.startPort < port ∧ port < cfg.endPort) (hmax : port ≤ 65535) :
    (pasvHost s.serverIp).length < pasvRetIpLen ∧ (decimal ((port : Int) >>> (8 : Nat))).length < portPartLen ∧
      (decimal ((port : Int) % 256)).length < portPartLen ∧
      ∃ h reply, runPasv cfg s port = .ok h ∧ h.effects = [.post reply reply.length] ∧
        reply.length < commandSize ∧
        ∃ p1 p2, readPassive reply = some (octets ++ [p1, p2]) ∧ p1 * 256 + p2 = port := by
  have hhost : (pasvHost s.serverIp).length < pasvRetIpLen := by
    have hfits : s.serverIp.length < 16 := hip.fits
    rw [pasvHost, List.length_append, List.length_map, List.length_singleton]
    show _ < 17
    omega
  have hhigh : (decimal ((port : Int) >>> (8 : Nat))).length < portPartLen := by
    rw [shiftRight_byte]
    exact decimal_byte (by omega)
  have hlow : (decimal ((port : Int) % 256)).length < portPartLen := decimal_byte (n := port % 256) (by omega)
  refine ⟨hhost, hhigh, hlow, ?_⟩
  have hreply := pasvParts_length hip.fits port
  refine ⟨_, (pasvParts s.serverIp port).flatten, runPasv_announced hport hip.fits, ?_, hreply, port / 256,
    port % 256, ?_, by omega⟩
  · rw [answer_effects, strncpy_of_le (Nat.le_of_lt hreply)]
  · rw [pasvParts_flatten hmax]
    apply readPassive_body (numbers_body hip port)
    rw [List.length_append, hip.four]
    rfl

/-- An address of fifteen characters. -/
theorem pasv_reply_decodes_long :
    ∃ cfg h, acceptSession cfg 0 [] (.accept 7 "8.8.8.8".toList) = .ok h ∧
      h.session.serverIp = "192.168.100.200".toList ∧
      ∃ g reply, runPasv cfg h.session 65535 = .ok g ∧ g.effects = [.post reply reply.length] ∧
        reply.length < commandSize ∧
        ∃ p1 p2, readPassive reply = some ([192, 168, 100, 200] ++ [p1, p2]) ∧ p1 * 256 + p2 = 65535 := by
  refine ⟨{Env.shipped.config with serverWanIp := "192.168.100.200".toList}, _, rfl, rfl, ?_⟩
  exact (pasv_reply_decodes _ _ [192, 168, 100, 200] 65535 ⟨by decide, by decide, by decide, by decide⟩ (by decide)
    (by decide)).2.2.2

end

/-! ### The port taken -/

/-- The first port in the range, behind ports out of it. -/
def Takes (cfg : Config) (ports : List (Option (Fd × Int))) (port : Int) : Prop :=
  ∃ rejected fd rest, ports = rejected ++ some (fd, port) :: rest ∧
    (∀ p ∈ rejected, ∃ fd port, p = some (fd, port) ∧ (port < cfg.startPort ∨ cfg.endPort < port)) ∧
    cfg.startPort ≤ port ∧ port ≤ cfg.endPort

/-- The session answers 227 and has a port announced. -/
def Session.Announces (env : Env) (fs : FileSystem) (t : SessionTask) (s : Session) : Prop :=
  ∃ h, rollSession env fs t s = .ok h ∧ Replied "227".toList h.effects ∧ h.session.dataAction = .pasvOk

section
variable {env : Env} {cfg : Config} {c d : Client} {s : Session} {t : SessionTask} {n : EventNotify} {port : Int}
  {ports : List (Option (Fd × Int))}

/-- Ports are tried until one is in the range. -/
theorem getFreePort_takes (h : c.getFreePort cfg ports = (some port, d)) : Takes cfg ports port := by
  induction ports generalizing c with
  | nil => cases h
  | cons p rest ih =>
    cases p with
    | none => cases h
    | some p =>
      obtain ⟨fd, tried⟩ := p
      unfold Client.getFreePort at h
      dsimp only at h
      split at h
      · rename_i hout
        obtain ⟨rejected, fd', rest', hrest, hrejected, hrange⟩ := ih h
        refine ⟨some (fd, tried) :: rejected, fd', rest', by rw [hrest, List.cons_append], ?_, hrange⟩
        intro p hp
        rcases List.mem_cons.mp hp with rfl | hp
        · exact ⟨fd, tried, rfl, hout⟩
        · exact hrejected p hp
      · rename_i hin
        cases h
        refine ⟨[], fd, rest, rfl, ?_, by omega, by omega⟩
        intro p hp
        cases hp

/-- There is one such port. -/
theorem takes_unique {port' : Int} (h : Takes cfg ports port) (h' : Takes cfg ports port') : port = port' := by
  obtain ⟨rejected, fd, rest, rfl, hrejected, hrange⟩ := h
  obtain ⟨rejected', fd', rest', heq, hrejected', hrange'⟩ := h'
  induction rejected generalizing rejected' with
  | nil =>
    cases rejected' with
    | nil =>
      cases heq
      rfl
    | cons q rejected' =>
      obtain ⟨fd'', port'', rfl, hout⟩ := hrejected' q (List.mem_cons_self ..)
      cases heq
      omega
  | cons p rejected ih =>
    cases rejected' with
    | nil =>
      obtain ⟨fd'', port'', rfl, hout⟩ := hrejected p (List.mem_cons_self ..)
      cases heq
      omega
    | cons q rejected' =>
      injection heq with _ heq
      exact ih (fun p hp => hrejected p (List.mem_cons_of_mem _ hp)) rejected' heq
        fun p hp => hrejected' p (List.mem_cons_of_mem _ hp)

/-- The task the network side posts carries the port it took. -/
theorem onNotify_posts (hn : n.action = .pasv) (h : .postToSession t ∈ (c.onNotify cfg ports n).2) :
    t.action = .pasv ∧ Takes cfg ports t.bufLen := by
  rw [Client.onNotify, hn] at h
  dsimp only at h
  cases hport : c.getFreePort cfg ports with
  | mk o d =>
    rw [hport] at h
    cases o with
    | none => exact nomatch h
    | some port =>
      cases List.mem_singleton.mp h
      exact ⟨rfl, getFreePort_takes hport⟩

/-- The session takes the ports between the ends of the range, and needs its own address. -/
theorem announces_iff (fs : FileSystem) (ht : t.action = .pasv) :
    s.Announces env fs t ↔
      (env.config.startPort < t.bufLen ∧ t.bufLen < env.config.endPort) ∧ s.serverIp.length < ipLen := by
  have hroll : rollSession env fs t s = (do
      let h ← runPasv env.config s t.bufLen
      if h.ret = 0 then
        return {h with
          session := (h.session.setAction .waiting).setDataAction .pasvOk
          effects := h.effects ++ [.setDataAction .pasvOk] }
      else return h) := by
    rw [rollSession, ht]
  by_cases hport : env.config.startPort < t.bufLen ∧ t.bufLen < env.config.endPort
  · rw [and_iff_right hport]
    constructor
    · intro hannounces
      obtain ⟨h, hh, _⟩ := hannounces
      rw [hroll, runPasv_range hport] at hh
      obtain ⟨g, hg, _⟩ := bind_eq_ok.mp hh
      obtain ⟨ip, hip, _⟩ := bind_eq_ok.mp hg
      exact (cstr_eq_ok.mp hip).2
    · intro hip
      refine ⟨_, hroll.trans (bind_eq_ok.mpr ⟨_, runPasv_announced hport hip, rfl⟩), ?_, rfl⟩
      obtain ⟨buf, len, hmem, hprefix⟩ := (replied_answer (s := s) (pasvParts s.serverIp t.bufLen).flatten 0
        (by decide : "227".toList.length ≤ commandSize)).mpr ⟨_, rfl⟩
      exact ⟨buf, len, List.mem_append_left _ hmem, hprefix⟩
  · refine iff_of_false (fun hannounces => ?_) fun h => hport h.1
    obtain ⟨h, hh, hreplied, _⟩ := hannounces
    rw [hroll, runPasv, if_neg hport] at hh
    cases hh
    exact absurd ((replied_answer (s := s) _ _ (by decide)).mp hreplied) (by decide)

end

/-- **Ports.** The task of a port the network side has taken is answered with 227 exactly when
the port is at neither end of the range, and the session's own address ends in its array. -/
theorem pasv_agrees_iff (env : Env) (c : Client) (ports : List (Option (Fd × Int))) (n : EventNotify)
    (hn : n.action = .pasv) (t : SessionTask) (hposted : .postToSession t ∈ (c.onNotify env.config ports n).2)
    (fs : FileSystem) (s : Session) :
    s.Announces env fs t ↔
      (¬ Takes env.config ports env.config.startPort ∧ ¬ Takes env.config ports env.config.endPort) ∧
        s.serverIp.length < ipLen := by
  obtain ⟨ht, htakes⟩ := onNotify_posts hn hposted
  rw [announces_iff fs ht]
  apply and_congr_left'
  have hrange := htakes
  obtain ⟨_, _, _, _, _, hlow, hhigh⟩ := hrange
  constructor
  · intro hport
    refine ⟨fun hstart => ?_, fun hend => ?_⟩
    · have := takes_unique htakes hstart
      omega
    · have := takes_unique htakes hend
      omega
  · intro hends
    obtain ⟨hstart, hend⟩ := hends
    have hne : t.bufLen ≠ env.config.startPort := fun h => hstart (h ▸ htakes)
    have hne' : t.bufLen ≠ env.config.endPort := fun h => hend (h ▸ htakes)
    omega

/-- A port inside the range, behind one below it. -/
theorem pasv_agrees_inside :
    ∃ h t, acceptSession Env.shipped.config 0 [] (.accept 7 "10.0.0.9".toList) = .ok h ∧
      .postToSession t ∈ ((Client.new 0 7).onNotify Env.shipped.config [some (8, 1000), some (9, 40000)]
        {fd := 7, action := .pasv}).2 ∧
      h.session.Announces Env.shipped (.constant none) t := by
  have htakes : Takes Env.shipped.config [some (8, 1000), some (9, 40000)] 40000 := by
    refine ⟨[some (8, 1000)], 9, [], rfl, fun p hp => ?_, by decide⟩
    exact ⟨8, 1000, List.mem_singleton.mp hp, Or.inl (by decide)⟩
  refine ⟨_, {fd := 7, action := .pasv, bufLen := 40000}, rfl, by decide, ?_⟩
  refine (pasv_agrees_iff Env.shipped (Client.new 0 7) [some (8, 1000), some (9, 40000)] {fd := 7, action := .pasv} rfl _
    (by decide) (.constant none) _).mpr ⟨⟨fun h => ?_, fun h => ?_⟩, by decide⟩
  · exact absurd (takes_unique htakes h) (by decide)
  · exact absurd (takes_unique htakes h) (by decide)

/-- The lowest port of the shipped range is listened on, and refused to the client. -/
theorem pasv_not_agrees_start :
    ∃ h c t, acceptSession Env.shipped.config 0 [] (.accept 7 "10.0.0.9".toList) = .ok h ∧
      (Client.new 0 7).onNotify Env.shipped.config [some (9, 1024)] {fd := 7, action := .pasv} = (c, [.postToSession t]) ∧
      c.listenFd = some 9 ∧ c.acceptPending = true ∧
      ∃ g, rollSession Env.shipped (.constant none) t h.session = .ok g ∧ Replied "502".toList g.effects ∧
        ¬ Replied "227".toList g.effects ∧ g.session.dataAction = .waiting := by
  refine ⟨_, _, _, rfl, rfl, rfl, rfl, _, rfl, ?_, ?_, rfl⟩
  · exact (replied_answer _ _ (by decide)).mpr (by decide)
  · exact fun h => absurd ((replied_answer _ _ (by decide)).mp h) (by decide)

end HyperTransfer
