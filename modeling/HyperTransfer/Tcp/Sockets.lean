import HyperTransfer.Session.Commands
import HyperTransfer.Tcp.Events

/-! The descriptors of a client's data connections.

`PASV` opens a listening socket for every port it tries, a data connection brings another
descriptor, and `clear_datafd` closes the two that the client's object knows. The setters
overwrite what the fields hold, so a descriptor is lost wherever a field that is in use is
set, and where `listen` fails (`sockets_owned_iff`). -/
namespace HyperTransfer

/-- What the calls of one `get_free_port` bring: no socket, one that cannot be bound or has no
name and is closed again, one that cannot listen, or a socket that listens on a port. -/
inductive PortCall where
  | noSocket
  | unbound (fd : Fd)
  | unheard (fd : Fd)
  | listens (fd : Fd) (port : Int)
deriving DecidableEq

/-- What concerns a client's data connections: a `PASV` notification with what each
`get_free_port` brings, a connection to be accepted, and a call of `clear_datafd`, be it for a
transfer that is over, for the end or an error of the data connection or by the destructor. -/
inductive SocketEvent where
  | pasv (calls : List PortCall)
  | dataAccept (r : Option Fd)
  | clearDatafd
deriving DecidableEq

/-- A client, and the descriptors the system has open for its data connections. -/
structure DataSockets where
  client : Client
  opened : List Fd

namespace DataSockets

def new (address : Nat) (fd : Fd) : DataSockets := {client := .new address fd, opened := []}

/-- One `get_free_port`: the port, or none for `-1`. A number that is open is not given out. -/
def tryPort (s : DataSockets) : PortCall → Option Int × DataSockets
  | .noSocket => (none, s)
  | .unbound _ => (none, s)
  | .unheard fd => if fd ∈ s.opened then (none, s) else (none, {s with opened := fd :: s.opened})
  | .listens fd port =>
    if fd ∈ s.opened then (none, s)
    else (some port, {client := {s.client with listenFd := some fd}, opened := fd :: s.opened})

/-- `get_free_port` until the port is in range. -/
def getFreePort (cfg : Config) : List PortCall → DataSockets → Option Int × DataSockets
  | [], s => (none, s)
  | r :: rest, s =>
    match s.tryPort r with
    | (none, s) => (none, s)
    | (some port, s) => if port < cfg.startPort ∨ port > cfg.endPort then getFreePort cfg rest s else (some port, s)

/-- `EVENT_NOTIFY_PASV`. -/
def pasv (cfg : Config) (calls : List PortCall) (s : DataSockets) : DataSockets × List NetEffect :=
  match s.getFreePort cfg calls with
  | (none, s) => (s, [])
  | (some port, s) =>
    ({s with client := {s.client with acceptPending := true}},
      [.postToSession {fd := s.client.ctrlSocket, action := .pasv, bufLen := port}])

/-- The accept callback, where its event is pending. -/
def dataAccept (r : Option Fd) (s : DataSockets) : DataSockets × List NetEffect :=
  if !s.client.acceptPending then (s, [])
  else
    match r with
    | none => (s, [])
    | some fd =>
      if fd ∈ s.opened then (s, [])
      else ({client := (s.client.dataAccept (some fd)).1, opened := fd :: s.opened}, (s.client.dataAccept (some fd)).2)

/-- `clear_datafd` closes the two descriptors of the object. -/
def clearDatafd (s : DataSockets) : DataSockets where
  client := s.client.clearDatafd
  opened := s.opened.filter fun fd => s.client.listenFd ≠ some fd && s.client.dataFd ≠ some fd

def handle (cfg : Config) (s : DataSockets) : SocketEvent → DataSockets × List NetEffect
  | .pasv calls => s.pasv cfg calls
  | .dataAccept r => s.dataAccept r
  | .clearDatafd => (s.clearDatafd, [])

end DataSockets

/-- The data connections of one client under a sequence of events. -/
def dataSockets (cfg : Config) : Machine SocketEvent DataSockets NetEffect Halt where
  step i s := .ok (s.handle cfg i)

abbrev SocketEdge := Edge SocketEvent DataSockets NetEffect

/-- Every descriptor that is open is one the object knows. -/
def DataSockets.Owned (s : DataSockets) : Prop :=
  ∀ fd ∈ s.opened, s.client.listenFd = some fd ∨ s.client.dataFd = some fd

/-- The socket of the call takes no field that is in use, and if there is one it can listen. -/
def PortCall.Spares (s : DataSockets) : PortCall → Prop
  | .unheard fd => fd ∈ s.opened
  | .listens fd _ => fd ∉ s.opened → s.client.listenFd = none
  | _ => True

/-- So do all calls that are made. -/
def DataSockets.Spares (cfg : Config) : List PortCall → DataSockets → Prop
  | [], _ => True
  | r :: rest, s =>
    r.Spares s ∧ ∀ port, (s.tryPort r).1 = some port → port < cfg.startPort ∨ port > cfg.endPort →
      Spares cfg rest (s.tryPort r).2

/-- An event of a client that takes no field in use: each `get_free_port` that gets a socket
can listen and finds `listen_fd` unset, and a connection that is accepted finds `data_fd` unset. -/
def SocketEvent.Spares (cfg : Config) (s : DataSockets) : SocketEvent → Prop
  | .pasv calls => s.Spares cfg calls
  | .dataAccept (some fd) => s.client.acceptPending = true → fd ∉ s.opened → s.client.dataFd = none
  | _ => True

/-- The fields hold descriptors that are open, and not the same one. -/
structure DataSockets.Valid (s : DataSockets) : Prop where
  listens : ∀ fd, s.client.listenFd = some fd → fd ∈ s.opened
  connected : ∀ fd, s.client.dataFd = some fd → fd ∈ s.opened
  apart : ∀ fd, s.client.listenFd = some fd → s.client.dataFd ≠ some fd

instance (s : DataSockets) : Decidable s.Owned := inferInstanceAs (Decidable (∀ fd ∈ _, _))

namespace DataSockets
variable {cfg : Config} {s : DataSockets} {r : PortCall} {fd : Fd}

/-! ### The client -/

theorem tryPort_client (s : DataSockets) (r : PortCall) :
    ∃ o : Option (Fd × Int), (s.tryPort r).1 = o.map Prod.snd ∧
      (s.tryPort r).2.client = match o with
        | none => s.client
        | some p => {s.client with listenFd := some p.1} := by
  cases r with
  | noSocket => exact ⟨none, rfl, rfl⟩
  | unbound fd => exact ⟨none, rfl, rfl⟩
  | unheard fd =>
    refine ⟨none, ?_⟩
    dsimp only [tryPort]
    split <;> exact ⟨rfl, rfl⟩
  | listens fd port =>
    dsimp only [tryPort]
    split
    · exact ⟨none, rfl, rfl⟩
    · exact ⟨some (fd, port), rfl, rfl⟩

/-- The client is the one of the event loop, whose `get_free_port` leaves out why it failed. -/
theorem getFreePort_client (cfg : Config) (calls : List PortCall) (s : DataSockets) :
    ∃ ports, s.client.getFreePort cfg ports = ((s.getFreePort cfg calls).1, (s.getFreePort cfg calls).2.client) := by
  induction calls generalizing s with
  | nil => exact ⟨[], rfl⟩
  | cons r rest ih =>
    obtain ⟨o, hport, hclient⟩ := s.tryPort_client r
    unfold getFreePort
    cases htry : s.tryPort r with
    | mk port t =>
      rw [htry] at hport hclient
      cases o with
      | none =>
        have hport : port = none := hport
        have hclient : t.client = s.client := hclient
        subst hport
        exact ⟨[none], by rw [hclient]; rfl⟩
      | some p =>
        obtain ⟨fd, number⟩ := p
        have hport : port = some number := hport
        have hkept : t.client = {s.client with listenFd := some fd} := hclient
        subst hport
        obtain ⟨ports, hports⟩ := ih t
        refine ⟨some (fd, number) :: ports, ?_⟩
        unfold Client.getFreePort
        dsimp only
        rw [← hkept]
        split
        · exact hports
        · rfl

/-! ### One try -/

theorem valid_open (h : s.Valid) (hfd : fd ∉ s.opened) :
    Valid {client := {s.client with listenFd := some fd}, opened := fd :: s.opened} := by
  refine ⟨fun d hd => ?_, fun d hd => List.mem_cons_of_mem _ (h.connected d hd), fun d hd hdata => ?_⟩
  · cases hd
    exact List.mem_cons_self ..
  · cases hd
    exact hfd (h.connected fd hdata)

theorem tryPort_valid (h : s.Valid) (r : PortCall) : (s.tryPort r).2.Valid := by
  cases r with
  | noSocket => exact h
  | unbound fd => exact h
  | unheard fd =>
    dsimp only [tryPort]
    split
    · exact h
    · exact ⟨fun d hd => List.mem_cons_of_mem _ (h.listens d hd), fun d hd => List.mem_cons_of_mem _ (h.connected d hd),
        h.apart⟩
  | listens fd port =>
    dsimp only [tryPort]
    split
    · exact h
    · exact valid_open h ‹_›

/-- A new descriptor put into a field: the one that was there is still open, and no field holds it. -/
theorem field_taken {opened : List Fd} {field other : Option Fd} (hopen : ∀ d, field = some d → d ∈ opened)
    (hapart : ∀ d, field = some d → other ≠ some d) (howned : ∀ d ∈ opened, field = some d ∨ other = some d)
    (hnew : fd ∉ opened) : (∀ d ∈ fd :: opened, some fd = some d ∨ other = some d) ↔ field = none := by
  constructor
  · intro hall
    cases hfield : field with
    | none => rfl
    | some old =>
      rcases hall old (List.mem_cons_of_mem _ (hopen old hfield)) with hsame | hother
      · cases hsame
        exact absurd (hopen fd hfield) hnew
      · exact absurd hother (hapart old hfield)
  · intro hnone d hd
    rcases List.mem_cons.mp hd with rfl | hd
    · exact Or.inl rfl
    · rcases howned d hd with hfield | hother
      · exact nomatch hnone.symm.trans hfield
      · exact Or.inr hother

theorem tryPort_owned (h : s.Valid) (howned : s.Owned) (r : PortCall) : (s.tryPort r).2.Owned ↔ r.Spares s := by
  cases r with
  | noSocket => exact iff_of_true howned trivial
  | unbound fd => exact iff_of_true howned trivial
  | unheard fd =>
    dsimp only [tryPort, PortCall.Spares]
    split
    · exact iff_of_true howned ‹_›
    · rename_i hfd
      refine iff_of_false (fun hall => ?_) hfd
      rcases hall fd (List.mem_cons_self ..) with hlisten | hdata
      · exact hfd (h.listens fd hlisten)
      · exact hfd (h.connected fd hdata)
  | listens fd port =>
    dsimp only [tryPort, PortCall.Spares]
    split
    · rename_i hfd
      exact iff_of_true howned fun hnot => absurd hfd hnot
    · rename_i hfd
      refine Iff.trans ?_ (forall_prop_of_true hfd).symm
      exact field_taken h.listens h.apart howned hfd

/-- What is lost stays lost. -/
theorem tryPort_lost (hlost : ¬ s.Owned) (r : PortCall) : ¬ (s.tryPort r).2.Owned := by
  unfold Owned at hlost
  push Not at hlost
  obtain ⟨old, hopen, hlisten, hdata⟩ := hlost
  cases r with
  | noSocket => exact fun hall => (hall old hopen).elim hlisten hdata
  | unbound fd => exact fun hall => (hall old hopen).elim hlisten hdata
  | unheard fd =>
    dsimp only [tryPort]
    split
    · exact fun hall => (hall old hopen).elim hlisten hdata
    · exact fun hall => (hall old (List.mem_cons_of_mem _ hopen)).elim hlisten hdata
  | listens fd port =>
    dsimp only [tryPort]
    split
    · exact fun hall => (hall old hopen).elim hlisten hdata
    · rename_i hfd
      refine fun hall => (hall old (List.mem_cons_of_mem _ hopen)).elim (fun hnew => ?_) hdata
      cases hnew
      exact hfd hopen

/-! ### The loop -/

theorem getFreePort_kept (cfg : Config) {P : DataSockets → Prop} (hstep : ∀ s r, P s → P (s.tryPort r).2) (calls : List PortCall)
    {s : DataSockets} (h : P s) : P (s.getFreePort cfg calls).2 := by
  induction calls generalizing s with
  | nil => exact h
  | cons r rest ih =>
    have hnext := hstep s r h
    unfold getFreePort
    cases htry : s.tryPort r with
    | mk port t =>
      rw [htry] at hnext
      cases port with
      | none => exact hnext
      | some port =>
        dsimp only
        split
        · exact ih hnext
        · exact hnext

theorem getFreePort_owned (calls : List PortCall) (h : s.Valid) (howned : s.Owned) :
    (s.getFreePort cfg calls).2.Owned ↔ s.Spares cfg calls := by
  induction calls generalizing s with
  | nil => exact iff_of_true howned trivial
  | cons r rest ih =>
    have hvalid := tryPort_valid h r
    have hfirst := tryPort_owned h howned r
    unfold getFreePort Spares
    cases htry : s.tryPort r with
    | mk port t =>
      rw [htry] at hvalid hfirst
      rw [← hfirst]
      cases port with
      | none => exact (and_iff_left fun port hport => nomatch hport).symm
      | some port =>
        dsimp only
        split
        · rename_i hrejected
          constructor
          · intro hall
            have ht : t.Owned := by
              by_contra hlost
              exact getFreePort_kept cfg (P := fun s => ¬ s.Owned) (fun s r hs => tryPort_lost hs r) rest hlost hall
            exact ⟨ht, fun _ _ _ => (ih hvalid ht).mp hall⟩
          · intro hspares
            exact (ih hvalid hspares.1).mpr (hspares.2 port rfl hrejected)
        · rename_i htaken
          refine (and_iff_left fun port' hport hrejected => ?_).symm
          cases hport
          exact absurd hrejected htaken

/-! ### Events -/

/-- The client does what it does in the event loop, for a notification or a callback, or
clears its data connection. -/
theorem handle_client (cfg : Config) (s : DataSockets) (i : SocketEvent) :
    (∃ j, s.client.handle cfg j = .ok (some (s.handle cfg i).1.client, (s.handle cfg i).2)) ∨
      i = .clearDatafd ∧ (s.handle cfg i).1.client = s.client.clearDatafd := by
  cases i with
  | clearDatafd => exact Or.inr ⟨rfl, rfl⟩
  | pasv calls =>
    obtain ⟨ports, hports⟩ := getFreePort_client cfg calls s
    refine Or.inl ⟨.notify {fd := s.client.ctrlSocket, action := .pasv} ports, ?_⟩
    have hkept := getFreePort_eq cfg ports s.client
    rw [handle_notify, Client.onNotify]
    show _ = Except.ok (some (s.pasv cfg calls).1.client, (s.pasv cfg calls).2)
    unfold pasv
    dsimp only
    rw [hports] at hkept ⊢
    obtain ⟨fd, hkept⟩ := hkept
    cases hloop : s.getFreePort cfg calls with
    | mk port t =>
      rw [hloop] at hkept
      cases port with
      | none => rfl
      | some port =>
        have hsocket : t.client.ctrlSocket = s.client.ctrlSocket := congrArg (fun c => c.ctrlSocket) hkept
        dsimp only
        rw [hsocket]
  | dataAccept r =>
    apply Or.inl
    show ∃ j, _ = Except.ok (some (s.dataAccept r).1.client, (s.dataAccept r).2)
    unfold dataAccept
    cases hpending : s.client.acceptPending with
    | false => exact ⟨.callback (.dataAccept none), handle_idle hpending⟩
    | true =>
      cases r with
      | none => exact ⟨.callback (.dataAccept none), handle_dataAccept hpending none⟩
      | some fd =>
        dsimp only
        rw [Bool.not_true, if_neg Bool.false_ne_true]
        split
        · exact ⟨.callback (.dataAccept none), handle_dataAccept hpending none⟩
        · exact ⟨.callback (.dataAccept (some fd)), handle_dataAccept hpending (some fd)⟩

theorem pasv_fields (cfg : Config) (calls : List PortCall) (s : DataSockets) :
    (s.pasv cfg calls).1.opened = (s.getFreePort cfg calls).2.opened ∧
      (s.pasv cfg calls).1.client.listenFd = (s.getFreePort cfg calls).2.client.listenFd ∧
      (s.pasv cfg calls).1.client.dataFd = (s.getFreePort cfg calls).2.client.dataFd := by
  unfold pasv
  split
  · rename_i h
    rw [h]
    exact ⟨rfl, rfl, rfl⟩
  · rename_i h
    rw [h]
    exact ⟨rfl, rfl, rfl⟩

theorem handle_valid (h : s.Valid) (i : SocketEvent) : (s.handle cfg i).1.Valid := by
  cases i with
  | clearDatafd =>
    obtain ⟨hlisten, hdata⟩ := clearDatafd_fields s.client
    refine ⟨fun fd hfd => ?_, fun fd hfd => ?_, fun fd hfd => ?_⟩
    · exact nomatch hlisten.symm.trans hfd
    · exact nomatch hdata.symm.trans hfd
    · exact nomatch hlisten.symm.trans hfd
  | pasv calls =>
    have hloop := getFreePort_kept cfg (P := Valid) (fun s r hs => tryPort_valid hs r) calls h
    obtain ⟨hopened, hlisten, hdata⟩ := pasv_fields cfg calls s
    show (s.pasv cfg calls).1.Valid
    refine ⟨?_, ?_, ?_⟩
    · rw [hopened, hlisten]
      exact hloop.listens
    · rw [hopened, hdata]
      exact hloop.connected
    · rw [hlisten, hdata]
      exact hloop.apart
  | dataAccept r =>
    show (s.dataAccept r).1.Valid
    unfold dataAccept
    split
    · exact h
    · split
      · exact h
      · rename_i fd
        split
        · exact h
        · rename_i hnew
          refine ⟨fun d hd => List.mem_cons_of_mem _ (h.listens d hd), fun d hd => ?_, fun d hlisten hd => ?_⟩
          · cases hd
            exact List.mem_cons_self ..
          · cases hd
            exact hnew (h.listens fd hlisten)

theorem handle_owned (h : s.Valid) (howned : s.Owned) (i : SocketEvent) :
    (s.handle cfg i).1.Owned ↔ i.Spares cfg s := by
  cases i with
  | clearDatafd =>
    refine iff_of_true (fun fd hfd => ?_) trivial
    obtain ⟨hopen, hneither⟩ := List.mem_filter.mp hfd
    simp only [ne_eq, decide_not, Bool.and_eq_true, Bool.not_eq_true', decide_eq_false_iff_not] at hneither
    exact absurd (howned fd hopen) fun hfield => hfield.elim hneither.1 hneither.2
  | pasv calls =>
    obtain ⟨hopened, hlisten, hdata⟩ := pasv_fields cfg calls s
    refine Iff.trans ?_ (getFreePort_owned calls h howned)
    show (s.pasv cfg calls).1.Owned ↔ _
    unfold Owned
    rw [hopened, hlisten, hdata]
  | dataAccept r =>
    show (s.dataAccept r).1.Owned ↔ _
    unfold dataAccept
    cases hpending : s.client.acceptPending with
    | false =>
      apply iff_of_true howned
      cases r with
      | none => trivial
      | some fd => exact fun hdue => nomatch hpending.symm.trans hdue
    | true =>
      rw [Bool.not_true, if_neg Bool.false_ne_true]
      cases r with
      | none => exact iff_of_true howned trivial
      | some fd =>
        dsimp only [SocketEvent.Spares]
        split
        · rename_i hopen
          exact iff_of_true howned fun _ hnew => absurd hopen hnew
        · rename_i hnew
          refine Iff.trans ?_ ((forall_prop_of_true hpending).trans (forall_prop_of_true hnew)).symm
          rw [← field_taken h.connected (fun d hd hlisten => h.apart d hlisten hd) (fun d hd => (howned d hd).symm) hnew]
          exact forall₂_congr fun d _ => or_comm

end DataSockets

/-- **The descriptors of the data connections are owned**, exactly where `listen` succeeds, each
`get_free_port` finds `listen_fd` unset, and each connection that is accepted finds `data_fd`
unset. -/
theorem sockets_owned_iff (cfg : Config) (address : Nat) (fd : Fd) (inputs : List SocketEvent) :
    (∀ s ∈ (dataSockets cfg).states (.new address fd) inputs, s.Owned) ↔
      ∀ e ∈ (dataSockets cfg).trace (.new address fd) inputs, e.input.Spares cfg e.before := by
  have hstart : (DataSockets.new address fd).Valid ∧ (DataSockets.new address fd).Owned :=
    ⟨⟨nofun, nofun, nofun⟩, fun d hd => nomatch hd⟩
  have hafter {e : SocketEdge} (h : (dataSockets cfg).Takes e) : (e.before.handle cfg e.input).1 = e.after :=
    congrArg Prod.fst (Except.ok.inj h)
  have hvalid : ∀ s ∈ (dataSockets cfg).states (.new address fd) inputs, s.Valid :=
    Machine.invariant_states (fun _ => True) hstart.1
      (fun e h _ hv => hafter h ▸ DataSockets.handle_valid hv e.input) (fun _ _ => trivial)
  rw [← Machine.invariant_iff (P := fun s => s.Valid ∧ s.Owned) hstart fun e h hb => ?_]
  · exact forall₂_congr fun s hs => (and_iff_right (hvalid s hs)).symm
  · rw [← hafter h, and_iff_right (DataSockets.handle_valid hb.1 e.input)]
    exact DataSockets.handle_owned hb.1 hb.2 e.input

/-- Each of them loses a descriptor: a second `PASV`, a port that is not in range, and a second
connection to the listening socket. -/
theorem sockets_lost :
    (¬ ∀ s ∈ (dataSockets Env.shipped.config).states (.new 0 7)
      [.pasv [.listens 9 2024], .pasv [.listens 10 2025], .clearDatafd], s.Owned) ∧
    (¬ ∀ s ∈ (dataSockets Env.shipped.config).states (.new 0 7)
      [.pasv [.listens 9 1023, .listens 10 2025], .clearDatafd], s.Owned) ∧
    ¬ ∀ s ∈ (dataSockets Env.shipped.config).states (.new 0 7)
      [.pasv [.listens 9 2024], .dataAccept (some 10), .dataAccept (some 11), .clearDatafd], s.Owned := by
  decide +kernel

end HyperTransfer
