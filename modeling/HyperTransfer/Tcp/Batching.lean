import HyperTransfer.Tcp.Upload

/-! How the bytes of an upload are put into tasks.

A read is taken in while at most `FILEBUFWTIRESIZE` bytes are held, and what it makes longer
than that is handed over at once. The mark and the size of the buffer are one read apart, so
the buffer is never overrun, the program never stops itself, and no byte is lost or sent
twice (`batching_exact`). -/
namespace HyperTransfer
open CString History

/-- A read of an upload that goes on: bytes, or an error that is to be tried again. -/
def DataReadResult.goesOn : DataReadResult → Bool
  | .eof _ => false
  | .failed again => again
  | .read _ _ _ => true

/-- The bytes a read brings. -/
def ClientEvent.bytes : ClientEvent → List Char
  | .callback (.dataRead (.read bytes _ _)) => bytes
  | _ => []

def brought (e : ClientEdge) : List Char := e.input.bytes

def readEvent (r : DataReadResult) : ClientEvent := .callback (.dataRead r)

/-- The reads of one data connection, and its end where it is seen. -/
def reading (reads : List DataReadResult) (ended : Bool) : List ClientEvent :=
  reads.map readEvent ++ if ended then [readEvent (.eof false)] else []

/-- What has been handed over and what is held is what was read, in order. -/
def Conserved (past : List ClientEdge) (c : Client) : Prop :=
  past.flatMap handedOver ++ c.fileBuffer = past.flatMap brought

/-- The client after the reads of `past`, which found an empty buffer. -/
structure Batched (past : List ClientEdge) (c : Client) : Prop where
  connected : c.dataFd.isSome = true
  fits : c.fileBuffer.length ≤ fileBufWriteSize
  all : Conserved past c

/-- The tasks of a step fit their buffers, and those that do not end the upload are longer
than the mark. -/
def Batches (e : ClientEdge) : Prop :=
  ∀ t ∈ uploads e, t.payload.length ≤ fileBufSize ∧ (t.action = .storing → fileBufWriteSize < t.payload.length)

/-- A step loses nothing and holds what fits the buffer, and nothing after the end. -/
def Exact (now : List ClientEdge) (e : ClientEdge) : Prop :=
  Batches e ∧ ∃ d, e.after = some d ∧ d.fileBuffer.length ≤ fileBufSize ∧ Conserved (now ++ [e]) d ∧
    (e.input = readEvent (.eof false) → d.fileBuffer = [])

section
variable {c : Client} {past : List ClientEdge} {r : DataReadResult}

/-- The program does not stop itself as long as the buffer is not past the mark. -/
theorem dataRead_returns (hbuffer : c.fileBuffer.length ≤ fileBufWriteSize) (r : DataReadResult) :
    ∃ p, c.dataRead r = .ok p := by
  have hmark : fileBufWriteSize + dataSize = fileBufSize := rfl
  unfold Client.dataRead
  cases r with
  | eof again =>
    cases again with
    | true => exact ⟨_, rfl⟩
    | false =>
      refine ⟨_, bind_eq_ok.mpr ⟨_, setNewFileBuffer_eq_ok.mpr ⟨rfl, ?_⟩, rfl⟩⟩
      omega
  | failed again => cases again <;> exact ⟨_, rfl⟩
  | read bytes pos le =>
    have hlength : (c.copyData bytes).fileBuffer.length = c.fileBuffer.length + bytes.length := List.length_append
    dsimp only
    rw [if_neg (Nat.not_lt.mpr hbuffer)]
    split
    · exact ⟨_, rfl⟩
    · refine ⟨_, bind_eq_ok.mpr ⟨_, setNewFileBuffer_eq_ok.mpr ⟨rfl, ?_⟩, rfl⟩⟩
      omega

/-- A read that is due leaves a client, with its data connection where the upload goes on. -/
theorem read_step (cfg : Config) (hfd : c.dataFd.isSome = true) (hbuffer : c.fileBuffer.length ≤ fileBufWriteSize)
    (r : DataReadResult) :
    ∃ d es, (tcpClient cfg).step (readEvent r) (some c) = .ok (some d, es) ∧
      (r.goesOn = true → d.dataFd.isSome = true) := by
  obtain ⟨p, hp⟩ := dataRead_returns hbuffer r
  have hstep : c.handle cfg (readEvent r) = .ok (some p.1, p.2) := by
    rw [readEvent, handle_dataRead hfd, hp]
    rfl
  refine ⟨p.1, p.2, hstep, fun hgoes => ?_⟩
  cases dataRead_cases hp with
  | ended => exact nomatch hgoes
  | failed => exact nomatch hgoes
  | _ => exact hfd

theorem bytes_length (r : DataReadResult) : (readEvent r).bytes.length ≤ dataSize := by
  cases r with
  | read bytes pos le => exact le
  | _ => exact Nat.zero_le _

/-- On an open connection a read brings what the system gives. -/
theorem received_bytes (hfd : c.dataFd.isSome = true) (s : Option Client) (es : List NetEffect) (r : DataReadResult) :
    received ⟨some c, readEvent r, s, es⟩ = (readEvent r).bytes := by
  cases r with
  | read bytes pos le => exact if_pos hfd
  | _ => rfl

theorem conserved_step {e : ClientEdge} {d : Client} (hpast : Conserved past c)
    (he : handedOver e ++ d.fileBuffer = c.fileBuffer ++ brought e) : Conserved (past ++ [e]) d := by
  unfold Conserved at *
  rw [List.flatMap_append, List.flatMap_append, List.flatMap_singleton, List.flatMap_singleton, List.append_assoc, he,
    ← List.append_assoc, hpast]

theorem batched_step (cfg : Config) (hbefore : Batched past c) (hr : r.goesOn = true ∨ r = .eof false) : ∃ d es,
    (tcpClient cfg).step (readEvent r) (some c) = .ok (some d, es) ∧ Exact past ⟨some c, readEvent r, some d, es⟩ ∧
      (r.goesOn = true → Batched (past ++ [⟨some c, readEvent r, some d, es⟩]) d) := by
  have hmark : fileBufWriteSize + dataSize = fileBufSize := rfl
  have hbuffer := hbefore.fits
  have hbytes := bytes_length r
  obtain ⟨d, es, hstep, hopen⟩ := read_step cfg hbefore.connected hbefore.fits r
  refine ⟨d, es, hstep, ?_⟩
  have hfound := upload_step (e := ⟨some c, readEvent r, some d, es⟩) hstep rfl
  rw [received_bytes hbefore.connected] at hfound
  rcases hfound with ⟨hnone, hkept, hadds⟩ | ⟨t, d', hposts, _, hafter, hempty, hwhole, haction⟩
  · have hd := hadds d rfl
    have hfits : d.fileBuffer.length ≤ fileBufWriteSize := by
      rw [hd, List.length_append]
      cases r with
      | read bytes pos le =>
        simp only [handsOver, readEvent, Option.any_some, Client.handsOver, hbefore.connected, Bool.true_and,
          decide_eq_false_iff_not] at hkept
        exact Nat.not_lt.mp hkept
      | _ => exact hbuffer
    have hall : Conserved (past ++ [⟨some c, readEvent r, some d, es⟩]) d := by
      apply conserved_step hbefore.all
      rw [handedOver, hnone, hd]
      rfl
    refine ⟨⟨fun t ht => ?_, d, rfl, by omega, hall, fun hend => ?_⟩, fun hgoes => ⟨hopen hgoes, hfits, hall⟩⟩
    · rw [hnone] at ht
      cases ht
    · -- on an open connection the end hands over
      cases hend
      simp [handsOver, readEvent, Client.handsOver, hbefore.connected] at hkept
  · cases hafter
    have hall : Conserved (past ++ [⟨some c, readEvent r, some d, es⟩]) d := by
      apply conserved_step hbefore.all
      rw [handedOver, hposts, List.flatMap_singleton, hwhole, hempty, List.append_nil]
      rfl
    have hnothing : d.fileBuffer.length = 0 := congrArg List.length hempty
    refine ⟨⟨fun t' ht' => ?_, d, rfl, by omega, hall, fun _ => hempty⟩, fun hgoes => ⟨hopen hgoes, by omega, hall⟩⟩
    rw [hposts] at ht'
    rw [List.mem_singleton.mp ht']
    refine ⟨?_, haction⟩
    rw [hwhole, List.length_append]
    omega

theorem reads_exact (cfg : Config) {reads : List DataReadResult} (hbefore : Batched past c) (hpast : Always Exact past)
    (hreads : ∀ r ∈ reads, r.goesOn = true) :
    ((tcpClient cfg).trace (some c) (reads.map readEvent)).length = (reads.map readEvent).length ∧
      Always Exact (past ++ (tcpClient cfg).trace (some c) (reads.map readEvent)) ∧
      ∃ d, (tcpClient cfg).final (some c) (reads.map readEvent) = some d ∧
        Batched (past ++ (tcpClient cfg).trace (some c) (reads.map readEvent)) d := by
  induction reads generalizing past c with
  | nil =>
    rw [List.map_nil, Machine.trace, List.append_nil]
    exact ⟨rfl, hpast, c, rfl, hbefore⟩
  | cons r reads ih =>
    obtain ⟨hr, hreads⟩ := List.forall_mem_cons.mp hreads
    obtain ⟨d, es, hstep, hexact, hbatched⟩ := batched_step cfg hbefore (Or.inl hr)
    obtain ⟨hlength, hall, v, hfinal, hv⟩ := ih (hbatched hr) (always_append.mpr ⟨hpast, hexact⟩) hreads
    rw [List.append_assoc] at hall hv
    rw [List.map_cons, Machine.trace_ok hstep, Machine.final_ok hstep]
    exact ⟨congrArg (· + 1) hlength, hall, v, hfinal, hv⟩

end

/-- **Uploads are batched exactly**: the reads of a data connection that found the buffer empty
are all handled, no task and no buffer is too long, no task but the last is short, and the
bytes handed over and held are those read, all of them handed over once the end is seen. -/
theorem batching_exact (cfg : Config) (c : Client) (hfd : c.dataFd.isSome = true) (hempty : c.fileBuffer = [])
    (reads : List DataReadResult) (hreads : ∀ r ∈ reads, r.goesOn = true) (ended : Bool) :
    ((tcpClient cfg).trace (some c) (reading reads ended)).length = (reading reads ended).length ∧
      Always Exact ((tcpClient cfg).trace (some c) (reading reads ended)) := by
  have hstart : Batched [] c := by
    refine ⟨hfd, ?_, ?_⟩
    · rw [hempty]
      exact Nat.zero_le _
    · rw [Conserved, hempty]
      rfl
  obtain ⟨hlength, hall, d, hfinal, hd⟩ := reads_exact cfg hstart (fun _ _ _ h => by simp at h) hreads
  rw [List.nil_append] at hall hd
  cases ended with
  | false =>
    rw [reading, if_neg Bool.false_ne_true, List.append_nil]
    exact ⟨hlength, hall⟩
  | true =>
    obtain ⟨v, es, hstep, hexact, _⟩ := batched_step cfg hd (Or.inr rfl)
    rw [reading, if_pos rfl, Machine.trace_append hlength, hfinal, Machine.trace_ok hstep, Machine.trace,
      List.length_append, List.length_append, hlength]
    exact ⟨rfl, always_append.mpr ⟨hall, hexact⟩⟩

/-- A client with a data connection that nothing has come from yet. -/
def connectedClient : Client := {Client.new 0 7 with listenFd := some 9, acceptPending := true, dataFd := some 10}

theorem batching_exact_small :
    Always Exact ((tcpClient Env.shipped.config).trace (some connectedClient)
      (reading [.read "ab".toList (by decide) (by decide), .failed true, .read "c".toList (by decide) (by decide)] true)) :=
  (batching_exact Env.shipped.config connectedClient rfl rfl _ (by decide) true).2

end HyperTransfer
