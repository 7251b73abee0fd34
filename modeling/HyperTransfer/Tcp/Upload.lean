import HyperTransfer.Lib.History
import HyperTransfer.Session.Commands
import HyperTransfer.Tcp.Events

/-! What a client's uploads are made of.

The bytes read from a data connection are gathered in a buffer of the control connection's
object and handed to the disk threads when it is full and at the end of the file. Nothing is
lost or made up on the way: what a connection found in the buffer and what it brought is what
has been handed over since and what the buffer holds (`Gathered`). So the tasks of a
connection carry its own bytes exactly where it found the buffer empty (`own_bytes_iff`). -/
namespace HyperTransfer
open CString History

def DiskTask.uploads (t : DiskTask) : Bool := t.action = .storing || t.action = .storOk

/-- The task of an upload among the effects. -/
def NetEffect.upload? : NetEffect → Option DiskTask
  | .data (.postToDisk t) => if t.uploads then some t else none
  | _ => none

/-- The tasks `STORING` and `STOR_OK` a step posts. -/
def uploads (e : ClientEdge) : List DiskTask := e.effects.filterMap NetEffect.upload?

def handedOver (e : ClientEdge) : List Char := (uploads e).flatMap DiskTask.payload

/-- The bytes a step reads from the data connection. -/
def received (e : ClientEdge) : List Char :=
  match e.before, e.input with
  | some c, .callback (.dataRead (.read bytes _ _)) => if c.dataFd.isSome then bytes else []
  | _, _ => []

/-- A data connection is accepted: what it finds in the buffer. -/
def connects (e : ClientEdge) : Option (List Char) :=
  match e.before, e.input with
  | some c, .callback (.dataAccept (some _)) => if c.acceptPending then some c.fileBuffer else none
  | _, _ => none

/-- The read callback hands the buffer over: at the end of the file, and where a read fills
it past the mark. -/
def Client.handsOver (c : Client) : ClientEvent → Bool
  | .callback (.dataRead (.eof again)) => c.dataFd.isSome && !again
  | .callback (.dataRead (.read bytes _ _)) =>
    c.dataFd.isSome && decide (fileBufWriteSize < c.fileBuffer.length + bytes.length)
  | _ => false

def handsOver (e : ClientEdge) : Bool := e.before.any fun c => c.handsOver e.input

/-- What the last data connection found in the buffer. -/
def found (past : List ClientEdge) : List Char := (latest connects past).getD []

/-- The steps since the last data connection was accepted. -/
def connection (past : List ClientEdge) : List ClientEdge := since (fun e => (connects e).isSome) past

/-- What has been posted during a data connection, when more is posted, is the beginning of
what was received on it. -/
def OwnBytes (now : List ClientEdge) (e : ClientEdge) : Prop :=
  uploads e ≠ [] →
    (connection now).flatMap handedOver ++ handedOver e <+: (connection now).flatMap received ++ received e

/-- A data connection that hands anything over has found the buffer empty. -/
def FoundEmpty (now : List ClientEdge) (e : ClientEdge) : Prop := handsOver e = true → found now = []

instance (now : List ClientEdge) (e : ClientEdge) : Decidable (OwnBytes now e) := inferInstanceAs (Decidable (_ → _))

instance (now : List ClientEdge) (e : ClientEdge) : Decidable (FoundEmpty now e) :=
  inferInstanceAs (Decidable (_ → _))

/-- What a connection found and what it brought is what was handed over and what is held. -/
def Gathered (past : List ClientEdge) (s : Option Client) : Prop :=
  ∀ c ∈ s, found past ++ (connection past).flatMap received = (connection past).flatMap handedOver ++ c.fileBuffer

section
variable {cfg : Config} {c : Client} {e : ClientEdge}

@[simp] theorem clearDatafd_fileBuffer (c : Client) : c.clearDatafd.fileBuffer = c.fileBuffer := by
  obtain ⟨accept, write, h⟩ := clearDatafd_eq c
  rw [h]

theorem bufferTask_payload (action : DiskTaskAction) (c : Client) : (c.bufferTask action).payload = c.fileBuffer := by
  show c.fileBuffer.take (c.fileBuffer.length : Int).toNat = c.fileBuffer
  rw [Int.toNat_natCast, List.take_length]

/-- A notification has nothing to do with uploads. -/
theorem onNotify_keeps (cfg : Config) (ports : List (Option (Fd × Int))) (n : EventNotify) (c : Client) :
    (c.onNotify cfg ports n).1.fileBuffer = c.fileBuffer ∧
      (c.onNotify cfg ports n).2.filterMap NetEffect.upload? = [] := by
  have hcases := onNotify_cases cfg ports n c
  generalize c.onNotify cfg ports n = r at hcases ⊢
  cases hcases with
  | reply => exact ⟨rfl, rfl⟩
  | port _ _ _ es hes =>
    refine ⟨rfl, List.filterMap_eq_nil_iff.mpr fun x hx => ?_⟩
    obtain ⟨port, rfl⟩ := hes x hx
    rfl
  | transOk => exact ⟨clearDatafd_fileBuffer _, rfl⟩
  | data => exact ⟨rfl, rfl⟩
  | unknown => exact ⟨rfl, rfl⟩

theorem onWrite_keeps (r : WriteResult) (c : Client) :
    (∀ d ∈ (c.onWrite r).1, d.fileBuffer = c.fileBuffer) ∧ (c.onWrite r).2.filterMap NetEffect.upload? = [] := by
  unfold Client.onWrite
  dsimp only
  split
  · exact ⟨holds_left rfl, rfl⟩
  · split
    · split
      · exact ⟨holds_left rfl, rfl⟩
      · exact ⟨holds_left rfl, rfl⟩
    · exact ⟨holds_gone _, rfl⟩

/-- Writing to the data connection asks the disk threads for the next block only. -/
theorem dataWrite_keeps (r : WriteResult) (c : Client) :
    (c.dataWrite r).1.fileBuffer = c.fileBuffer ∧ (c.dataWrite r).2.filterMap NetEffect.upload? = [] := by
  refine ⟨rfl, ?_⟩
  unfold Client.dataWrite TcpClient.dataWrite
  dsimp only
  split
  · rfl
  · split
    · rfl
    · rfl
    · split <;> rfl

/-- What a step does with the buffer: it adds what was read, or hands over the whole. -/
theorem upload_step (h : (tcpClient cfg).Takes e) (hc : e.before = some c) :
    (uploads e = [] ∧ handsOver e = false ∧ ∀ d ∈ e.after, d.fileBuffer = c.fileBuffer ++ received e) ∨
      ∃ t d, uploads e = [t] ∧ handsOver e = true ∧ e.after = some d ∧ d.fileBuffer = [] ∧
        t.payload = c.fileBuffer ++ received e ∧ (t.action = .storing → fileBufWriteSize < t.payload.length) := by
  obtain ⟨before, input, after, effects⟩ := e
  cases hc
  have h : c.handle cfg input = .ok (after, effects) := h
  -- a step that neither reads nor hands over
  have hkeeps {s : Option Client} {es : List NetEffect} (hstep : c.handle cfg input = .ok (s, es))
      (hkept : (∀ d ∈ s, d.fileBuffer = c.fileBuffer) ∧ es.filterMap NetEffect.upload? = [])
      (hnone : (received ⟨some c, input, after, effects⟩, handsOver ⟨some c, input, after, effects⟩) = ([], false)) :
      uploads ⟨some c, input, after, effects⟩ = [] ∧ handsOver ⟨some c, input, after, effects⟩ = false ∧
        ∀ d ∈ after, d.fileBuffer = c.fileBuffer ++ received ⟨some c, input, after, effects⟩ := by
    rw [h] at hstep
    cases hstep
    injection hnone with hread hhands
    rw [hread, List.append_nil]
    exact ⟨hkept.2, hhands, hkept.1⟩
  cases input with
  | notify n ports =>
    have hkept := onNotify_keeps cfg ports n c
    exact Or.inl (hkeeps (handle_notify n ports) ⟨holds_left hkept.1, hkept.2⟩ rfl)
  | callback k =>
    cases hfires : k.fires c with
    | false =>
      refine Or.inl (hkeeps (handle_idle hfires) ⟨holds_left rfl, rfl⟩ ?_)
      cases k with
      | dataRead r =>
        have hfd : c.dataFd.isSome = false := hfires
        cases r <;> simp [received, handsOver, Client.handsOver, hfd]
      | _ => rfl
    | true =>
      cases k with
      | write r => exact Or.inl (hkeeps (handle_write hfires r) (onWrite_keeps r c) rfl)
      | dataAccept r =>
        refine Or.inl (hkeeps (handle_dataAccept hfires r) ?_ rfl)
        cases r <;> exact ⟨holds_left rfl, rfl⟩
      | dataWrite r =>
        have hkept := dataWrite_keeps r c
        exact Or.inl (hkeeps (handle_dataWrite hfires r) ⟨holds_left hkept.1, hkept.2⟩ rfl)
      | dataRead r =>
        have hfd : c.dataFd.isSome = true := hfires
        rw [handle_dataRead hfd] at h
        obtain ⟨p, hp, h⟩ := bind_eq_ok.mp h
        cases h
        cases dataRead_cases hp with
        | again _ hr =>
          refine Or.inl ⟨rfl, ?_, holds_left ?_⟩
          · rcases hr with rfl | rfl <;> simp [handsOver, Client.handsOver]
          · rcases hr with rfl | rfl <;> simp [received]
        | ended =>
          refine Or.inr ⟨c.bufferTask .storOk, _, rfl, by simp [handsOver, Client.handsOver, hfd], rfl, ?_, ?_, nofun⟩
          · rw [clearDatafd_fileBuffer]
            rfl
          · rw [bufferTask_payload]
            simp [received]
        | failed => exact Or.inl ⟨rfl, rfl, holds_left (by simp [received])⟩
        | kept bytes pos le hfits =>
          refine Or.inl ⟨rfl, ?_, holds_left (by simp [received, hfd, Client.copyData])⟩
          simp only [handsOver, Option.any_some, Client.handsOver, hfd, Bool.true_and, decide_eq_false_iff_not]
          omega
        | full bytes pos le hfull =>
          refine Or.inr ⟨(c.copyData bytes).bufferTask .storing, _, rfl, ?_, rfl, rfl, ?_, fun _ => ?_⟩
          · simp only [handsOver, Option.any_some, Client.handsOver, hfd, Bool.true_and, decide_eq_true_eq]
            omega
          · rw [bufferTask_payload]
            simp [received, hfd, Client.copyData]
          · rw [bufferTask_payload]
            exact hfull.trans_eq List.length_append.symm

theorem uploads_iff (h : (tcpClient cfg).Takes e) : uploads e ≠ [] ↔ handsOver e = true := by
  cases hc : e.before with
  | none =>
    have hnone : uploads e = [] := by
      obtain ⟨before, input, after, effects⟩ := e
      cases hc
      cases h
      rfl
    simp [hnone, handsOver, hc]
  | some c =>
    rcases upload_step h hc with ⟨hnone, hhands, _⟩ | ⟨t, d, hposts, hhands, _⟩
    · simp [hnone, hhands]
    · simp [hposts, hhands]

/-- An accept neither reads nor hands over. -/
theorem connects_alone {buffer : List Char} (h : (tcpClient cfg).Takes e) (hconnects : connects e = some buffer) :
    ∃ c d, e.before = some c ∧ buffer = c.fileBuffer ∧ e.after = some d ∧ d.fileBuffer = c.fileBuffer := by
  obtain ⟨before, input, after, effects⟩ := e
  unfold connects at hconnects
  dsimp only at hconnects
  split at hconnects
  · rename_i c fd
    split at hconnects
    · rename_i hpending
      have h : c.handle cfg (.callback (.dataAccept (some fd))) = .ok (after, effects) := h
      rw [handle_dataAccept hpending] at h
      cases h
      cases hconnects
      exact ⟨c, _, rfl, rfl, rfl, rfl⟩
    · exact nomatch hconnects
  · exact nomatch hconnects

theorem gathered_step {past : List ClientEdge} (h : (tcpClient cfg).Takes e) (hpast : Gathered past e.before) :
    Gathered (past ++ [e]) e.after := by
  intro d hd
  cases hconnects : connects e with
  | some buffer =>
    obtain ⟨c, d', _, hbuffer, hafter, hsame⟩ := connects_alone h hconnects
    rw [hafter] at hd
    cases hd
    rw [found, latest_said hconnects, connection, since_mark (by rw [hconnects]; rfl), hbuffer, hsame]
    simp
  | none =>
    have hsince : connection (past ++ [e]) = connection past ++ [e] := since_other (by rw [hconnects]; rfl)
    have hfound : found (past ++ [e]) = found past := by rw [found, latest_silent hconnects, found]
    rw [hsince, hfound, List.flatMap_append, List.flatMap_append, List.flatMap_singleton, List.flatMap_singleton]
    cases hc : e.before with
    | none =>
      obtain ⟨before, input, after, effects⟩ := e
      cases hc
      cases h
      exact nomatch hd
    | some c =>
      have hbefore := hpast c hc
      rw [← List.append_assoc, hbefore, List.append_assoc, List.append_assoc]
      congr 1
      rcases upload_step h hc with ⟨hnone, _, hadds⟩ | ⟨t, d', hposts, _, hafter, hempty, hwhole, _⟩
      · rw [hadds d hd, handedOver, hnone]
        rfl
      · rw [hafter] at hd
        cases hd
        rw [hempty, handedOver, hposts, List.flatMap_singleton, hwhole, List.append_nil]

/-- What is handed over is what the connection found, then what it brought. -/
theorem own_step {past : List ClientEdge} (h : (tcpClient cfg).Takes e) (hpast : Gathered past e.before) :
    OwnBytes past e ↔ FoundEmpty past e := by
  rw [OwnBytes, FoundEmpty, uploads_iff h]
  apply imp_congr_right
  intro hhands
  cases hc : e.before with
  | none =>
    rw [handsOver, hc] at hhands
    exact nomatch hhands
  | some c =>
    rcases upload_step h hc with ⟨_, hkept, _⟩ | ⟨t, d, hposts, _, _, _, hwhole, _⟩
    · rw [hhands] at hkept
      exact nomatch hkept
    · have hall : (connection past).flatMap handedOver ++ handedOver e =
          found past ++ ((connection past).flatMap received ++ received e) := by
        rw [handedOver, hposts, List.flatMap_singleton, hwhole, ← List.append_assoc, ← hpast c hc, List.append_assoc]
      rw [hall]
      constructor
      · intro hprefix
        have hlength := hprefix.length_le
        rw [List.length_append] at hlength
        exact List.eq_nil_of_length_eq_zero (by omega)
      · intro hempty
        rw [hempty, List.nil_append]

end

/-- **Uploads do not mix**, exactly when every data connection that hands anything over has
found the buffer empty. -/
theorem own_bytes_iff (cfg : Config) (address : Nat) (fd : Fd) (inputs : List ClientEvent) :
    Always OwnBytes ((tcpClient cfg).trace (some (.new address fd)) inputs) ↔
      Always FoundEmpty ((tcpClient cfg).trace (some (.new address fd)) inputs) := by
  have hstart : Gathered [] (some (.new address fd)) := by
    intro c hc
    cases hc
    rfl
  exact always_iff inputs hstart (fun _ _ he hpast => gathered_step he hpast) fun _ _ he hnow => own_step he hnow

/-- An upload that breaks off, and the next one. -/
def brokenUpload : List ClientEvent :=
  [.notify {fd := 7, action := .pasv} [some (9, 2024)], .callback (.dataAccept (some 10)),
    .callback (.dataRead (.read "old".toList (by decide) (by decide))), .callback (.dataRead (.failed false)),
    .notify {fd := 7, action := .pasv} [some (9, 2025)], .callback (.dataAccept (some 10)),
    .callback (.dataRead (.read "new".toList (by decide) (by decide))), .callback (.dataRead (.eof false))]

/-- The second upload begins with the bytes of the first. -/
theorem uploads_mixed :
    ¬ Always OwnBytes ((tcpClient Env.shipped.config).trace (some (.new 0 7)) brokenUpload) ∧
      ((tcpClient Env.shipped.config).trace (some (.new 0 7)) brokenUpload).flatMap
          (fun e => (uploads e).map DiskTask.payload) =
        ["oldnew".toList] := by
  decide +kernel

end HyperTransfer
