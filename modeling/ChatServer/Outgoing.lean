import ChatServer.Delivery

/-!
# What the server sends

Whatever the threads of the server post to a connection, its client reads as whole frames, and the
data in them in the order in which they were posted.
-/

namespace ChatServer.Websocket

variable {host : ByteOrder} {maxPayloadBytes : Nat} {hello : Bytes} {opening : List Job}

/-! ## The order of the sends -/

/-- Data of the application, not a frame of the connection itself. -/
def isData (frame : Nat × Bytes) : Bool := frame.1 < 8

def Job.data : Job → Option (Nat × Bytes)
  | .send opcode payload => if opcode < 8 then some (opcode, payload) else none
  | .close .. => none

/-- What the application sends by these jobs. -/
def sent (jobs : List Job) : List (Nat × Bytes) := jobs.filterMap Job.data

theorem sent_append (jobs jobs' : List Job) : sent (jobs ++ jobs') = sent jobs ++ sent jobs' :=
  List.filterMap_append

/-- What has been posted to the connection. -/
def posts (es : List Event) : List Job :=
  es.filterMap fun
    | .post job => some job
    | _ => none

def FrameFits (frame : Nat × Bytes) : Prop := frame.1 < 16 ∧ frame.2.length < 256 ^ 8

/-- A frame as the server writes it. -/
def encode (host : ByteOrder) (frame : Nat × Bytes) : Bytes :=
  Outbox.buildHeader host frame.1 frame.2.length ++ frame.2

/-- The answer to the upgrade request. -/
def handshake (hello : Bytes) : Bytes := Connection.switchingProtocols ++ hello ++ Connection.crlf ++
  Connection.crlf

/-- The frames lie on the wire one after the other, and the data are those of `log`. -/
structure Sound (host : ByteOrder) (hello : Bytes) (log : List (Nat × Bytes)) (o : Outbox)
    (posted : List Job) : Prop where
  wire : o.wire ++ o.writeBuffers.flatten = handshake hello ++ o.frames.flatMap (encode host)
  frames : ∀ frame ∈ o.frames, FrameFits frame
  jobs : ∀ job ∈ posted, job.Fits
  order : o.frames.filter isData ++ sent posted = log

namespace Sound

variable {log : List (Nat × Bytes)} {o : Outbox} {posted : List Job}

theorem doWrite (h : Sound host hello log o posted) : Sound host hello log o.doWrite posted := by
  unfold Outbox.doWrite
  split
  · refine ⟨?_, h.frames, h.jobs, h.order⟩
    dsimp only
    rw [List.flatten_nil, List.append_nil]
    exact h.wire
  · exact h

/-- The buffers of one more frame go to the end. -/
theorem push (h : Sound host hello log o posted) {frame : Nat × Bytes} (hfits : FrameFits frame)
    {bs : List Bytes} (hbs : bs.flatten = encode host frame) {log' : List (Nat × Bytes)}
    {posted' : List Job} (hposted : ∀ job ∈ posted', job.Fits)
    (horder : (o.frames ++ [frame]).filter isData ++ sent posted' = log') :
    Sound host hello log' (Outbox.doWrite { o with
      writeBuffers := o.writeBuffers ++ bs, frames := o.frames ++ [frame] }) posted' := by
  apply doWrite
  refine ⟨?_, ?_, hposted, horder⟩
  · dsimp only
    rw [List.flatten_append, hbs, List.flatMap_append, List.flatMap_singleton, ← List.append_assoc,
      h.wire, List.append_assoc]
  · intro f hf
    rcases List.mem_append.mp hf with hold | hnew
    · exact h.frames f hold
    · rw [List.mem_singleton.mp hnew]
      exact hfits

theorem sendClose (h : Sound host hello log o posted) {msg : Bytes} {statusCode : UInt16}
    (hfits : msg.length + 2 < 256 ^ 8) :
    Sound host hello log (o.sendClose host msg statusCode) posted := by
  have hlen : (Outbox.statusBytes host statusCode).length = 2 := host.length_store 2 _
  have hframe : FrameFits (8, Outbox.statusBytes host statusCode ++ msg) := by
    refine ⟨by simp, ?_⟩
    rw [List.length_append, hlen, Nat.add_comm]
    exact hfits
  refine h.push hframe ?_ h.jobs ?_
  · unfold encode
    dsimp only
    rw [List.length_append, hlen, Nat.add_comm]
    simp
  · rw [List.filter_append]
    simpa [isData] using h.order

theorem post (h : Sound host hello log o posted) {job : Job} (hfits : job.Fits) :
    Sound host hello (log ++ sent [job]) o (posted ++ [job]) := by
  refine ⟨h.wire, h.frames, fun job' hjob' => ?_, ?_⟩
  · rcases List.mem_append.mp hjob' with hold | hnew
    · exact h.jobs _ hold
    · rw [List.mem_singleton.mp hnew]
      exact hfits
  · unfold sent
    rw [List.filterMap_append, ← List.append_assoc]
    exact congrArg (· ++ _) h.order

/-- The first job that was posted is run. -/
theorem send {opcode : Nat} {payload : Bytes}
    (h : Sound host hello log o (.send opcode payload :: posted)) :
    Sound host hello log (o.sendDataImpl host opcode payload) posted := by
  have hframe : FrameFits (opcode, payload) := h.jobs (.send opcode payload) (by simp)
  refine h.push hframe
    (by simp [encode])
    (fun job hjob => h.jobs job (by simp [hjob])) ?_
  rw [← h.order, List.filter_append, List.append_assoc]
  congr 1
  unfold sent isData
  by_cases hop : opcode < 8
  · simp [Job.data, hop]
  · simp [Job.data, hop]

theorem close {msg : Bytes} {statusCode : UInt16}
    (h : Sound host hello log o (.close msg statusCode :: posted)) :
    Sound host hello log (o.sendClose host msg statusCode) posted := by
  have hrest : Sound host hello log o posted := by
    exact ⟨h.wire, h.frames, fun job hjob => h.jobs job (by simp [hjob]), h.order⟩
  exact hrest.sendClose (h.jobs (.close msg statusCode) (by simp))

end Sound

namespace Connection

section Steps

variable {log : List (Nat × Bytes)} {c c' : Connection}

/-- The outbox and the jobs that wait. -/
def Sends (host : ByteOrder) (hello : Bytes) (log : List (Nat × Bytes)) (c : Connection) : Prop :=
  Sound host hello log c.outbox c.posted

theorem Sends.checkDestroy (h : c.Sends host hello log) (code : UInt16) :
    (c.checkDestroy code).Sends host hello log := by
  rw [checkDestroy_eq]
  exact h

theorem Sends.closeImpl (h : c.Sends host hello log) {msg : Bytes} {statusCode : UInt16}
    (hfits : msg.length + 2 < 256 ^ 8) :
    (closeImpl host c msg statusCode).Sends host hello log := by
  rw [closeImpl_eq]
  exact h.sendClose hfits

theorem Sends.doRead (h : c.Sends host hello log) : c.doRead.Sends host hello log := by
  rw [doRead_eq]
  split
  · apply Sends.checkDestroy
    exact h
  · split
    · apply Sends.checkDestroy
      exact h
    · exact h

theorem Sends.onWritten (h : c.Sends host hello log) (ok : Bool) :
    (c.onWritten ok).Sends host hello log := by
  have hsent : Sound host hello log { c.outbox with writing := false, sendingBuffers := [] } c.posted :=
    ⟨h.wire, h.frames, h.jobs, h.order⟩
  unfold Connection.onWritten
  dsimp only
  split
  · split
    · split <;> exact hsent.doWrite
    · split <;> exact hsent
  · split
    · exact ⟨h.wire, h.frames, h.jobs, h.order⟩
    · apply Sends.checkDestroy
      exact hsent

theorem Sends.joinFragment (h : c.Sends host hello log) : c.joinFragment.Sends host hello log := by
  unfold Connection.joinFragment
  dsimp only
  split <;> exact h

theorem Sends.handleClose (h : c.Sends host hello log) (hlt : c.inbox.fragment.length < 256 ^ 8) :
    (handleClose host c).1.Sends host hello log := by
  unfold Connection.handleClose
  dsimp only
  split
  · apply Sends.closeImpl (c := { c with hasRecvClose := true }) h
    unfold closeReason
    split
    · rw [List.length_drop]
      omega
    · omega
  · apply Sends.checkDestroy
    split <;> exact h

/-- A ping is answered, a close is answered, and the rest writes nothing. -/
theorem Sends.handleFragment (h : c.Sends host hello log) (hlt : c.inbox.fragment.length < 256 ^ 8) :
    (handleFragment host c).1.Sends host hello log := by
  have hsame : c.unmaskFragment.Sends host hello log ∧
      c.unmaskFragment.inbox.fragment.length = c.inbox.fragment.length := by
    unfold unmaskFragment
    split
    · exact ⟨h, length_unmask _ _⟩
    · exact ⟨h, rfl⟩
  obtain ⟨h, hlen⟩ := hsame
  rw [← hlen] at hlt
  unfold Connection.handleFragment
  dsimp only
  generalize c.unmaskFragment = d at *
  split
  · exact h.joinFragment
  · exact Sends.joinFragment (c := { d with inbox.isBinary := false }) h
  · exact Sends.joinFragment (c := { d with inbox.isBinary := true }) h
  · exact h.handleClose hlt
  · have hfits : Job.Fits (.send 0xA d.inbox.fragment) := ⟨by decide, hlt⟩
    have hpong := h.post hfits
    unfold sent at hpong
    rwa [List.filterMap_cons_none rfl, List.filterMap_nil, List.append_nil] at hpong
  · exact h
  · exact h

theorem Sends.onRead (h : c.Sends host hello log) {bytes : Bytes}
    (hlt : c.inbox.state = .payload → c.inbox.fragment.length + bytes.length < 256 ^ 8) :
    (onRead host c bytes).Sends host hello log := by
  unfold Connection.onRead
  dsimp only
  split
  · unfold onMiniHeader
    dsimp only
    split
    · exact Sends.doRead h
    · split
      · exact Sends.doRead h
      · exact Sends.doRead h
  · exact Sends.doRead h
  · exact Sends.doRead h
  · exact Sends.doRead h
  · rename_i hstate
    have hfragment {c' : Connection} (hc' : c'.Sends host hello log)
        (hfrag : c'.inbox.fragment = c.inbox.fragment ++ bytes) :
        (Connection.handleFragment host c').1.Sends host hello log := by
      apply Sends.handleFragment hc'
      rw [hfrag, List.length_append]
      exact hlt hstate
    unfold onPayload
    dsimp only
    split
    · split
      · apply Sends.doRead
        exact hfragment h rfl
      · exact hfragment h rfl
    · exact Sends.doRead h

theorem Sends.step (h : c.Sends host hello log) {e : Event} (hen : c.Enabled e)
    (hlt : ∀ bytes, e = .read bytes → c.inbox.state = .payload →
      c.inbox.fragment.length + bytes.length < 256 ^ 8) :
    (c.step host e).Sends host hello (log ++ sent (posts [e])) := by
  cases e with
  | post job => exact h.post hen.2
  | close msg statusCode =>
    rw [show sent (posts [.close msg statusCode]) = [] from rfl, List.append_nil]
    exact h.closeImpl hen.2
  | run =>
    rw [show sent (posts [.run]) = [] from rfl, List.append_nil]
    unfold Connection.step
    dsimp only
    split
    · exact h
    · rename_i job rest hposted
      unfold Sends at h
      rw [hposted] at h
      cases job with
      | send opcode payload => exact h.send
      | close msg statusCode =>
        change (Connection.closeImpl host { c with posted := rest } msg statusCode).Sends host hello log
        rw [closeImpl_eq]
        exact h.close
  | read bytes =>
    rw [show sent (posts [.read bytes]) = [] from rfl, List.append_nil]
    exact h.onRead (hlt bytes rfl)
  | readError =>
    rw [show sent (posts [.readError]) = [] from rfl, List.append_nil]
    apply Sends.checkDestroy
    exact h
  | written ok =>
    rw [show sent (posts [.written ok]) = [] from rfl, List.append_nil]
    exact h.onWritten ok

theorem Sends.perform (h : c.Sends host hello log) {job : Job} (hfits : job.Fits) :
    (perform host c job).Sends host hello (log ++ sent [job]) := by
  cases job with
  | send opcode payload => exact h.post hfits
  | close msg statusCode =>
    rw [show sent [.close msg statusCode] = [] from rfl, List.append_nil]
    exact h.closeImpl hfits

theorem Sends.foldl_perform (h : c.Sends host hello log) {jobs : List Job}
    (hfits : ∀ job ∈ jobs, job.Fits) :
    (jobs.foldl (Connection.perform host) c).Sends host hello (log ++ sent jobs) := by
  induction jobs generalizing c log with
  | nil =>
    rw [show sent [] = [] from rfl, List.append_nil]
    exact h
  | cons job jobs ih =>
    rw [show job :: jobs = [job] ++ jobs from rfl, sent_append, ← List.append_assoc]
    apply ih
    · exact h.perform (hfits job List.mem_cons_self)
    · exact fun job' hjob' => hfits job' (List.mem_cons_of_mem _ hjob')

theorem Sends.start (isBinary : Bool) (hopening : ∀ job ∈ opening, job.Fits) :
    (start host (.fresh maxPayloadBytes isBinary) hello opening).Sends host hello (sent opening) := by
  have hwritten : Sound host hello [] (Outbox.doWrite { Outbox.empty with
      writeBuffers := [switchingProtocols, hello, crlf, crlf] }) [] := by
    apply Sound.doWrite
    refine ⟨?_, nofun, nofun, rfl⟩
    simp [Outbox.empty, handshake]
  unfold Connection.start opened
  apply Sends.doRead
  rw [← List.nil_append (sent opening)]
  apply Sends.foldl_perform _ hopening
  exact hwritten

end Steps

end Connection

/-! ## Runs -/

section Runs

open Connection

variable {ok : Connection → Event → Prop} {es : List Event} {c : Connection}

/-- A frame is never longer than its length of 64 bits says. -/
theorem Begun.fragment_lt {i : Inbox} {rest : Bytes} (h : Begun i rest) (hstate : i.state = .payload) :
    i.fragment.length + i.remainingLength < 256 ^ 8 := by
  cases h with
  | nothing hother => simp [hstate] at hother
  | header _ _ hother => simp [hstate] at hother
  | length _ _ hother => simp [hstate] at hother
  | @key head second ext key _ _ hext _ _ hlength =>
    have hvalue := ByteOrder.value_lt ext
    rw [hlength]
    unfold announced
    unfold extSize at hext
    split
    · omega
    · split at hext
      · rwa [hext] at hvalue
      · split at hext
        · rw [hext] at hvalue
          omega
        · omega

theorem ReachedBy.sends (h : ReachedBy ok host maxPayloadBytes hello opening es c)
    (hopening : ∀ job ∈ opening, job.Fits) : c.Sends host hello (sent (opening ++ posts es)) := by
  induction h with
  | start isBinary =>
    rw [show posts [] = [] from rfl, List.append_nil]
    exact .start isBinary hopening
  | @step es c e h hen _ ih =>
    have hposts : posts (es ++ [e]) = posts es ++ posts [e] := List.filterMap_append
    rw [hposts, ← List.append_assoc, sent_append]
    apply ih.step hen
    rintro bytes rfl hstate
    obtain ⟨d, hd, hadmits⟩ := hen
    obtain ⟨-, rfl⟩ := h.settled.asked d hd
    obtain ⟨isBinary, done, rest, hparsed⟩ := h.parsed
    have hlt := (hparsed.begun (by simp [hd])).fragment_lt hstate
    unfold demand at hadmits
    rw [hstate] at hadmits
    have hle := hadmits.1
    omega

/-- What a frame says to the one who reads it. -/
def WireFrame.content (f : WireFrame) : Nat × Bytes := (f.opcode, f.payload)

/-- The frames that the server has written, as a client reads them. -/
theorem exists_wireFrames (host : ByteOrder) {frames : List (Nat × Bytes)}
    (hfits : ∀ frame ∈ frames, FrameFits frame) : ∃ gs : List WireFrame,
      gs.map WireFrame.content = frames ∧
        gs.flatMap WireFrame.bytes = frames.flatMap (encode host) ∧
        ∀ g ∈ gs, g.fin = true ∧ ¬ Masked g.second := by
  induction frames with
  | nil => exact ⟨[], rfl, rfl, nofun⟩
  | cons frame frames ih =>
    obtain ⟨gs, hcontent, hbytes, hwhole⟩ := ih fun f hf => hfits f (List.mem_cons_of_mem _ hf)
    obtain ⟨hop, hsize⟩ := hfits frame List.mem_cons_self
    refine ⟨serverFrame frame.1 frame.2 hsize :: gs, ?_, ?_, ?_⟩
    · rw [List.map_cons, hcontent]
      unfold WireFrame.content serverFrame
      rw [WireFrame.opcode_make, WireFrame.payload_make, Nat.mod_eq_of_lt hop]
    · rw [List.flatMap_cons, List.flatMap_cons, hbytes, ← bytes_serverFrame host hop hsize]
      rfl
    · intro g hg
      rcases List.mem_cons.mp hg with rfl | hold
      · refine ⟨WireFrame.fin_make _ _ _ _, fun hmasked => ?_⟩
        exact absurd ((WireFrame.masked_secondOf _ _).mp hmasked) (by simp)
      · exact hwhole g hold

/-- The frames that the client makes of what has arrived. -/
theorem Connection.Sends.arrivedFrames {log : List (Nat × Bytes)} (h : c.Sends host hello log)
    {fs : List WireFrame} (harrived : handshake hello ++ fs.flatMap WireFrame.bytes <+: c.outbox.wire) :
    (∀ f ∈ fs, f.fin = true ∧ ¬ Masked f.second) ∧ fs.map WireFrame.content <+: c.outbox.frames := by
  obtain ⟨gs, hcontent, hbytes, hwhole⟩ := exists_wireFrames host h.frames
  have hle : fs <+: gs := by
    apply WireFrame.selfDelimiting.isPrefix_of_flatMap
    rw [hbytes]
    apply (List.prefix_append_right_inj (handshake hello)).mp
    rw [← h.wire]
    exact harrived.trans (List.prefix_append _ _)
  rw [← hcontent]
  exact ⟨fun f hf => hwhole f (hle.subset hf), hle.map _⟩

/-- The data in them. -/
theorem Connection.Sends.arrived {log : List (Nat × Bytes)} (h : c.Sends host hello log)
    {fs : List WireFrame} (harrived : handshake hello ++ fs.flatMap WireFrame.bytes <+: c.outbox.wire) :
    (∀ f ∈ fs, f.fin = true ∧ ¬ Masked f.second) ∧
      (fs.map WireFrame.content).filter isData <+: log := by
  obtain ⟨hwhole, hframes⟩ := h.arrivedFrames harrived
  refine ⟨hwhole, ?_⟩
  rw [← h.order]
  exact (hframes.filter _).trans (List.prefix_append _ _)

/-- What the client makes of it when nothing waits. -/
theorem Connection.Sends.flushed {log : List (Nat × Bytes)} (h : c.Sends host hello log)
    (hs : c.Settled) (hopen : c.closeConnection = false) (hidle : c.outbox.writing = false)
    (hposted : c.posted = []) :
    ∃ fs : List WireFrame, c.outbox.wire = handshake hello ++ fs.flatMap WireFrame.bytes ∧
      (fs.map WireFrame.content).filter isData = log := by
  obtain ⟨gs, hcontent, hbytes, -⟩ := exists_wireFrames host h.frames
  have hsending : c.outbox.sendingBuffers = [] := by
    by_contra hne
    have hbusy := hs.busy.mpr hne
    simp [hidle] at hbusy
  have hwire := h.wire
  have horder := h.order
  rw [hs.flushed hopen hsending, List.flatten_nil, List.append_nil, ← hbytes] at hwire
  rw [hposted, show sent [] = [] from rfl, List.append_nil, ← hcontent] at horder
  exact ⟨gs, hwire, horder⟩

/-- **In order and unharmed.** Whatever has arrived of what the server writes, the frames that the
client makes of it are whole and not masked, and the data in them is the first of what was sent to
this connection, in the order of the calls. When nothing waits any more, and nothing has failed or
closed the connection, it is all of it. -/
theorem arrives_in_order (h : Reached host maxPayloadBytes hello opening es c)
    (hopening : ∀ job ∈ opening, job.Fits) :
    (∀ fs : List WireFrame, handshake hello ++ fs.flatMap WireFrame.bytes <+: c.outbox.wire →
      (∀ f ∈ fs, f.fin = true ∧ ¬ Masked f.second) ∧
        (fs.map WireFrame.content).filter isData <+: sent (opening ++ posts es)) ∧
      (c.closeConnection = false → c.outbox.writing = false → c.posted = [] →
        ∃ fs : List WireFrame, c.outbox.wire = handshake hello ++ fs.flatMap WireFrame.bytes ∧
          (fs.map WireFrame.content).filter isData = sent (opening ++ posts es)) := by
  have hs := h.sends hopening
  exact ⟨fun fs harrived => hs.arrived harrived,
    fun hopen hidle hposted => hs.flushed h.settled hopen hidle hposted⟩

/-- Two sends, the second while the first is on its way. -/
def sendsTwo : List Event :=
  [.post (.send 1 (ascii "a")), .written true, .run, .post (.send 2 (ascii "b")), .run,
    .written true, .written true]

theorem arrives_in_order_two : ∃ c, Reached .little (256 ^ 8 - 1) (ascii "x") [] sendsTwo c ∧
    ∃ fs : List WireFrame, c.outbox.wire = handshake (ascii "x") ++ fs.flatMap WireFrame.bytes ∧
      (fs.map WireFrame.content).filter isData = [(1, ascii "a"), (2, ascii "b")] := by
  have h : Reached .little (256 ^ 8 - 1) (ascii "x") [] sendsTwo (.played sendsTwo) :=
    reachedBy_played (by decide +kernel)
  obtain ⟨-, hall⟩ := arrives_in_order h (by simp)
  exact ⟨_, h, hall (by decide +kernel) (by decide +kernel) (by decide +kernel)⟩

end Runs

end ChatServer.Websocket
