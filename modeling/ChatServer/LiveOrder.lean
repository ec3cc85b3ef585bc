import ChatServer.Timeline

/-!
# Live order

A message is stored in one critical section, and the next section of the same thread sends it
out. So the frames come in the order of the history if the threads deliver in turn.
-/

open Program

namespace ChatServer

/-! ## Messages in a log -/

/-- The message of a 55 frame to `c`. -/
def Event.messageTo (c : Conn) : Event → Option Message
  | .sendBinary conn payload =>
    match decodeFrame payload with
    | some (.newMessage sender msg) => if conn = c then some (sender, msg) else none
    | _ => none
  | _ => none

/-- The chat of the message that the step stores, and its place in the history. -/
def Entry.stores (e : Entry) : Option (Chat × Nat) :=
  e.news.findSome? fun ev => ev.record.map fun r => (r.1, (e.before.entries r.1).length)

def lastStored (t : Thread) : List Entry → Option (Chat × Nat)
  | [] => none
  | e :: log => if e.thread = t then e.stores <|> lastStored t log else lastStored t log

/-- A 55 frame that `c` got: the entry of the history that its thread had stored last, and what
the frame says. -/
structure Heard where
  source : Option (Chat × Nat)
  message : Message
  deriving DecidableEq

def heard (c : Conn) : List Entry → List Heard
  | [] => []
  | e :: log => heard c log ++
      (e.news.filterMap (Event.messageTo c)).map fun m => ⟨lastStored e.thread log, m⟩

/-- Each frame shows an entry of a history, and the frames of a chat come in its order. -/
structure InOrder (w : World) (frames : List Heard) : Prop where
  sources : ∀ f ∈ frames, ∃ chat index, f.source = some (chat, index) ∧
    (w.entries chat)[index]? = some f.message
  order : frames.Pairwise fun f g => ∀ chat k k',
    f.source = some (chat, k) → g.source = some (chat, k') → k ≤ k'

/-- The messages that are stored, and whose thread has not yet taken `connections_mutex` again. -/
def undelivered : List Entry → List (Thread × Chat × Nat)
  | [] => []
  | e :: log =>
    (if e.code.takes .connectionsMutex then (undelivered log).filter fun u => u.1 ≠ e.thread
      else undelivered log) ++ (e.stores.map fun s => (e.thread, s)).toList

/-- If it is the turn of a thread to deliver, no message that was stored earlier in the same chat
has still to be delivered. -/
def MayDeliver (e : Entry) (log : List Entry) : Prop :=
  e.code.takes .connectionsMutex →
    ∀ u ∈ undelivered log, u.1 = e.thread → ∀ v ∈ undelivered log, v.2.1 = u.2.1 → u.2.2 ≤ v.2.2

instance (e : Entry) (log : List Entry) : Decidable (MayDeliver e log) :=
  inferInstanceAs (Decidable (_ → ∀ u ∈ undelivered log, _))

inductive InTurn : List Entry → Prop
  | nil : InTurn []
  | cons {e : Entry} {log : List Entry} (h : InTurn log) (hmay : MayDeliver e log) :
      InTurn (e :: log)

theorem inTurn_cons {e : Entry} {log : List Entry} :
    InTurn (e :: log) ↔ InTurn log ∧ MayDeliver e log := by
  constructor
  · rintro ⟨⟩
    exact ⟨‹_›, ‹_›⟩
  · exact fun h => .cons h.1 h.2

instance InTurn.decide : (log : List Entry) → Decidable (InTurn log)
  | [] => .isTrue .nil
  | e :: log =>
    have := InTurn.decide log
    decidable_of_iff (InTurn log ∧ MayDeliver e log) inTurn_cons.symm

/-! ## What a deed does to the messages -/

theorem messageTo_of_code {code : UInt8} {body : Bytes} (h : code ≠ 55) (c conn : Conn) :
    Event.messageTo c (.sendBinary conn (code :: body)) = none := by
  unfold Event.messageTo
  dsimp only
  split
  · rename_i hdecode
    exact absurd (UInt8.toNat_inj.mp (decodeFrame_code hdecode)) h
  · rfl

/-- What a deed does to the stored messages and to those on their way. -/
inductive MessageDeed (w : World) (takes : Bool) (i j : Stage) (w' : World) : Prop
  | other (es : List Event) (htrace : w'.trace = w.trace ++ es)
      (hrecord : ∀ e ∈ es, e.record = none) (hsilent : ∀ c, ∀ e ∈ es, e.messageTo c = none)
      (hentries : ∀ chat, w'.entries chat = w.entries chat)
      (hstage : ∀ chat k sender msg, j = .stored chat k sender msg → i = j ∧ takes = false)
  | store (chat : Chat) (m : Message) (e : Event) (htrace : w'.trace = w.trace ++ [e])
      (hrecord : e.record = some (chat, m)) (hsilent : ∀ c, e.messageTo c = none)
      (hentries : ∀ c, w'.entries c = w.entries c ++ if c = chat then [m] else [])
      (hstage : j = .stored chat (w.entries chat).length m.1 m.2) (htakes : takes = true)
  | deliver (chat : Chat) (k : Nat) (sender msg : Bytes) (conns : List Conn)
      (hw : w' = w.sends conns (messagePayload sender msg))
      (hi : i = .stored chat k sender msg) (hj : j = .calm) (htakes : takes = true)

theorem Deed.message {t : Thread} {w w' : World} {α : Type} {i j : Stage} {p : Prog α}
    (h : Deed t w i p j w') : MessageDeed w (p.takes .connectionsMutex) i j w' := by
  -- A mark of a session, or no event at all.
  have hmark : ∀ {v : World} {es : List Event}, v.trace = w.trace ++ es →
      v.generalChatHistory = w.generalChatHistory → v.chatHistory = w.chatHistory →
      (∀ e ∈ es, e.record = none) → (∀ c, ∀ e ∈ es, e.messageTo c = none) →
      (∀ chat k sender msg, j ≠ .stored chat k sender msg) →
      MessageDeed w (p.takes .connectionsMutex) i j v := by
    intro v es htrace hg hc hrecord hsilent hj
    exact .other es htrace hrecord hsilent (entries_congr hg hc) fun _ _ _ _ h => absurd h (hj _ _ _ _)
  cases h with
  | quiet um ms hes hp =>
    refine .other _ rfl ?_ ?_ (entries_congr rfl rfl) ?_
    · intro e he
      have hq := hes e he
      cases e <;> first | rfl | cases hq
    · intro c e he
      have hq := hes e he
      cases e with
      | sendBinary conn payload =>
        obtain ⟨code, body, rfl, -, hcode⟩ := hq
        exact messageTo_of_code hcode c conn
      | _ => rfl
    · rintro chat k sender msg rfl
      refine ⟨rfl, ?_⟩
      rw [← Bool.not_eq_true]
      intro htakes
      cases hp htakes
  | refuse ht hes =>
    refine hmark rfl rfl rfl (fun e he => record_of_refusal (hes e he)) ?_ (by simp)
    intro c e he
    rcases hes e he with ⟨_, rfl⟩ | ⟨_, rfl⟩ <;> rfl
  | nameless | touch | setStatus | markIdle | eraseExpired =>
    exact @hmark _ [] (by simp) rfl rfl (by simp) (by simp) (by simp)
  | register | reconnect | leave | disconnect =>
    exact hmark rfl rfl rfl (by simp [Event.record]) (by simp [Event.messageTo]) (by simp)
  | @storeGeneral _ sender msg hp =>
    refine .store .general (sender, msg) _ rfl rfl (fun _ => rfl) (fun c => ?_) rfl hp
    exact entries_storeGeneral w sender msg c
  | @storePrivate _ sender recipient msg hp =>
    refine .store (.keyed (chatId sender recipient)) (sender, msg) _ rfl rfl (fun _ => rfl)
      (fun c => ?_) rfl hp
    exact entries_storePrivate w sender recipient msg c
  | deliver hp conns => exact .deliver _ _ _ _ conns rfl rfl rfl hp
  | @joined _ username st conns =>
    refine hmark rfl rfl rfl ?_ ?_ (by simp)
    · intro e he
      obtain ⟨conn, -, rfl⟩ := List.mem_map.mp he
      rfl
    · intro c e he
      obtain ⟨conn, -, rfl⟩ := List.mem_map.mp he
      exact messageTo_of_code (by decide) c conn

/-! ## The invariant -/

structure Live (stage : Thread → Stage) (w : World) (log : List Entry) : Prop where
  pending : ∀ t chat k sender msg, stage t = .stored chat k sender msg →
    (t, chat, k) ∈ undelivered log ∧ lastStored t log = some (chat, k)
  bound : ∀ u ∈ undelivered log, u.2.2 < (w.entries u.2.1).length
  sources : ∀ c, ∀ f ∈ heard c log, ∃ chat index, f.source = some (chat, index) ∧
    (w.entries chat)[index]? = some f.message
  ahead : InTurn log → ∀ c, ∀ f ∈ heard c log, ∀ u ∈ undelivered log, ∀ k,
    f.source = some (u.2.1, k) → k ≤ u.2.2
  order : InTurn log → ∀ c, (heard c log).Pairwise fun f g => ∀ chat k k',
    f.source = some (chat, k) → g.source = some (chat, k') → k ≤ k'

theorem mem_undelivered_of_ne {e : Entry} {log : List Entry} {u : Thread × Chat × Nat}
    (hu : u ∈ undelivered log) (hne : u.1 ≠ e.thread) : u ∈ undelivered (e :: log) := by
  unfold undelivered
  refine List.mem_append_left _ ?_
  split
  · exact List.mem_filter.mpr ⟨hu, by simpa using hne⟩
  · exact hu

theorem undelivered_cases {e : Entry} {log : List Entry} {u : Thread × Chat × Nat}
    (hu : u ∈ undelivered (e :: log)) :
    u ∈ undelivered log ∨ e.stores = some u.2 ∧ u.1 = e.thread := by
  unfold undelivered at hu
  rcases List.mem_append.mp hu with hu | hu
  · left
    split at hu
    · exact (List.mem_filter.mp hu).1
    · exact hu
  · right
    rw [Option.mem_toList, Option.map_eq_some_iff] at hu
    obtain ⟨s, hs, rfl⟩ := hu
    exact ⟨hs, rfl⟩

theorem stores_eq_none {e : Entry} {es : List Event} (htrace : e.after.trace = e.before.trace ++ es)
    (hes : ∀ ev ∈ es, ev.record = none) : e.stores = none := by
  unfold Entry.stores
  rw [Entry.news_eq htrace, List.findSome?_eq_none_iff]
  intro ev hev
  rw [hes ev hev]
  rfl

theorem undelivered_old {e : Entry} {log : List Entry} (hstores : e.stores = none)
    {u : Thread × Chat × Nat} (hu : u ∈ undelivered (e :: log)) : u ∈ undelivered log := by
  rcases undelivered_cases hu with hu | ⟨hs, -⟩
  · exact hu
  · rw [hstores] at hs
    cases hs

theorem heard_of_silent {e : Entry} {es : List Event} {log : List Entry} {c : Conn}
    (htrace : e.after.trace = e.before.trace ++ es) (hes : ∀ ev ∈ es, ev.messageTo c = none) :
    heard c (e :: log) = heard c log := by
  rw [heard, Entry.news_eq htrace, List.filterMap_eq_nil_iff.mpr hes, List.map_nil,
    List.append_nil]

/-- What the clients hear when `t` delivers the message that it has stored last. -/
theorem heard_deliver (t : Thread) (code : Prog Unit) (now : TimePoint) (v : World)
    (arrival : Option Call) {log : List Entry} {chat : Chat} {k : Nat} {sender msg : Bytes}
    (conns : List Conn) (hs : ValidName sender) (hm : ValidText msg)
    (hlast : lastStored t log = some (chat, k)) (c : Conn) : ∃ new,
    heard c (⟨t, code, now, v, v.sends conns (messagePayload sender msg), arrival⟩ :: log) =
      heard c log ++ new ∧ ∀ f ∈ new, f = ⟨some (chat, k), (sender, msg)⟩ := by
  refine ⟨_, rfl, fun f hf => ?_⟩
  obtain ⟨m, hmem, rfl⟩ := List.mem_map.mp hf
  rw [Entry.news_eq rfl, List.mem_filterMap] at hmem
  obtain ⟨ev, hev, hto⟩ := hmem
  obtain ⟨conn, -, rfl⟩ := List.mem_map.mp hev
  have hdecode := decodeFrame_newMessage hs.length_lt hm.length_lt
  simp only [Event.messageTo, messagePayload, hdecode, Option.ite_none_right_eq_some,
    Option.some.injEq] at hto
  rw [hlast, hto.2]

namespace Live

variable {stage : Thread → Stage} {w : World} {log : List Entry}

theorem init (w : World) : Live (fun _ => .calm) w [] where
  pending := nofun
  bound := nofun
  sources := nofun
  ahead := nofun
  order _ _ := .nil

theorem call (h : Live stage w log) (c : Call) :
    Live (Function.update stage c.thread c.stage) w log where
  pending u chat k sender msg hu :=
    h.pending u chat k sender msg (stage_of_called hu (by simp) rfl)
  bound := h.bound
  sources := h.sources
  ahead := h.ahead
  order := h.order

theorem pending_of_ne (h : Live stage w log) {e : Entry} {t : Thread} {j : Stage} (hne : t ≠ e.thread)
    {chat : Chat} {k : Nat} {sender msg : Bytes}
    (ht : Function.update stage e.thread j t = .stored chat k sender msg) :
    (t, chat, k) ∈ undelivered (e :: log) ∧ lastStored t (e :: log) = some (chat, k) := by
  rw [Function.update_of_ne hne] at ht
  obtain ⟨hmem, hlast⟩ := h.pending t chat k sender msg ht
  refine ⟨mem_undelivered_of_ne hmem hne, ?_⟩
  unfold lastStored
  rwa [if_neg (Ne.symm hne)]

variable {t : Thread} {code : Prog Unit} {now : TimePoint} {j : Stage} {v w' : World}
  {arrival : Option Call}

theorem other (h : Live stage w log) (hv : ∀ chat, v.entries chat = w.entries chat)
    {es : List Event} (htrace : w'.trace = v.trace ++ es) (hrecord : ∀ e ∈ es, e.record = none)
    (hsilent : ∀ c, ∀ e ∈ es, e.messageTo c = none)
    (hentries : ∀ chat, w'.entries chat = v.entries chat)
    (hstage : ∀ chat k sender msg, j = .stored chat k sender msg →
      stage t = j ∧ code.takes .connectionsMutex = false) :
    Live (Function.update stage t j) w' (⟨t, code, now, v, w', arrival⟩ :: log) := by
  have hstores : (⟨t, code, now, v, w', arrival⟩ : Entry).stores = none := stores_eq_none htrace hrecord
  have hheard : ∀ c, heard c (⟨t, code, now, v, w', arrival⟩ :: log) = heard c log :=
    fun c => heard_of_silent htrace (hsilent c)
  have hsame : ∀ chat, w'.entries chat = w.entries chat := fun c => (hentries c).trans (hv c)
  refine ⟨?_, ?_, ?_, ?_, ?_⟩
  · intro u chat k sender msg hu
    by_cases hut : u = t
    · subst hut
      rw [Function.update_self] at hu
      obtain ⟨hi, htakes⟩ := hstage chat k sender msg hu
      obtain ⟨hmem, hlast⟩ := h.pending u chat k sender msg (hi.trans hu)
      refine ⟨?_, ?_⟩
      · unfold undelivered
        rw [if_neg (by simp [htakes])]
        exact List.mem_append_left _ hmem
      · unfold lastStored
        rw [if_pos rfl, hstores]
        exact hlast
    · exact h.pending_of_ne (e := ⟨t, code, now, v, w', arrival⟩) hut hu
  · intro u hu
    rw [hsame]
    exact h.bound u (undelivered_old hstores hu)
  · intro c f hf
    rw [hheard] at hf
    simp only [hsame]
    exact h.sources c f hf
  · intro hturn c f hf u hu
    rw [hheard] at hf
    exact h.ahead (inTurn_cons.mp hturn).1 c f hf u (undelivered_old hstores hu)
  · intro hturn c
    rw [hheard]
    exact h.order (inTurn_cons.mp hturn).1 c

theorem store (h : Live stage w log) (hv : ∀ chat, v.entries chat = w.entries chat) {chat : Chat}
    {m : Message} {ev : Event} (htrace : w'.trace = v.trace ++ [ev])
    (hrecord : ev.record = some (chat, m)) (hsilent : ∀ c, ev.messageTo c = none)
    (hentries : ∀ c, w'.entries c = v.entries c ++ if c = chat then [m] else [])
    (hj : j = .stored chat (v.entries chat).length m.1 m.2) :
    Live (Function.update stage t j) w' (⟨t, code, now, v, w', arrival⟩ :: log) := by
  have hstores : (⟨t, code, now, v, w', arrival⟩ : Entry).stores =
      some (chat, (w.entries chat).length) := by
    unfold Entry.stores
    rw [Entry.news_eq htrace]
    simp [hrecord, hv]
  have hheard : ∀ c, heard c (⟨t, code, now, v, w', arrival⟩ :: log) = heard c log :=
    fun c => heard_of_silent htrace (by simpa using hsilent c)
  have hgrow : ∀ c, w'.entries c = w.entries c ++ if c = chat then [m] else [] :=
    fun c => (hentries c).trans (by rw [hv])
  refine ⟨?_, ?_, ?_, ?_, ?_⟩
  · intro u chat' k sender msg hu
    by_cases hut : u = t
    · subst hut
      rw [Function.update_self, hj, hv, Stage.stored.injEq] at hu
      obtain ⟨rfl, rfl, -, -⟩ := hu
      refine ⟨?_, ?_⟩
      · unfold undelivered
        rw [hstores]
        exact List.mem_append_right _ (by simp)
      · unfold lastStored
        rw [if_pos rfl, hstores]
        rfl
    · exact h.pending_of_ne (e := ⟨t, code, now, v, w', arrival⟩) hut hu
  · intro u hu
    rw [hgrow, List.length_append]
    rcases undelivered_cases hu with hu | ⟨hs, -⟩
    · have := h.bound u hu
      omega
    · rw [hstores, Option.some.injEq] at hs
      rw [← hs]
      simp
  · intro c f hf
    rw [hheard] at hf
    obtain ⟨chat', k, hsource, hk⟩ := h.sources c f hf
    refine ⟨chat', k, hsource, ?_⟩
    rw [hgrow, List.getElem?_append_left (List.getElem?_eq_some_iff.mp hk).1, hk]
  · intro hturn c f hf u hu k hk
    rw [hheard] at hf
    rcases undelivered_cases hu with hu | ⟨hs, -⟩
    · exact h.ahead (inTurn_cons.mp hturn).1 c f hf u hu k hk
    · -- The new message is behind all that anybody has got.
      obtain ⟨chat', k', hsource, hk'⟩ := h.sources c f hf
      rw [hstores, Option.some.injEq] at hs
      rw [hk, Option.some.injEq, Prod.mk.injEq] at hsource
      obtain ⟨rfl, rfl⟩ := hsource
      have hlt := (List.getElem?_eq_some_iff.mp hk').1
      rw [← hs] at hlt ⊢
      exact Nat.le_of_lt hlt
  · intro hturn c
    rw [hheard]
    exact h.order (inTurn_cons.mp hturn).1 c

theorem deliver (h : Live stage w log) (hv : ∀ chat, v.entries chat = w.entries chat)
    {chat : Chat} {k : Nat} {sender msg : Bytes} {conns : List Conn} (hs : ValidName sender)
    (hm : ValidText msg) (hi : stage t = .stored chat k sender msg)
    (hentry : (w.entries chat)[k]? = some (sender, msg)) (htakes : code.takes .connectionsMutex) :
    Live (Function.update stage t .calm) (v.sends conns (messagePayload sender msg))
      (⟨t, code, now, v, v.sends conns (messagePayload sender msg), arrival⟩ :: log) := by
  obtain ⟨hmem, hlast⟩ := h.pending t chat k sender msg hi
  have hsame : ∀ c, (v.sends conns (messagePayload sender msg)).entries c = w.entries c := by
    intro c
    rw [← hv]
    exact entries_congr rfl rfl c
  have hstores : (⟨t, code, now, v, v.sends conns (messagePayload sender msg), arrival⟩ : Entry).stores =
      none := by
    apply stores_eq_none rfl
    intro ev hev
    obtain ⟨conn, -, rfl⟩ := List.mem_map.mp hev
    rfl
  have hheard := heard_deliver t code now v arrival conns hs hm hlast
  refine ⟨?_, ?_, ?_, ?_, ?_⟩
  · intro u chat' k' sender' msg' hu
    by_cases hut : u = t
    · subst hut
      rw [Function.update_self] at hu
      cases hu
    · exact h.pending_of_ne (e := ⟨t, code, now, v, _, arrival⟩) hut hu
  · intro u hu
    rw [hsame]
    exact h.bound u (undelivered_old hstores hu)
  · intro c f hf
    obtain ⟨new, hnew, hall⟩ := hheard c
    simp only [hsame]
    rcases List.mem_append.mp (hnew ▸ hf) with hf | hf
    · exact h.sources c f hf
    · rw [hall f hf]
      exact ⟨chat, k, rfl, hentry⟩
  · intro hturn c f hf u hu k' hk'
    obtain ⟨new, hnew, hall⟩ := hheard c
    rcases List.mem_append.mp (hnew ▸ hf) with hf | hf
    · exact h.ahead (inTurn_cons.mp hturn).1 c f hf u (undelivered_old hstores hu) k' hk'
    · rw [hall f hf, Option.some.injEq, Prod.mk.injEq] at hk'
      obtain ⟨hchat, rfl⟩ := hk'
      exact (inTurn_cons.mp hturn).2 htakes _ hmem rfl u (undelivered_old hstores hu) hchat.symm
  · intro hturn c
    obtain ⟨new, hnew, hall⟩ := hheard c
    rw [hnew, List.pairwise_append]
    refine ⟨h.order (inTurn_cons.mp hturn).1 c, ?_, ?_⟩
    · apply List.pairwise_of_forall_mem_list
      intro f hf g hg chat' k₁ k₂ h₁ h₂
      rw [hall f hf] at h₁
      rw [hall g hg, h₁, Option.some.injEq, Prod.mk.injEq] at h₂
      omega
    · intro f hf g hg chat' k₁ k₂ h₁ h₂
      rw [hall g hg, Option.some.injEq, Prod.mk.injEq] at h₂
      obtain ⟨rfl, rfl⟩ := h₂
      exact h.ahead (inTurn_cons.mp hturn).1 c f hf _ hmem k₁ h₁

end Live

/-! ## Live order -/

theorem Timed.live {cfg : Config} {log : List Entry} (h : Timed cfg log) :
    ∃ stage, Live stage cfg.world log := by
  have hentries : ∀ (w : World) (now : TimePoint) (chat : Chat),
      (w.atTime now).entries chat = w.entries chat := fun _ _ => entries_congr rfl rfl
  have hmove : KeptByDeeds Live := by
    intro stage w log t now code j w' arrival hw hknows _ hlive hdeed
    cases hdeed.message with
    | other es htrace hrecord hsilent hsame hstage =>
      exact hlive.other (hentries w now) htrace hrecord hsilent hsame hstage
    | store chat m ev htrace hrecord hsilent hgrow hj htakes =>
      exact hlive.store (hentries w now) htrace hrecord hsilent hgrow hj
    | deliver chat k sender msg conns hw' hi hj htakes =>
      rw [hi] at hknows
      have hmem : (sender, msg) ∈ w.entries chat := List.mem_of_getElem? hknows
      have hvalid : ValidName sender ∧ ValidText msg := by
        cases chat with
        | general => exact hw.general _ hmem
        | keyed key => exact hw.chats key _ hmem
      rw [hw', hj]
      exact hlive.deliver (hentries w now) hvalid.1 hvalid.2 hi hknows htakes
  obtain ⟨stage, -, hlive⟩ :=
    h.always (fun _ _ _ => .init _) (fun _ _ _ c hlive => hlive.call c) hmove
  exact ⟨stage, hlive⟩

/-- **Live order.** In a run in which the threads deliver in turn, each client gets the messages of
each chat in the order in which the history has them. -/
theorem live_order {cfg : Config} {log : List Entry} (h : Timed cfg log) (hturn : InTurn log)
    (c : Conn) : InOrder cfg.world (heard c log) := by
  obtain ⟨stage, hlive⟩ := h.live
  exact ⟨hlive.sources c, hlive.order hturn c⟩

/-- Users `a` and `b` both write to the general chat. `a` is held up after `steps` steps, until
`b` is done. -/
def heldUp (steps : Nat) : List Turn :=
  [.call (.onOpen 1 (ascii "a")), .steps (.handlers 1) 0 40,
    .call (.onOpen 2 (ascii "b")), .steps (.handlers 2) 0 40,
    .call (.onMessage 1 (4 :: pushString8 generalChat ++ pushString8 (ascii "x")) true),
    .steps (.handlers 1) 0 steps,
    .call (.onMessage 2 (4 :: pushString8 generalChat ++ pushString8 (ascii "y")) true),
    .steps (.handlers 2) 0 40, .steps (.handlers 1) 0 40]

theorem live_order_two : ∃ cfg log, Timed cfg log ∧ InTurn log ∧ (heard 1 log).length = 2 ∧
    InOrder cfg.world (heard 1 log) := by
  have hturn : InTurn (playAll (heldUp 12)).2 := by decide +kernel
  have horder := live_order (timed_playAll (heldUp 12)) hturn 1
  exact ⟨_, _, timed_playAll (heldUp 12), hturn, by decide +kernel, horder⟩

/-- `a` has stored its message and not delivered it when `b` does both. -/
theorem live_order_overtaken : ¬ ∀ cfg log, Timed cfg log → ∀ c, InOrder cfg.world (heard c log) := by
  intro h
  have horder := (h _ _ (timed_playAll (heldUp 8)) 1).order
  have heard_eq : heard 1 (playAll (heldUp 8)).2 =
      [⟨some (.general, 1), (ascii "b", ascii "y")⟩,
        ⟨some (.general, 0), (ascii "a", ascii "x")⟩] := by decide +kernel
  rw [heard_eq, List.pairwise_pair] at horder
  have hle := horder .general 1 0 rfl rfl
  omega

end ChatServer
