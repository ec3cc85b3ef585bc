import ChatServer.PrivateHistory
import ChatServer.Sending

/-!
# Chats

The stored messages of a chat are the accepted ones, in order. A request shows the first 255 of
them, whichever message has just been accepted.
-/

open Program

namespace ChatServer

/-! ## What a chat holds -/

/-- The general chat, or a private one by its key. -/
inductive Chat
  | general
  | keyed (key : Bytes)
  deriving DecidableEq

def chatOf (sender target : Bytes) : Chat :=
  if target = generalChat then .general else .keyed (chatId sender target)

def World.entries (w : World) : Chat → List Message
  | .general => w.generalChatHistory
  | .keyed key => w.chat key

/-- The message that the event accepts, and its chat. -/
def Event.record : Event → Option (Chat × Message)
  | .storedGeneral sender msg => some (.general, (sender, msg))
  | .storedPrivate sender recipient msg => some (.keyed (chatId sender recipient), (sender, msg))
  | _ => none

def Event.said (chat : Chat) (e : Event) : Option Message :=
  match e.record with
  | some (c, m) => if c = chat then some m else none
  | none => none

theorem record_of_send {e : Event} (h : IsSend e) : e.record = none := by
  cases e <;> first | rfl | cases h

theorem record_of_refusal {conn : Conn} {e : Event} (h : IsRefusal conn e) : e.record = none := by
  rcases h with ⟨_, rfl⟩ | ⟨_, rfl⟩ <;> rfl

theorem said_of_record {e : Event} (h : e.record = none) (chat : Chat) : e.said chat = none := by
  unfold Event.said
  rw [h]

theorem history_eq_entries (w : World) (sender target : Bytes) :
    w.history sender target = w.entries (chatOf sender target) := by
  unfold World.history chatOf
  split <;> rfl

theorem entries_storeGeneral (w : World) (sender msg : Bytes) (chat : Chat) :
    (w.storeGeneral sender msg).entries chat =
      w.entries chat ++ if chat = .general then [(sender, msg)] else [] := by
  cases chat <;> simp [World.entries, World.chat, World.storeGeneral, World.emits]

theorem entries_storePrivate (w : World) (sender recipient msg : Bytes) (chat : Chat) :
    (w.storePrivate sender recipient msg).entries chat =
      w.entries chat ++ if chat = .keyed (chatId sender recipient) then [(sender, msg)] else [] := by
  cases chat with
  | general => simp [World.entries]
  | keyed key =>
    simp only [World.entries, World.chat, World.storePrivate, World.emits,
      Table.lookup_insert_eq, Chat.keyed.injEq]
    by_cases hkey : key = chatId sender recipient
    · subst hkey
      simp
    · simp [hkey]

theorem entries_congr {w v : World} (hg : v.generalChatHistory = w.generalChatHistory)
    (hc : v.chatHistory = w.chatHistory) (chat : Chat) : v.entries chat = w.entries chat := by
  cases chat with
  | general => exact hg
  | keyed key => simp only [World.entries, World.chat, hc]

/-- An effect adds to each chat what its new events record. -/
theorem Effect.entries {w w' : World} (h : Effect w w') : ∃ es, w'.trace = w.trace ++ es ∧
    ∀ chat, w'.entries chat = w.entries chat ++ es.filterMap (Event.said chat) := by
  have hnone : ∀ {es : List Event}, (∀ e ∈ es, e.record = none) → ∀ chat,
      es.filterMap (Event.said chat) = [] :=
    fun hes chat => List.filterMap_eq_nil_iff.mpr fun e he => said_of_record (hes e he) chat
  have hsame : ∀ {es : List Event} {v : World}, v.generalChatHistory = w.generalChatHistory →
      v.chatHistory = w.chatHistory → (∀ e ∈ es, e.record = none) →
      ∀ chat, v.entries chat = w.entries chat ++ es.filterMap (Event.said chat) := by
    intro es v hg hc hes chat
    rw [hnone hes, List.append_nil]
    exact entries_congr hg hc chat
  cases h with
  | flag | touch | setStatus | markIdle | eraseExpired =>
    exact ⟨[], by simp, hsame rfl rfl (by simp)⟩
  | send h => exact ⟨_, rfl, hsame rfl rfl fun e he => record_of_send (h e he)⟩
  | refuse h => exact ⟨_, rfl, hsame rfl rfl fun e he => record_of_refusal (h e he)⟩
  | register | reconnect | leave | disconnect =>
    exact ⟨_, rfl, hsame rfl rfl (by simp [Event.record])⟩
  | @storeGeneral sender msg =>
    refine ⟨_, rfl, fun chat => ?_⟩
    rw [entries_storeGeneral]
    by_cases hchat : chat = .general
    · simp [Event.said, Event.record, hchat]
    · simp [Event.said, Event.record, hchat, Ne.symm hchat]
  | @storePrivate sender recipient msg =>
    refine ⟨_, rfl, fun chat => ?_⟩
    rw [entries_storePrivate]
    by_cases hchat : chat = .keyed (chatId sender recipient)
    · simp [Event.said, Event.record, hchat]
    · simp [Event.said, Event.record, hchat, Ne.symm hchat]

theorem entries_eq {cfg : Config} (h : Reachable cfg) (chat : Chat) :
    cfg.world.entries chat = cfg.world.trace.filterMap (Event.said chat) := by
  refine h.always (J := fun w => w.entries chat = w.trace.filterMap (Event.said chat)) ?_ ?_
  · intro _ _ _
    cases chat <;> rfl
  · intro w w' _ ih heff
    obtain ⟨es, htrace, hentries⟩ := heff.entries
    rw [hentries, htrace, List.filterMap_append, ih]

end ChatServer
