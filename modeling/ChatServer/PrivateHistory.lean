import ChatServer.Invariants

/-!
# Private histories

The stored list of a private chat against the log of the messages that were accepted. The
list is kept under a key made of the two names, and two pairs of names may share a key.
-/

open Program

namespace ChatServer

/-! ## The log of accepted messages -/

/-- Sender, recipient and text of each accepted private message, in order. -/
def privateMessages (trace : List Event) : List (Bytes × Bytes × Bytes) :=
  trace.filterMap fun
    | .storedPrivate sender recipient msg => some (sender, recipient, msg)
    | _ => none

def Between (a b : Bytes) (m : Bytes × Bytes × Bytes) : Prop :=
  m.1 = a ∧ m.2.1 = b ∨ m.1 = b ∧ m.2.1 = a

instance (a b : Bytes) (m : Bytes × Bytes × Bytes) : Decidable (Between a b m) :=
  inferInstanceAs (Decidable (_ ∨ _))

def authored (log : List (Bytes × Bytes × Bytes)) (p : Bytes × Bytes × Bytes → Bool) :
    List Message :=
  (log.filter p).map fun m => (m.1, m.2.2)

/-- What the two users said to each other in private. -/
def privateLog (a b : Bytes) (trace : List Event) : List Message :=
  authored (privateMessages trace) fun m => Between a b m

/-! ## The store -/

theorem privateMessages_append (trace es : List Event) :
    privateMessages (trace ++ es) = privateMessages trace ++ privateMessages es :=
  List.filterMap_append

theorem privateMessages_eq_nil {es : List Event}
    (h : ∀ sender recipient msg, .storedPrivate sender recipient msg ∉ es) :
    privateMessages es = [] := by
  unfold privateMessages
  rw [List.filterMap_eq_nil_iff]
  intro e he
  cases e with
  | storedPrivate sender recipient msg => exact absurd he (h sender recipient msg)
  | _ => rfl

theorem Effect.chat_cases {w w' : World} (h : Effect w w') :
    (w'.chatHistory = w.chatHistory ∧ privateMessages w'.trace = privateMessages w.trace) ∨
    ∃ sender recipient msg, w' = w.storePrivate sender recipient msg := by
  cases h with
  | storePrivate => exact .inr ⟨_, _, _, rfl⟩
  | flag | touch | setStatus | markIdle | eraseExpired => exact .inl ⟨rfl, rfl⟩
  | send h =>
    refine .inl ⟨rfl, ?_⟩
    rw [World.emits_trace, privateMessages_append,
      privateMessages_eq_nil fun _ _ _ hmem => h _ hmem, List.append_nil]
  | refuse h =>
    refine .inl ⟨rfl, ?_⟩
    have hnil : privateMessages _ = [] := privateMessages_eq_nil fun _ _ _ hmem => by
      rcases h _ hmem with ⟨_, heq⟩ | ⟨_, heq⟩ <;> cases heq
    rw [World.emits_trace, privateMessages_append, hnil, List.append_nil]
  | storeGeneral | register | reconnect | leave | disconnect =>
    exact .inl ⟨rfl, (privateMessages_append _ _).trans (List.append_nil _)⟩

/-- **The store.** Under a key stand the accepted messages of all pairs with that key. -/
theorem chat_eq {cfg : Config} (h : Reachable cfg) (key : Bytes) :
    cfg.world.chat key =
      authored (privateMessages cfg.world.trace) fun m => chatId m.1 m.2.1 = key := by
  refine h.always (J := fun w => w.chat key =
    authored (privateMessages w.trace) fun m => chatId m.1 m.2.1 = key) (fun _ _ _ => rfl) ?_
  intro w w' _ ih heff
  rcases heff.chat_cases with ⟨hchat, hlog⟩ | ⟨sender, recipient, msg, rfl⟩
  · rw [World.chat, hchat, hlog]
    exact ih
  · have hlog : privateMessages (w.storePrivate sender recipient msg).trace =
        privateMessages w.trace ++ [(sender, recipient, msg)] := privateMessages_append _ _
    have hstore : (w.storePrivate sender recipient msg).chat key =
        if key = chatId sender recipient then w.chat key ++ [(sender, msg)] else w.chat key := by
      simp only [World.chat, World.storePrivate, World.emits, Table.lookup_insert_eq]
      split
      · rename_i heq
        rw [heq]
        rfl
      · rfl
    rw [hstore, hlog, ih]
    by_cases heq : key = chatId sender recipient
    · simp [authored, heq]
    · simp [authored, heq, Ne.symm heq]

/-! ## Keys -/

/-- `|` -/
def bar : UInt8 := 124

theorem chatId_cases (a b : Bytes) : ∃ x y, chatId a b = x ++ bar :: y ∧
    (x = a ∧ y = b ∨ x = b ∧ y = a) := by
  unfold chatId
  split
  · exact ⟨a, b, by simp [ascii, bar], .inl ⟨rfl, rfl⟩⟩
  · exact ⟨b, a, by simp [ascii, bar], .inr ⟨rfl, rfl⟩⟩

theorem chatId_comm (a b : Bytes) : chatId a b = chatId b a := by
  unfold chatId
  by_cases hab : a < b
  · rw [if_pos hab, if_neg (List.lt_asymm hab)]
  · by_cases hba : b < a
    · rw [if_neg hab, if_pos hba]
    · obtain rfl : a = b := List.le_antisymm (List.not_lt.mp hba) (List.not_lt.mp hab)
      rfl

theorem chatId_of_between {a b : Bytes} {m : Bytes × Bytes × Bytes} (h : Between a b m) :
    chatId m.1 m.2.1 = chatId a b := by
  rcases h with ⟨rfl, rfl⟩ | ⟨rfl, rfl⟩
  · rfl
  · exact chatId_comm _ _

/-- A pair of names without a bar shares its key with no other pair. -/
theorem chatId_injective {a b s r : Bytes} (ha : bar ∉ a) (hb : bar ∉ b)
    (h : chatId s r = chatId a b) : s = a ∧ r = b ∨ s = b ∧ r = a := by
  obtain ⟨x, y, hab, hxy⟩ := chatId_cases a b
  obtain ⟨x', y', hsr, hxy'⟩ := chatId_cases s r
  have hx : bar ∉ x ∧ bar ∉ y := by
    rcases hxy with ⟨rfl, rfl⟩ | ⟨rfl, rfl⟩
    · exact ⟨ha, hb⟩
    · exact ⟨hb, ha⟩
  rw [hab, hsr, eq_comm, List.append_cons_inj_of_notMem hx.1 hx.2] at h
  obtain ⟨rfl, -, rfl⟩ := h
  rcases hxy with ⟨rfl, rfl⟩ | ⟨rfl, rfl⟩ <;> rcases hxy' with ⟨rfl, rfl⟩ | ⟨rfl, rfl⟩ <;> simp

/-! ## What a request reads -/

theorem selectHistory_run (sender : Bytes) {target : Bytes} (h : target ≠ generalChat) (w : World) :
    (selectHistory sender target).run w = (w.chat (chatId sender target), w) := by
  unfold selectHistory
  rw [if_neg h]
  rfl

theorem authored_eq_iff {log : List (Bytes × Bytes × Bytes)} {p q : Bytes × Bytes × Bytes → Bool}
    (hqp : ∀ m ∈ log, q m → p m) :
    authored log p = authored log q ↔ ∀ m ∈ log, p m → q m := by
  have hfilter : log.filter q = (log.filter p).filter q := by
    rw [List.filter_filter]
    apply List.filter_congr
    intro m hm
    cases hq : q m with
    | false => rfl
    | true => rw [hqp m hm hq, Bool.and_self]
  constructor
  · intro heq
    have hlen := congrArg List.length heq
    rw [authored, authored, hfilter, List.length_map, List.length_map, eq_comm,
      List.length_filter_eq_length_iff] at hlen
    exact fun m hm hp => hlen m (List.mem_filter.mpr ⟨hm, hp⟩)
  · intro h
    have hself : (log.filter p).filter q = log.filter p := List.filter_eq_self.mpr fun m hm =>
      h m (List.mem_filter.mp hm).1 (List.mem_filter.mp hm).2
    rw [authored, authored, hfilter, hself]

theorem mem_privateMessages {trace : List Event} {s r msg : Bytes} :
    (s, r, msg) ∈ privateMessages trace ↔ .storedPrivate s r msg ∈ trace := by
  simp only [privateMessages, List.mem_filterMap]
  constructor
  · rintro ⟨e, he, heq⟩
    cases e <;> cases heq
    exact he
  · exact fun h => ⟨_, h, rfl⟩

/-- **Private histories.** In every run, the history of two users is what they said to each
other if and only if no other pair with the same key has said anything. Names without a bar
share their key with nobody. -/
theorem private_history {cfg : Config} (h : Reachable cfg) (a : Bytes) {b : Bytes}
    (hb : ValidName b) :
    (((selectHistory a b).run cfg.world).1 = privateLog a b cfg.world.trace ↔
      ∀ s r msg, .storedPrivate s r msg ∈ cfg.world.trace → chatId s r = chatId a b →
        s = a ∧ r = b ∨ s = b ∧ r = a) ∧
    (bar ∉ a → bar ∉ b →
      ((selectHistory a b).run cfg.world).1 = privateLog a b cfg.world.trace) := by
  have hiff : ((selectHistory a b).run cfg.world).1 = privateLog a b cfg.world.trace ↔
      ∀ s r msg, .storedPrivate s r msg ∈ cfg.world.trace → chatId s r = chatId a b →
        s = a ∧ r = b ∨ s = b ∧ r = a := by
    rw [selectHistory_run a hb.2.2, chat_eq h, privateLog, authored_eq_iff]
    · simp only [Prod.forall, mem_privateMessages, decide_eq_true_eq]
      exact .rfl
    · intro m _ hm
      exact decide_eq_true (chatId_of_between (of_decide_eq_true hm))
  exact ⟨hiff, fun ha hb => hiff.mpr fun _ _ _ _ => chatId_injective ha hb⟩

theorem private_history_two : ∃ cfg, Reachable cfg ∧
    (ascii "a", ascii "b", ascii "x") ∈ privateMessages cfg.world.trace ∧
    ((selectHistory (ascii "a") (ascii "b")).run cfg.world).1 =
      privateLog (ascii "a") (ascii "b") cfg.world.trace := by
  have hreach := ((Reachable.start.serve (c := .onOpen 1 (ascii "a")) rfl rfl).serve
    (c := .onOpen 2 (ascii "b")) rfl rfl).serve
    (c := .onMessage 1 (4 :: pushString8 (ascii "b") ++ pushString8 (ascii "x")) true) rfl rfl
  exact ⟨_, hreach, by decide, (private_history hreach (ascii "a") (by decide)).2 (by decide) (by decide)⟩

/-- `a` writes to `b|c`, and `a|b` reads it as its chat with `c`. -/
theorem private_history_shared : ¬ ∀ cfg, Reachable cfg → ∀ a b, ValidName a → ValidName b →
    a ≠ b → ((selectHistory a b).run cfg.world).1 = privateLog a b cfg.world.trace := by
  intro h
  have hreach := ((Reachable.start.serve (c := .onOpen 1 (ascii "a")) rfl rfl).serve
    (c := .onOpen 2 (ascii "b|c")) rfl rfl).serve
    (c := .onMessage 1 (4 :: pushString8 (ascii "b|c") ++ pushString8 (ascii "x")) true) rfl rfl
  have hwrong := h _ hreach (ascii "a|b") (ascii "c") (by decide) (by decide) (by decide)
  revert hwrong
  decide

end ChatServer
