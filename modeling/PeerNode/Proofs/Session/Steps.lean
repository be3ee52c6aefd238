import PeerNode.Proofs.Session.Names

/-!
# What a step can do

A session has many steps, but as far as holders, tasks and tokens are concerned they do few
different things.  `Change` lists these; `change_apply` says that every step does one of them.
What follows about all steps is proved by going through this list and not through the steps.

* `Change`: the things that a step can do, whatever messages it moves.
* `change_apply`: every step does one of them.
* `Sound.change`, `Sound.perform`: steps and acts keep a session sound.
* `Change.inboxes`, `Change.senders`: no step makes a new end of an old channel.
-/

namespace PeerNode

open Exchange (OnlyMessages)

variable {s s' : Session} {t : Task} {a : Act}

namespace Session

/-- Whether a session may begin this work: it has names for the ends that the task will hold. -/
structure Startable (s : Session) (w : Work) : Prop where
  sender : ∀ c, w.holdsSender c = true → ∃ tx, s.senders.lookup tx = some c
  receiver : ∀ c, w.holdsReceiver c = true → ∃ inbox, s.inboxes.lookup inbox = some c

theorem startable_receive {c : Nat} {inbox : String} (hl : s.inboxes.lookup inbox = some c) :
    s.Startable (.receive c) := by
  refine ⟨fun d hd => ?_, fun d hd => ?_⟩
  · simp [Work.holdsSender] at hd
  · obtain rfl : c = d := by simpa [Work.holdsReceiver] using hd
    exact ⟨inbox, hl⟩

/-- The session after a listener has been begun on a new subscription. -/
def listening {c : Nat} (s : Session) (capacity : Nat) (me : PeerName) (token : Token)
    (hc : c < s.exchange.channels.length) (sub name : String) : Session :=
  (s.begin name ((s.exchange.listen c capacity me token hc).1,
    (s.exchange.listen c capacity me token hc).2.2)).nameSender sub s.exchange.channels.length

/-- The things that a step can do. -/
inductive Change (s : Session) : Session → Prop
  | idle : Change s s
  | moves {y : Exchange} (hy : OnlyMessages s.exchange y) : Change s (s.withExchange y)
  | begins {w : Work} (hw : s.Startable w) (tasks streams : List (String × Nat)) :
      Change s { s with exchange := (s.exchange.spawn w).1, tasks, streams }
  | clonesSender {c : Nat} {tx : String} (hl : s.senders.lookup tx = some c) (name : String) :
      Change s ((s.withExchange (s.exchange.cloneSender c)).nameSender name c)
  | dropsSender (name : String) : Change s (s.dropSender name)
  | clonesInbox {c : Nat} {inbox : String} (hl : s.inboxes.lookup inbox = some c) (name : String) :
      Change s ((s.withExchange (s.exchange.cloneInbox c)).nameInbox name c)
  | dropsInbox (name : String) : Change s (s.dropInbox name)
  | aborts (id : Nat) : Change s (s.withExchange (s.exchange.abort id))
  | cancels (token : Token) : Change s (s.withExchange (s.exchange.cancel token))
  | advances (secs : Nat) : Change s (s.withExchange (s.exchange.advance secs))
  | listens {c : Nat} {tx : String} (hl : s.senders.lookup tx = some c)
      (hc : c < s.exchange.channels.length) (capacity : Nat) (me : PeerName) (token : Token)
      (sub name : String) : Change s (s.listening capacity me token hc sub name)

theorem change_withSender {tx : String} {f : Nat → Session × Answer}
    (hf : ∀ c, s.senders.lookup tx = some c → Change s (f c).1) :
    Change s (s.withSender tx f).1 := by
  unfold withSender
  split
  · rename_i c hl
    exact hf c hl
  · exact .idle

theorem change_withInbox {inbox : String} {f : Nat → Session × Answer}
    (hf : ∀ c, s.inboxes.lookup inbox = some c → Change s (f c).1) :
    Change s (s.withInbox inbox f).1 := by
  unfold withInbox
  split
  · rename_i c hl
    exact hf c hl
  · exact .idle

/-- **Who receives and blocks** gets what is there, or else waits for it. -/
theorem receiveBlocking_cases (s : Session) (inbox : String) :
    (∃ c, s.inboxes.lookup inbox = some c ∧ (s.exchange.tryReceive c).2 = .nothing ∧
      s.apply (.receiveBlocking inbox) =
        (s.withExchange (s.exchange.spawn (.receive c)).1, .waits)) ∨
    s.apply (.receiveBlocking inbox) = s.apply (.tryReceive inbox) := by
  cases hl : s.inboxes.lookup inbox with
  | none => exact Or.inr (by simp only [apply, withInbox, hl])
  | some c =>
    simp only [apply, withInbox, hl]
    split
    · rename_i x hfound
      have hnothing := congrArg Prod.snd hfound
      obtain rfl : s.exchange = x :=
        congrArg Prod.fst ((Exchange.tryReceive_nothing hnothing).symm.trans hfound)
      exact Or.inl ⟨c, rfl, hnothing, rfl⟩
    · rename_i hfound
      exact Or.inr (by rw [hfound])

/-- **Every step does one of these things.** -/
theorem change_apply (s : Session) (st : Step) : Change s (s.apply st).1 := by
  cases st with
  | trySend tx m =>
    exact change_withSender fun c _ => .moves (s.exchange.onlyMessages_trySend c m)
  | offer tx m => exact change_withSender fun c _ => .moves (s.exchange.onlyMessages_offer c m)
  | send tx m name =>
    refine change_withSender fun c hl => .begins ⟨?_, ?_⟩ _ s.streams
    · intro d hd
      obtain rfl : c = d := by simpa [Work.holdsSender] using hd
      exact ⟨tx, hl⟩
    · intro d hd
      simp [Work.holdsReceiver] at hd
  | fill tx ms manner =>
    refine change_withSender fun c _ => ?_
    cases manner with
    | trySend => exact .moves (s.exchange.onlyMessages_sendAll c 0 none ms)
    | offer => exact .moves (s.exchange.onlyMessages_offerAll c 0 none ms)
  | cloneSender tx name => exact change_withSender fun c hl => .clonesSender hl name
  | dropSender tx => exact .dropsSender tx
  | cloneInbox inbox name => exact change_withInbox fun c hl => .clonesInbox hl name
  | dropInbox inbox => exact .dropsInbox inbox
  | tryReceive inbox =>
    exact change_withInbox fun c _ => .moves (s.exchange.onlyMessages_tryReceive c)
  | drain inbox =>
    exact change_withInbox fun c _ => .moves (s.exchange.onlyMessages_drainFrom c _)
  | receive inbox name =>
    exact change_withInbox fun c hl => .begins (startable_receive hl) _ s.streams
  | receiveBlocking inbox =>
    rcases s.receiveBlocking_cases inbox with ⟨c, hl, -, h⟩ | h <;> rw [h]
    · exact .begins (startable_receive hl) s.tasks s.streams
    · exact change_withInbox fun c _ => .moves (s.exchange.onlyMessages_tryReceive c)
  | abort task =>
    simp only [apply]
    split
    · exact .aborts _
    · exact .idle
  | pending => exact .idle
  | cancel token => exact .cancels token
  | nothing => exact .idle
  | advance secs => exact .advances secs
  | listen sub capacity me tx token name =>
    refine change_withSender fun c hl => ?_
    split
    · rename_i hc
      exact .listens hl hc capacity me token sub name
    · exact .idle
  | inbound script closes sender timeout tx token name =>
    refine change_withSender fun c hl => .begins ⟨?_, ?_⟩ _ _
    · intro d hd
      obtain rfl : c = d := by simpa [Work.holdsSender] using hd
      exact ⟨tx, hl⟩
    · intro d hd
      simp [Work.holdsReceiver] at hd
  | stream name =>
    simp only [apply]
    split <;> exact .idle

/-! ## Soundness -/

theorem fits_addChannel {x : Exchange} (hx : x.Fits) (capacity senders inboxes : Nat) :
    (x.addChannel capacity senders inboxes).1.Fits := by
  intro c channel hc
  simp only [Exchange.addChannel, List.getElem?_append] at hc
  split at hc
  · exact hx c channel hc
  · obtain ⟨_, hget⟩ := List.getElem?_eq_some_iff.1 hc
    rw [← hget]
    simp

theorem Sound.listening {c : Nat} (h : s.Sound) (capacity : Nat) (me : PeerName) (token : Token)
    (hc : c < s.exchange.channels.length) (sub name : String) :
    (s.listening capacity me token hc sub name).Sound := by
  have htidy : (s.exchange.addChannel capacity 1 0).1.Tidy :=
    h.tidy.of_le rfl (Nat.le_refl _) (by simp [Exchange.addChannel]) fun _ => rfl
  refine sound_nameSender
    (s := s.begin name ((s.exchange.listen c capacity me token hc).1,
      (s.exchange.listen c capacity me token hc).2.2))
    (h.senders.extend ?_ ?_) (h.inboxes.extend ?_ ?_) h.queue (htidy.spawn ?_)
    (fits_addChannel h.fits capacity 1 0) ?_ sub
  · simp
  · simp
  · simp
  · simp
  · intro d hd
    simp only [Work.holdsSender, Work.holdsReceiver, beq_iff_eq] at hd
    simp only [Exchange.addChannel, List.length_append, List.length_singleton]
    omega
  · simp [Session.begin, Exchange.listen, Exchange.spawn, Exchange.tick, Exchange.addChannel]

/-- **Whatever a step does, it keeps a session sound.** -/
theorem Sound.change (h : s.Sound) (hs : Change s s') : s'.Sound := by
  cases hs with
  | idle => exact h
  | moves hy => exact h.onlyMessages hy
  | begins hw tasks streams =>
    refine ⟨h.senders, h.inboxes, h.queue, h.tidy.spawn ?_, h.fits⟩
    rintro d (hd | hd)
    · obtain ⟨tx, hl⟩ := hw.sender d hd
      exact h.sender_lt hl
    · obtain ⟨inbox, hl⟩ := hw.receiver d hd
      exact h.inbox_lt hl
  | @clonesSender c tx hl name =>
    refine sound_nameSender (s := s.withExchange (s.exchange.cloneSender c))
      (h.senders.lend fun _ => rfl) (h.inboxes.of_modify fun _ => rfl) h.queue
      (h.tidy.onChannel _ _) (h.fits_onChannel fun _ => ⟨rfl, rfl⟩) ?_ name
    simpa [Session.withExchange, Exchange.cloneSender, Exchange.onChannel] using h.sender_lt hl
  | dropsSender name => exact h.dropSender name
  | @clonesInbox c inbox hl name =>
    obtain rfl := h.inbox_eq_zero hl
    refine sound_nameInbox (s := s.withExchange (s.exchange.cloneInbox 0))
      (h.senders.of_modify fun _ => rfl) (h.inboxes.lend fun _ => rfl) h.queue
      (h.tidy.onChannel _ _) (h.fits_onChannel fun _ => ⟨rfl, rfl⟩) ?_ name
    simpa [Session.withExchange, Exchange.cloneInbox, Exchange.onChannel] using h.inbox_lt hl
  | dropsInbox name => exact h.dropInbox name
  | aborts id =>
    have hch : (s.exchange.abort id).channels = s.exchange.channels := by
      rcases Exchange.abort_cases s.exchange id with ⟨t, -, -, h⟩ | h <;> rw [h]
      rfl
    refine h.withExchange (by rw [hch]) (h.tidy.abort id) ?_
    unfold Exchange.Fits
    rw [hch]
    exact h.fits
  | cancels token =>
    exact h.withExchange rfl (h.tidy.of_le rfl (Nat.le_refl _) (Nat.le_refl _) fun _ => rfl) h.fits
  | advances secs =>
    exact h.withExchange rfl (h.tidy.of_le rfl (Nat.le_refl _) (Nat.le_refl _) fun _ => rfl) h.fits
  | listens hl hc capacity me token sub name => exact h.listening capacity me token hc sub name

/-- **An act keeps a session sound.** -/
theorem Sound.perform (h : s.Sound) (ht : t ∈ s.exchange.tasks) (ha : s.exchange.Does t a) :
    (s.withExchange (s.exchange.perform t a)).Sound := by
  have hm := ha.onlyMessages_perform
  refine h.withExchange ?_ (h.tidy.perform ht ha) (hm.fits ?_)
  · rw [hm.channels, Exchange.channels_conclude]
    rfl
  · unfold Exchange.Fits
    rw [Exchange.channels_conclude]
    exact h.fits

/-! ## What becomes of names -/

section Tables

variable {name : String} {c : Nat} {p : String × Nat}

@[simp] theorem inboxes_dropSender (s : Session) (name : String) :
    (s.dropSender name).inboxes = s.inboxes := by
  unfold Session.dropSender
  split <;> rfl

@[simp] theorem senders_dropInbox (s : Session) (name : String) :
    (s.dropInbox name).senders = s.senders := by
  unfold Session.dropInbox
  split <;> rfl

theorem mem_senders_of_dropSender (hp : p ∈ (s.dropSender name).senders) : p ∈ s.senders := by
  unfold Session.dropSender at hp
  split at hp
  · exact List.mem_of_mem_filter hp
  · exact hp

theorem mem_inboxes_of_dropInbox (hp : p ∈ (s.dropInbox name).inboxes) : p ∈ s.inboxes := by
  unfold Session.dropInbox at hp
  split at hp
  · exact List.mem_of_mem_filter hp
  · exact hp

theorem mem_senders_of_nameSender (hp : p ∈ (s.nameSender name c).senders) :
    p = (name, c) ∨ p ∈ s.senders :=
  (List.mem_cons.1 hp).imp_right mem_senders_of_dropSender

theorem mem_inboxes_of_nameInbox (hp : p ∈ (s.nameInbox name c).inboxes) :
    p = (name, c) ∨ p ∈ s.inboxes :=
  (List.mem_cons.1 hp).imp_right mem_inboxes_of_dropInbox

end Tables

/-- A channel that a named inbox reads was read by one before. -/
theorem Change.inboxes (hs : Change s s') :
    ∀ p ∈ s'.inboxes, ∃ q ∈ s.inboxes, q.2 = p.2 := by
  intro p hp
  cases hs with
  | idle | moves | begins | aborts | cancels | advances => exact ⟨p, hp, rfl⟩
  | clonesSender hl name =>
    simp only [nameSender, inboxes_dropSender] at hp
    exact ⟨p, hp, rfl⟩
  | dropsSender name =>
    rw [inboxes_dropSender] at hp
    exact ⟨p, hp, rfl⟩
  | clonesInbox hl name =>
    rcases mem_inboxes_of_nameInbox hp with rfl | hp
    · exact ⟨_, mem_of_lookup_eq_some hl, rfl⟩
    · exact ⟨p, hp, rfl⟩
  | dropsInbox name => exact ⟨p, mem_inboxes_of_dropInbox hp, rfl⟩
  | listens hl hc capacity me token sub name =>
    simp only [Session.listening, nameSender, inboxes_dropSender] at hp
    exact ⟨p, hp, rfl⟩

/-- A channel that a named sender fills was filled by one before, or is new. -/
theorem Change.senders (hs : Change s s') :
    ∀ p ∈ s'.senders, p.2 < s.exchange.channels.length → ∃ q ∈ s.senders, q.2 = p.2 := by
  intro p hp hlt
  cases hs with
  | idle | moves | begins | aborts | cancels | advances => exact ⟨p, hp, rfl⟩
  | clonesSender hl name =>
    rcases mem_senders_of_nameSender hp with rfl | hp
    · exact ⟨_, mem_of_lookup_eq_some hl, rfl⟩
    · exact ⟨p, hp, rfl⟩
  | dropsSender name => exact ⟨p, mem_senders_of_dropSender hp, rfl⟩
  | clonesInbox hl name =>
    simp only [nameInbox, senders_dropInbox] at hp
    exact ⟨p, hp, rfl⟩
  | dropsInbox name =>
    rw [senders_dropInbox] at hp
    exact ⟨p, hp, rfl⟩
  | listens hl hc capacity me token sub name =>
    rcases mem_senders_of_nameSender hp with rfl | hp
    · exact absurd hlt (Nat.lt_irrefl _)
    · exact ⟨p, hp, rfl⟩

end Session
end PeerNode
