import PeerNode.Proofs.Session.Cancellation
import PeerNode.Proofs.Session.Feeding
import PeerNode.Proofs.Session.Moves

/-!
# Overflow drops the newest message, and only from a full subscription

Between those who publish and those who consume stand a subscription, its listener and a delivery
queue.  An offer is never refused for want of room: the message is dropped, and nothing that has
been accepted before it is touched.  This happens exactly while the subscription is full or its
listener is gone (`Takes`), whatever consumers, listener and publishers do in between.

How many messages are kept on the way follows from the law of the listener (`Fed`): the places of
the queue and of the subscription, and one more in the hands of the listener.  The bound is reached.
When nobody receives and the listener has done what it can, it holds a message only because the
queue is full, and the subscription holds one only because the listener does; so of the messages
offered then the first ones are kept, up to the bound, and consumers find these and no others.

* `Takes`, `takes_of_unfed`: what becomes of a message that is offered.
* `subscribed`: a session with one queue, one subscription and the listener between them.
* `backlog_of_fed`: what is under way, and how much that can be.
* `Working`: a listener that is alone and that nothing stops; `Working.next`.
* `Idle`: such a session at rest; `Idle.offer`, `Idle.tryReceive`: one offer, and one look.
* `overflow_drops_newest_only`: the theorem.
-/

namespace PeerNode

open Exchange (Flow Still inChannel)

variable {x y : Exchange} {t : Task} {a : Act} {c : Nat}

namespace Exchange

def capacity? (x : Exchange) (c : Nat) : Option Nat := (x.channels.map (·.capacity))[c]?

theorem Fits.places {places : Nat} (h : x.Fits) (hc : x.capacity? c = some places) :
    (x.buffer c).length ≤ places ∧ x.room c = places - (x.buffer c).length := by
  simp only [capacity?, List.getElem?_map, Option.map_eq_some_iff] at hc
  obtain ⟨channel, hchannel, rfl⟩ := hc
  simp only [buffer, room, hchannel]
  exact ⟨h c channel hchannel, trivial⟩

theorem Persists.capacity {places : Nat} (h : x.Persists y) (hc : x.capacity? c = some places) :
    y.capacity? c = some places := by
  obtain ⟨rest, hrest⟩ := h.capacities
  unfold capacity? at hc ⊢
  rw [← hrest, List.getElem?_append_left (List.getElem?_eq_some_iff.1 hc).1, hc]

theorem free_of_unfed (h : ∀ t ∈ x.tasks, t.work.holdsSender c = false) : x.free c = x.room c := by
  have hnone : x.waitingSenders c = [] := by
    rw [waitingSenders, List.filter_eq_nil_iff]
    intro t ht hwants
    exact Bool.false_ne_true ((h t ht).symm.trans (Work.holdsSender_of_wantsRoom hwants))
  rw [free, hnone, List.length_nil, Nat.sub_zero]

end Exchange

namespace Session

variable {s s' : Session} {k : Cause} {path : List (Session × Cause)}

/-! ## One offer -/

/-- Whether a channel takes nothing more: all its places are taken, or nobody would receive it. -/
def Refuses (s : Session) (c places : Nat) : Prop :=
  (s.exchange.buffer c).length = places ∨ s.exchange.hasReceiver c = false

/-- **What becomes of a message that is offered** to a channel with so many places. -/
structure Takes (s : Session) (c places : Nat) (tx : String) (m : Message) : Prop where
  /-- An offer is refused exactly if the receiving end is gone. -/
  answer : (s.apply (.offer tx m)).2 = .flag (s.exchange.hasReceiver c)
  /-- A message that is dropped changes nothing. -/
  dropped : s.Refuses c places → (s.apply (.offer tx m)).1 = s
  /-- Any other message comes behind those that were accepted before it. -/
  accepted : ¬ s.Refuses c places →
    Flow s.exchange (s.apply (.offer tx m)).1.exchange c [m] [] ∧
      ∀ d, d ≠ c → Flow s.exchange (s.apply (.offer tx m)).1.exchange d [] []

theorem takes_of_unfed {places : Nat} {tx : String} (hs : s.Sound)
    (hunfed : ∀ t ∈ s.exchange.tasks, t.work.holdsSender c = false)
    (hcap : s.exchange.capacity? c = some places) (hl : s.senders.lookup tx = some c)
    (m : Message) : s.Takes c places tx m := by
  obtain ⟨hfits, hroom⟩ := hs.fits.places hcap
  have hfree := Exchange.free_of_unfed hunfed
  have happly : s.apply (.offer tx m) =
      (s.withExchange (s.exchange.trySend c m).1, .flag (s.exchange.hasReceiver c)) := by
    simp only [apply, withSender, hl, Exchange.offer_eq]
  have hflow : ∀ d, 0 < s.exchange.free c → Flow s.exchange (s.exchange.push c m) d
      (inChannel d c [m]) [] := fun d h => Exchange.flow_push (Exchange.room_pos_of_free_pos h) m d
  refine ⟨congrArg Prod.snd happly, ?_, ?_⟩
  · intro hrefuses
    rw [happly]
    rcases Exchange.trySend_cases s.exchange c m with ⟨-, h⟩ | ⟨hr, hpos, -⟩ | ⟨-, -, h⟩
    · rw [h]
      rfl
    · rcases hrefuses with hfull | hgone
      · omega
      · rw [hr] at hgone
        cases hgone
    · rw [h]
      rfl
  · intro hrefuses
    rw [happly]
    rcases Exchange.trySend_cases s.exchange c m with ⟨hr, -⟩ | ⟨-, hpos, h⟩ | ⟨-, hzero, -⟩
    · exact absurd (Or.inr hr) hrefuses
    · rw [h]
      refine ⟨?_, fun d hd => ?_⟩
      · have := hflow c hpos
        rwa [Exchange.inChannel_self] at this
      · have := hflow d hpos
        rwa [inChannel, if_neg (Ne.symm hd)] at this
    · exact absurd (Or.inl (by omega)) hrefuses

/-! ## A queue, a subscription and the listener between them -/

section Subscribed

/-- A session with one queue, whose inbox is `i`, and with one listener that fills it from a new
subscription. -/
def subscribed (capacity places : Nat) (sub : String) (me : PeerName) (token : Token)
    (name : String) : Session :=
  ((Session.start capacity).apply (.listen sub places me "p" token name)).1

variable (capacity places : Nat) (sub : String) (me : PeerName) (token : Token) (name : String)

theorem start_known : 0 < (Session.start capacity).exchange.channels.length := Nat.zero_lt_one

theorem subscribed_eq : subscribed capacity places sub me token name =
    (Session.start capacity).listening places me token (start_known capacity) sub name :=
  apply_listen rfl (start_known capacity)

theorem sound_subscribed : (subscribed capacity places sub me token name).Sound :=
  (Sound.start capacity).change (change_apply _ _)

theorem still_subscribed :
    Still (begunListener (Session.start capacity).exchange places (start_known capacity) me token)
      (subscribed capacity places sub me token name).exchange := by
  rw [subscribed_eq]
  exact still_listening ..

theorem tasks_subscribed : (subscribed capacity places sub me token name).exchange.tasks =
    [⟨0, .listen ⟨1, 0, Nat.zero_lt_one, me, token, none, false⟩⟩] :=
  (still_subscribed capacity places sub me token name).tasks

theorem capacity_subscribed :
    (subscribed capacity places sub me token name).exchange.capacity? 0 = some capacity ∧
      (subscribed capacity places sub me token name).exchange.capacity? 1 = some places := by
  simp only [Exchange.capacity?, (still_subscribed capacity places sub me token name).capacities]
  exact ⟨rfl, rfl⟩

theorem untouched_subscribed (c : Nat) :
    (subscribed capacity places sub me token name).exchange.buffer c = [] ∧
      (subscribed capacity places sub me token name).exchange.accepted c = [] ∧
      (subscribed capacity places sub me token name).exchange.delivered c = [] := by
  have hflow := (flow_apply (Session.start capacity)
    (.listen sub places me "p" token name) c).untouched
  refine ⟨hflow.buffer.trans ?_, hflow.accepted, hflow.delivered⟩
  cases c <;> rfl

theorem senders_subscribed :
    (subscribed capacity places sub me token name).senders.lookup sub = some 1 := by
  rw [subscribed_eq, listening, nameSender]
  exact List.lookup_cons_self

theorem inboxes_subscribed :
    (subscribed capacity places sub me token name).inboxes = [("i", 0)] := by
  rw [subscribed_eq, listening, nameSender]
  exact inboxes_dropSender ..

theorem fed_subscribed : Fed 0 1 0 me token [] (subscribed capacity places sub me token name) := by
  refine ⟨?_, ?_, ?_, ⟨none, rfl⟩⟩
  · rw [subscribed_eq]
    exact forwarding_listening (Sound.start capacity)
  · intro t ht _
    rw [tasks_subscribed, List.mem_singleton] at ht
    rw [ht]
  · intro t ht
    rw [tasks_subscribed, List.mem_singleton] at ht
    rw [ht]
    rfl

end Subscribed

/-! ## What is under way -/

variable {capacity places : Nat} {sub : String} {me : PeerName} {token : Token} {name : String}

/-- **Of what others have published and the subscription has accepted, all that consumers have not
received is under way**: in the queue, in the hands of the listener and in the subscription. -/
theorem backlog_of_fed (hp : Path (subscribed capacity places sub me token name) path s)
    (h : Fed 0 1 0 me token path s) : ∃ held : Option Message,
      foreign me (s.exchange.accepted 1) = s.exchange.delivered 0 ++
        (s.exchange.buffer 0 ++ held.toList ++ foreign me (s.exchange.buffer 1)) ∧
      ∀ t ∈ s.exchange.tasks, t.id = 0 → ∀ l, t.work = .listen l → l.held = held := by
  have huntouched := untouched_subscribed capacity places sub me token name
  have haccepted : s.exchange.accepted 1 = ins 1 path := by
    rw [(flow_path hp 1).accepted, (huntouched 1).2.1, List.nil_append]
  have hdelivered : s.exchange.delivered 0 = outs 0 path := by
    rw [(flow_path hp 0).delivered, (huntouched 0).2.2, List.nil_append]
  have hlaw : ∀ held : Option Message, ins 0 path ++ held.toList = foreign me (outs 1 path) →
      foreign me (s.exchange.accepted 1) = s.exchange.delivered 0 ++
        (s.exchange.buffer 0 ++ held.toList ++ foreign me (s.exchange.buffer 1)) := by
    intro held hheld
    rw [haccepted, hdelivered, ins_eq_outs_append hp (huntouched 1).1, foreign_append, ← hheld,
      ins_eq_outs_append hp (huntouched 0).1]
    simp only [List.append_assoc]
  obtain ⟨held, hheld⟩ := h.kept
  refine ⟨held, hlaw held hheld, ?_⟩
  intro t ht hid l hw
  obtain ⟨l', hw', -, -, -, -, hown⟩ := h.forwarding.law t ht hid
  obtain rfl := Work.listen.inj (hw.symm.trans hw')
  have hsame := List.append_cancel_left (hown.trans hheld.symm)
  cases hl : l.held <;> cases held <;> simp_all

theorem places_path (hp : Path (subscribed capacity places sub me token name) path s) :
    s.exchange.capacity? 0 = some capacity ∧ s.exchange.capacity? 1 = some places := by
  have hlater := (sound_subscribed capacity places sub me token name).later hp
  exact (capacity_subscribed capacity places sub me token name).imp hlater.persists.capacity
    hlater.persists.capacity

/-- **No more is under way than fits into the two channels and the listener's hands.** -/
theorem length_backlog_le (hp : Path (subscribed capacity places sub me token name) path s)
    (held : Option Message) :
    (s.exchange.buffer 0 ++ held.toList ++ foreign me (s.exchange.buffer 1)).length ≤
      capacity + 1 + places := by
  have hs := (sound_subscribed capacity places sub me token name).path hp
  have hqueue := (hs.fits.places (places_path hp).1).1
  have hsub := (hs.fits.places (places_path hp).2).1
  have hforeign : (foreign me (s.exchange.buffer 1)).length ≤ (s.exchange.buffer 1).length :=
    List.length_filter_le ..
  have hheld : held.toList.length ≤ 1 := by cases held <;> simp
  simp only [List.length_append]
  omega

/-- **Where the listener waits.**  A message that it holds, or that waits for it, waits because the
queue is full. -/
theorem full_of_settled (hp : Path (subscribed capacity places sub me token name) path s)
    (h : Fed 0 1 0 me token path s) (hx : s.exchange.Settled)
    (hr : s.exchange.hasReceiver 1 = true) :
    foreign me (s.exchange.accepted 1) = s.exchange.delivered 0 ++ s.exchange.buffer 0 ∧
        s.exchange.buffer 1 = [] ∨
      (s.exchange.buffer 0).length = capacity ∧ ∃ m,
        foreign me (s.exchange.accepted 1) = s.exchange.delivered 0 ++
          (s.exchange.buffer 0 ++ m :: foreign me (s.exchange.buffer 1)) := by
  have hs := (sound_subscribed capacity places sub me token name).path hp
  obtain ⟨hfits, hroom⟩ := hs.fits.places (places_path hp).1
  obtain ⟨t, ht, hid⟩ := (h.hasReceiver_iff hs Nat.zero_lt_one).1 hr
  obtain ⟨l, hw, hsource, htarget, -⟩ := h.forwarding.law t ht hid
  obtain ⟨held, hlaw, hheld⟩ := backlog_of_fed hp h
  obtain rfl := hheld t ht hid l hw
  rcases hx.listener ht hw with ⟨hnone, hempty, -⟩ | ⟨m, hm, hpush⟩
  · rw [hsource] at hempty
    refine Or.inl ⟨?_, hempty⟩
    simpa [hnone, hempty, foreign] using hlaw
  · rw [htarget] at hpush
    have hzero := hx.room_eq_zero hpush
    refine Or.inr ⟨by omega, m, ?_⟩
    simpa [hm] using hlaw

/-! ## A listener that nothing stops -/

/-- Whether a move is an act, an offer to a subscription, or a look into the inbox `i`. -/
def Cause.Plain (sub : String) : Cause → Prop
  | .step (.offer tx _) => tx = sub
  | .step (.tryReceive inbox) => inbox = "i"
  | .step _ => False
  | .act _ _ => True

/-- A listener works alone, and nothing can stop it: publishers and consumers are there, and it is
not cancelled. -/
structure Working (sub : String) (token : Token) (s : Session) : Prop where
  alone : ∀ t ∈ s.exchange.tasks, t.id = 0
  alive : ∃ t ∈ s.exchange.tasks, t.id = 0
  offered : s.senders.lookup sub = some 1
  heard : s.inboxes = [("i", 0)]
  current : s.exchange.isCancelled token = false

/-- A plain step moves messages and does nothing else. -/
theorem apply_of_plain {st : Step} (h : (Cause.step st).Plain sub) :
    ∃ y, s.exchange.OnlyMessages y ∧ (s.apply st).1 = s.withExchange y := by
  cases st with
  | offer tx m =>
    simp only [apply, withSender]
    split
    · rename_i c _
      exact ⟨_, s.exchange.onlyMessages_offer c m, rfl⟩
    · exact ⟨_, .refl _, rfl⟩
  | tryReceive inbox =>
    simp only [apply, withInbox]
    split
    · rename_i c _
      exact ⟨_, s.exchange.onlyMessages_tryReceive c, rfl⟩
    · exact ⟨_, .refl _, rfl⟩
  | _ => exact absurd h id

namespace Working

/-- A plain move leaves the ends of the listener alone. -/
theorem onlyOffers (h : s.Working sub token) (hk : k.Plain sub) : k.OnlyOffers s 1 0 := by
  rintro st rfl
  cases st with
  | offer tx m =>
    obtain rfl : tx = sub := hk
    refine ⟨fun tx' htx _ => ⟨m, ?_⟩, fun tx' htx => ?_⟩
    · rw [Option.some.inj htx]
    · rw [← Option.some.inj htx, h.offered]
      simp
  | tryReceive inbox => exact ⟨fun _ htx => (nomatch htx), fun _ htx => (nomatch htx)⟩
  | _ => exact absurd hk id

/-- **Nothing stops the listener.** -/
theorem not_mayStop (h : s.Working sub token) (hs : s.Sound)
    {l : Listener} (hsource : l.source = 1) (htarget : l.target = 0) (htoken : l.token = token) :
    ¬ s.exchange.MayStop l := by
  intro hstop
  cases hstop with
  | cancelled hc =>
    rw [htoken, h.current] at hc
    cases hc
  | drained _ _ hnone =>
    have hheld := (hs.hasSender_iff 1).2 (Or.inl ⟨_, mem_of_lookup_eq_some h.offered, rfl⟩)
    rw [hsource, hheld] at hnone
    cases hnone
  | unheard _ hnone =>
    have hheld := (hs.hasReceiver_iff 0).2 (Or.inl ⟨("i", 0), by simp [h.heard], rfl⟩)
    rw [htarget, hheld] at hnone
    cases hnone

/-- **A plain move leaves the listener at work.** -/
theorem next (h : s.Working sub token) (hs : s.Sound) (hfed : Fed 0 1 0 me token path s)
    (hk : Next s k s') (hplain : k.Plain sub) : s'.Working sub token := by
  cases hk with
  | step st =>
    obtain ⟨y, hy, happly⟩ := apply_of_plain (s := s) hplain
    rw [happly]
    refine ⟨?_, ?_, h.offered, h.heard, ?_⟩
    · rw [withExchange, hy.tasks]
      exact h.alone
    · rw [withExchange, hy.tasks]
      exact h.alive
    · rw [withExchange, Exchange.isCancelled, hy.cancelled]
      exact h.current
  | @act t a ht ha =>
    obtain ⟨l, hw, hsource, htarget, -, htoken, -⟩ := hfed.forwarding.law t ht (h.alone t ht)
    have hcancelled : (s.exchange.perform t a).cancelled = s.exchange.cancelled := by
      rw [ha.onlyMessages_perform.cancelled, Exchange.cancelled_conclude]
      rfl
    have hgoes : ∃ w, a.after = .goesOn w := by
      rcases ha.listener hw with ⟨l', hafter, -⟩ | ⟨-, hstop⟩
      · exact ⟨_, hafter⟩
      · exact absurd hstop (h.not_mayStop hs hsource htarget htoken)
    obtain ⟨w, hafter⟩ := hgoes
    refine ⟨?_, ⟨⟨t.id, w⟩, ?_, h.alone t ht⟩, h.offered, h.heard, ?_⟩
    · intro u hu
      obtain ⟨v, hv, hid, -⟩ := Exchange.mem_tasks_of_perform ht ha hu
      exact hid ▸ h.alone v hv
    · exact Exchange.mem_tasks_perform_of_goesOn s.exchange t hafter
    · rw [withExchange, Exchange.isCancelled, hcancelled]
      exact h.current

/-- **A plain path leaves the listener at work, and its law in force.** -/
theorem along (h : s.Working sub token) (hs : s.Sound) (hfed : Fed 0 1 0 me token path s)
    {path' : List (Session × Cause)} (hp : Path s path' s') (hplain : ∀ p ∈ path', p.2.Plain sub) :
    Fed 0 1 0 me token (path ++ path') s' ∧ s'.Working sub token := by
  induction hp with
  | refl =>
    rw [List.append_nil]
    exact ⟨hfed, h⟩
  | snoc hp hk ih =>
    obtain ⟨hfed', hworking⟩ := ih fun p hmem => hplain p (List.mem_append_left _ hmem)
    have hlast := hplain _ (List.mem_append_right _ (List.mem_singleton_self _))
    rw [← List.append_assoc]
    exact ⟨hfed'.next (hs.path hp) Nat.zero_lt_one hk (hworking.onlyOffers hlast),
      hworking.next (hs.path hp) hfed' hk hlast⟩

end Working

/-! ## At rest -/

/-- A session with a queue, a subscription and a listener at work, to whose subscription messages of
others have been offered and whose inbox has been looked into, and which is at rest. -/
structure Idle (capacity places : Nat) (sub : String) (me : PeerName) (token : Token)
    (name : String) (s : Session) : Prop where
  settled : s.exchange.Settled
  reached : ∃ path, Path (subscribed capacity places sub me token name) path s ∧
    Fed 0 1 0 me token path s
  working : s.Working sub token
  clean : ∀ m ∈ s.exchange.accepted 1, m.sender ≠ me

theorem foreign_eq_self {ms : List Message} (h : ∀ m ∈ ms, m.sender ≠ me) : foreign me ms = ms :=
  List.filter_eq_self.2 fun m hm => by simpa using h m hm

namespace Idle

theorem sound (h : Idle capacity places sub me token name s) : s.Sound := by
  obtain ⟨path, hp, -⟩ := h.reached
  exact (sound_subscribed capacity places sub me token name).path hp

theorem hasReceiver (h : Idle capacity places sub me token name s) :
    s.exchange.hasReceiver 1 = true := by
  obtain ⟨path, -, hfed⟩ := h.reached
  exact (hfed.hasReceiver_iff h.sound Nat.zero_lt_one).2 h.working.alive

theorem clean_buffer (h : Idle capacity places sub me token name s) :
    foreign me (s.exchange.buffer 1) = s.exchange.buffer 1 := by
  obtain ⟨path, hp, -⟩ := h.reached
  have huntouched := untouched_subscribed capacity places sub me token name 1
  have haccepted : s.exchange.accepted 1 = outs 1 path ++ s.exchange.buffer 1 := by
    rw [(flow_path hp 1).accepted, huntouched.2.1, List.nil_append,
      ins_eq_outs_append hp huntouched.1]
  exact foreign_eq_self fun m hm => h.clean m (haccepted ▸ List.mem_append_right _ hm)

/-- **What is accepted and not received at rest**: the queue and nothing else, or a full queue, one
message in the hands of the listener, and the subscription. -/
theorem backlog (h : Idle capacity places sub me token name s) :
    s.exchange.accepted 1 = s.exchange.delivered 0 ++ s.exchange.buffer 0 ∧
        s.exchange.buffer 1 = [] ∨
      (s.exchange.buffer 0).length = capacity ∧ ∃ m, s.exchange.accepted 1 =
        s.exchange.delivered 0 ++ (s.exchange.buffer 0 ++ m :: s.exchange.buffer 1) := by
  obtain ⟨path, hp, hfed⟩ := h.reached
  have hrest := full_of_settled hp hfed h.settled h.hasReceiver
  rwa [foreign_eq_self h.clean, h.clean_buffer] at hrest

/-- **A plain step leads from rest to rest**, and what it has let into the subscription and out of
the queue is what it has done before any task acts. -/
theorem step (h : Idle capacity places sub me token name s) (st : Step)
    (hplain : (Cause.step st).Plain sub)
    (hclean : ∀ m ∈ (s.apply st).1.exchange.accepted 1, m.sender ≠ me) :
    Idle capacity places sub me token name (s.step st).1 ∧
      (s.step st).1.exchange.accepted 1 = (s.apply st).1.exchange.accepted 1 ∧
      (s.step st).1.exchange.delivered 0 = (s.apply st).1.exchange.delivered 0 := by
  obtain ⟨path, hp, hfed⟩ := h.reached
  have hstep : Path s [(s, .step st)] (s.apply st).1 := .single (.step st)
  have hs := h.sound.path hstep
  obtain ⟨hfed', hworking⟩ := h.working.along h.sound hfed hstep fun p hmem => by
    rw [List.mem_singleton.1 hmem]
    exact hplain
  have haccepted : (s.step st).1.exchange.accepted 1 = (s.apply st).1.exchange.accepted 1 :=
    Exchange.accepted_settle hfed'.subscription
  have hdelivered : (s.step st).1.exchange.delivered 0 = (s.apply st).1.exchange.delivered 0 := by
    refine Exchange.delivered_settle fun t ht => ?_
    obtain ⟨l, hw, hsource, -⟩ := hfed'.forwarding.law t ht (hworking.alone t ht)
    rw [hw, Work.holdsReceiver, hsource]
    rfl
  obtain ⟨acts, hacts, hall⟩ := Path.settleFrom (s.apply st).1 [] []
  obtain ⟨hfed'', hworking'⟩ := hworking.along hs hfed' hacts fun p hmem => by
    obtain ⟨t, a, hact⟩ := hall p hmem
    rw [hact]
    exact trivial
  refine ⟨⟨Exchange.settled_settle _, ⟨_, (hp.trans hstep).trans hacts, hfed''⟩, hworking', ?_⟩,
    haccepted, hdelivered⟩
  intro m hm
  exact hclean m (haccepted ▸ hm)

/-- **One offer at rest**: the message is kept if less is under way than there are places. -/
theorem offer (h : Idle capacity places sub me token name s) (hplaces : 1 ≤ places) {m : Message}
    (hm : m.sender ≠ me) :
    Idle capacity places sub me token name (s.step (.offer sub m)).1 ∧
      (s.step (.offer sub m)).1.exchange.delivered 0 = s.exchange.delivered 0 ∧
      (s.step (.offer sub m)).1.exchange.accepted 1 = s.exchange.accepted 1 ++
        [m].take ((s.exchange.delivered 0).length + (capacity + 1 + places) -
          (s.exchange.accepted 1).length) := by
  obtain ⟨path, hp, hfed⟩ := h.reached
  have hcap := places_path hp
  have hqueue := (h.sound.fits.places hcap.1).1
  have hsub := (h.sound.fits.places hcap.2).1
  have htakes := takes_of_unfed h.sound hfed.subscription hcap.2 h.working.offered m
  have hlength : s.Refuses 1 places ↔ (s.exchange.delivered 0).length + (capacity + 1 + places) ≤
      (s.exchange.accepted 1).length := by
    rw [Refuses, h.hasReceiver]
    rcases h.backlog with ⟨hall, hnone⟩ | ⟨hfull, held, hall⟩
    · simp only [hall, hnone, List.length_append, List.length_nil, Bool.true_eq_false, or_false]
      omega
    · simp only [hall, List.length_append, List.length_cons, Bool.true_eq_false, or_false]
      omega
  by_cases hrefuses : s.Refuses 1 places
  · have hsame := htakes.dropped hrefuses
    obtain ⟨hidle, haccepted, hdelivered⟩ := h.step (.offer sub m) rfl fun m' hm' =>
      h.clean m' (hsame ▸ hm')
    refine ⟨hidle, hdelivered.trans (by rw [hsame]), haccepted.trans ?_⟩
    rw [hsame, Nat.sub_eq_zero_of_le (hlength.1 hrefuses), List.take_zero, List.append_nil]
  · obtain ⟨hflow, hothers⟩ := htakes.accepted hrefuses
    obtain ⟨hidle, haccepted, hdelivered⟩ := h.step (.offer sub m) rfl fun m' hm' => by
      rw [hflow.accepted, List.mem_append, List.mem_singleton] at hm'
      rcases hm' with hm' | rfl
      · exact h.clean m' hm'
      · exact hm
    refine ⟨hidle, hdelivered.trans ?_, haccepted.trans ?_⟩
    · rw [(hothers 0 Nat.zero_ne_one).delivered, List.append_nil]
    · rw [hlength] at hrefuses
      rw [hflow.accepted, List.take_of_length_le]
      simp only [List.length_singleton]
      omega

/-- **One look into the inbox at rest** finds the first message that is under way. -/
theorem tryReceive (h : Idle capacity places sub me token name s) (hcapacity : 1 ≤ capacity)
    {ms : List Message} (hms : s.exchange.accepted 1 = s.exchange.delivered 0 ++ ms) :
    (s.apply (.tryReceive "i")).2 = .found (ms.head?.elim .nothing .message) ∧
      Idle capacity places sub me token name (s.step (.tryReceive "i")).1 ∧
      (s.step (.tryReceive "i")).1.exchange.accepted 1 =
        (s.step (.tryReceive "i")).1.exchange.delivered 0 ++ ms.tail := by
  have happly : s.apply (.tryReceive "i") =
      (s.withExchange (s.exchange.tryReceive 0).1, .found (s.exchange.tryReceive 0).2) := by
    simp only [apply, withInbox, h.working.heard]
    rfl
  have hflow : ∀ c, Flow s.exchange (s.apply (.tryReceive "i")).1.exchange c []
      (inChannel c 0 (s.exchange.tryReceive 0).2.messages) := by
    rw [happly]
    exact s.exchange.flow_tryReceive 0
  have hkept : (s.apply (.tryReceive "i")).1.exchange.accepted 1 = s.exchange.accepted 1 := by
    rw [(hflow 1).accepted, List.append_nil]
  obtain ⟨hidle, haccepted, hdelivered⟩ := h.step (.tryReceive "i") rfl fun m hm =>
    h.clean m (hkept ▸ hm)
  have hfound : (s.exchange.tryReceive 0).2 = ms.head?.elim .nothing .message := by
    cases hb : s.exchange.buffer 0 with
    | cons m rest =>
      have hhead : ms.head? = some m := by
        rcases h.backlog with ⟨hall, -⟩ | ⟨-, held, hall⟩ <;>
          rw [hms, List.append_cancel_left_eq] at hall <;> simp [hall, hb]
      rw [h.settled.tryReceive hb, hhead]
      rfl
    | nil =>
      have hnone : ms = [] := by
        rcases h.backlog with ⟨hall, -⟩ | ⟨hfull, -⟩
        · rw [hms, hb, List.append_cancel_left_eq] at hall
          exact hall
        · rw [hb, List.length_nil] at hfull
          omega
      obtain ⟨t, ht, hid⟩ := h.working.alive
      obtain ⟨path, -, hfed⟩ := h.reached
      obtain ⟨l, hw, -, htarget, -⟩ := hfed.forwarding.law t ht hid
      have hsender : s.exchange.hasSender 0 = true := by
        rw [h.sound.hasSender_iff]
        refine Or.inr ⟨t, ht, ?_⟩
        rw [hw]
        exact beq_iff_eq.2 htarget
      rw [hnone, Exchange.tryReceive]
      split
      · rfl
      · rw [hb]
        rfl
  refine ⟨?_, hidle, ?_⟩
  · rw [happly, hfound]
  · rw [haccepted, hdelivered, hkept, (hflow 0).delivered, hfound, hms, Exchange.inChannel_self,
      List.append_assoc, List.append_cancel_left_eq]
    cases ms <;> rfl

end Idle

/-- A new listener waits for its first message. -/
theorem idle_subscribed : Idle capacity places sub me token name
    (subscribed capacity places sub me token name) := by
  have hs := sound_subscribed capacity places sub me token name
  have hstill := still_subscribed capacity places sub me token name
  have huntouched := untouched_subscribed capacity places sub me token name 1
  have htasks := tasks_subscribed capacity places sub me token name
  have hsenders := senders_subscribed capacity places sub me token name
  have hcurrent : (subscribed capacity places sub me token name).exchange.isCancelled token =
      false := by
    rw [Exchange.isCancelled, hstill.cancelled]
    rfl
  refine ⟨?_, ⟨[], .refl, fed_subscribed ..⟩, ⟨?_, ?_, hsenders, ?_, hcurrent⟩, ?_⟩
  · have hwaits : (subscribed capacity places sub me token name).exchange.hasSender 1 = true :=
      (hs.hasSender_iff 1).2 (Or.inl ⟨_, mem_of_lookup_eq_some hsenders, rfl⟩)
    rw [Exchange.Settled, Exchange.able, htasks]
    simp [Exchange.act?, Exchange.listenerAct?, hcurrent, huntouched.1, hwaits]
  · intro t ht
    rw [htasks, List.mem_singleton] at ht
    rw [ht]
  · rw [htasks]
    exact ⟨_, List.mem_singleton_self _, rfl⟩
  · exact inboxes_subscribed ..
  · rw [huntouched.2.1]
    exact fun m hm => absurd hm List.not_mem_nil

/-- **Offers at rest**: the first ones are kept, as many as there are places for. -/
theorem Idle.offers (h : Idle capacity places sub me token name s) (hplaces : 1 ≤ places)
    {ms : List Message} (hms : ∀ m ∈ ms, m.sender ≠ me) :
    Idle capacity places sub me token name (s.after (ms.map (.offer sub))) ∧
      (s.after (ms.map (.offer sub))).exchange.delivered 0 = s.exchange.delivered 0 ∧
      (s.after (ms.map (.offer sub))).exchange.accepted 1 = s.exchange.accepted 1 ++
        ms.take ((s.exchange.delivered 0).length + (capacity + 1 + places) -
          (s.exchange.accepted 1).length) := by
  induction ms generalizing s with
  | nil => exact ⟨h, rfl, by simp [after]⟩
  | cons m ms ih =>
    obtain ⟨hidle, hdelivered, haccepted⟩ := h.offer hplaces (hms m List.mem_cons_self)
    obtain ⟨hidle', hdelivered', haccepted'⟩ := ih hidle fun m' hm' =>
      hms m' (List.mem_cons_of_mem _ hm')
    refine ⟨hidle', hdelivered'.trans hdelivered, haccepted'.trans ?_⟩
    rw [hdelivered, haccepted, List.append_assoc]
    generalize (s.exchange.delivered 0).length + (capacity + 1 + places) = bound
    cases hleft : bound - (s.exchange.accepted 1).length with
    | zero =>
      have : bound - (s.exchange.accepted 1 ++ [m].take 0).length = 0 := by simpa using hleft
      rw [this]
      simp
    | succ left =>
      have : bound - (s.exchange.accepted 1 ++ [m].take (left + 1)).length = left := by
        simp only [List.take_succ_cons, List.take_nil, List.length_append, List.length_singleton]
        omega
      rw [this]
      simp

/-- **Looks at rest**: they find what is under way, in order, and then nothing. -/
theorem Idle.looks (h : Idle capacity places sub me token name s) (hcapacity : 1 ≤ capacity)
    {ms : List Message} (hms : s.exchange.accepted 1 = s.exchange.delivered 0 ++ ms) (looks : Nat) :
    (s.run (List.replicate looks (.tryReceive "i"))).map (·.1) =
      (ms.map (fun m => Answer.found (.message m)) ++
        List.replicate looks (Answer.found .nothing)).take looks := by
  induction looks generalizing s ms with
  | zero => rfl
  | succ looks ih =>
    obtain ⟨hanswer, hidle, hrest⟩ := h.tryReceive hcapacity hms
    have hrun : (s.run (List.replicate (looks + 1) (.tryReceive "i"))).map (·.1) =
        (s.apply (.tryReceive "i")).2 ::
          ((s.step (.tryReceive "i")).1.run (List.replicate looks (.tryReceive "i"))).map (·.1) :=
      rfl
    rw [hrun, hanswer, ih hidle hrest]
    cases ms with
    | nil => simp [List.replicate_succ]
    | cons m ms =>
      simp only [List.head?_cons, Option.elim_some, List.tail_cons, List.map_cons, List.cons_append,
        List.take_succ_cons, List.take_append, List.take_replicate]
      congr 3
      omega

/-! ## The law of overflow -/

/-- **Overflow drops the newest message, and only from a full subscription.**

Messages come to the subscription by offers alone and to the queue from the listener alone; all
else may happen in any order. -/
theorem overflow_drops_newest_only (hcapacity : 1 ≤ capacity) (hplaces : 1 ≤ places) :
    (∀ path s, Path (subscribed capacity places sub me token name) path s →
      (∀ p ∈ path, p.2.OnlyOffers p.1 1 0) →
      (∀ tx m, s.senders.lookup tx = some 1 → s.Takes 1 places tx m) ∧
      (s.exchange.hasReceiver 1 = true ↔ ∃ t ∈ s.exchange.tasks, t.id = 0) ∧
      (∃ waiting, foreign me (s.exchange.accepted 1) = s.exchange.delivered 0 ++ waiting ∧
        waiting.length ≤ capacity + 1 + places) ∧
      (s.exchange.Settled → s.exchange.hasReceiver 1 = true → s.exchange.buffer 0 = [] →
        foreign me (s.exchange.accepted 1) = s.exchange.delivered 0)) ∧
    (∀ ms : List Message, (∀ m ∈ ms, m.sender ≠ me) →
      let s := (subscribed capacity places sub me token name).after (ms.map (.offer sub))
      s.exchange.delivered 0 = [] ∧
      s.exchange.accepted 1 = ms.take (capacity + 1 + places) ∧
      ∀ looks, (s.run (List.replicate looks (.tryReceive "i"))).map (·.1) =
        ((ms.take (capacity + 1 + places)).map (fun m => Answer.found (.message m)) ++
          List.replicate looks (Answer.found .nothing)).take looks) := by
  have hsound := sound_subscribed capacity places sub me token name
  refine ⟨?_, ?_⟩
  · intro path s hp honly
    have hs := hsound.path hp
    have hfed := fed_path hsound (fed_subscribed ..) Nat.zero_lt_one hp honly
    refine ⟨?_, hfed.hasReceiver_iff hs Nat.zero_lt_one, ?_, ?_⟩
    · intro tx m hl
      exact takes_of_unfed hs hfed.subscription (places_path hp).2 hl m
    · obtain ⟨held, hlaw, -⟩ := backlog_of_fed hp hfed
      exact ⟨_, hlaw, length_backlog_le hp held⟩
    · intro hx hr hempty
      rcases full_of_settled hp hfed hx hr with ⟨hall, -⟩ | ⟨hfull, -⟩
      · rwa [hempty, List.append_nil] at hall
      · rw [hempty, List.length_nil] at hfull
        omega
  · intro ms hms s
    have huntouched := untouched_subscribed capacity places sub me token name
    have hstart : Idle capacity places sub me token name _ := idle_subscribed
    obtain ⟨hidle, hdelivered, haccepted⟩ := hstart.offers hplaces hms
    rw [(huntouched 0).2.2] at hdelivered haccepted
    rw [(huntouched 1).2.1, List.nil_append, List.length_nil, Nat.zero_add, Nat.sub_zero]
      at haccepted
    refine ⟨hdelivered, haccepted, hidle.looks hcapacity ?_⟩
    rw [hdelivered, haccepted, List.nil_append]

/-- A queue and a subscription have one place each.  A second message that is offered before the
listener acts is dropped; of five that are offered in turn the first three are kept and found. -/
theorem overflow_drops_newest_only_three :
    let start := subscribed 1 1 "sub" ⟨"me"⟩ "stop" "l"
    let ms := (List.range 5).map fun i => Message.onTopic ⟨"a"⟩ "t" [UInt8.ofNat i]
    1 ≤ 1 ∧
    (∃ path s, Path start path s ∧ (∀ p ∈ path, p.2.OnlyOffers p.1 1 0) ∧ s.Refuses 1 1 ∧
      (s.apply (.offer "sub" (.onTopic ⟨"a"⟩ "t" [9]))).1 = s) ∧
    (∀ m ∈ ms, m.sender ≠ ⟨"me"⟩) ∧
    ((start.after (ms.map (.offer "sub"))).run (List.replicate 4 (.tryReceive "i"))).map (·.1) =
      (ms.take 3).map (fun m => Answer.found (.message m)) ++ [Answer.found .nothing] := by
  intro start ms
  have hp := Path.single (.step (s := start) (.offer "sub" (.onTopic ⟨"a"⟩ "t" [0])))
  have honly : ∀ p ∈ [(start, Cause.step (.offer "sub" (.onTopic ⟨"a"⟩ "t" [0])))],
      p.2.OnlyOffers p.1 1 0 := by
    intro p hmem
    rw [List.mem_singleton.1 hmem]
    exact idle_subscribed.working.onlyOffers rfl
  have hms : ∀ m ∈ ms, m.sender ≠ ⟨"me"⟩ := by decide
  obtain ⟨hpaths, hoffers⟩ := @overflow_drops_newest_only 1 1 "sub" ⟨"me"⟩ "stop" "l"
    (Nat.le_refl 1) (Nat.le_refl 1)
  refine ⟨Nat.le_refl 1, ⟨_, _, hp, honly, Or.inl rfl, ?_⟩, hms, (hoffers ms hms).2.2 4⟩
  exact ((hpaths _ _ hp honly).1 "sub" _ rfl).dropped (Or.inl rfl)

end Session
end PeerNode
