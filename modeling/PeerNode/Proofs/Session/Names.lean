import PeerNode.Proofs.Exchange.Holders

/-!
# Names stand for holders

An exchange only counts the holders of an end that are no tasks; a session knows them by name.
The two have to agree: an end that is counted and has no name could never be given up, and a name
that is not counted would let its bearer use a channel that is closed to everybody else.

Some steps count an end before they name it, so the agreement is stated with ends that are owed a
name (`Accounts`).

* `Accounts`: a table of names and the ends that are owed a name account for a count.
* `Accounts.drop`, `Accounts.pay`: a name is given up, and an end is given its name.
* `Sound`: the names of a session account for all holders that are no tasks, and its tasks are
  tidy.
* `Sound.hasSender_iff`, `Sound.hasReceiver_iff`: who holds an end.
-/

namespace PeerNode
namespace Session

variable {table : List (String × Nat)} {channels : List Channel} {held : Channel → Nat}
  {owed : List Nat} {name : String} {c : Nat}

/-! ## Tables -/

/-- A table of names and the ends `owed` a name account for the holders that channels count. -/
structure Accounts (table : List (String × Nat)) (owed : List Nat) (channels : List Channel)
    (held : Channel → Nat) : Prop where
  distinct : (table.map (·.1)).Nodup
  known : ∀ p ∈ table, p.2 < channels.length
  counted : ∀ c channel, channels[c]? = some channel →
    held channel = table.countP (·.2 == c) + owed.count c

theorem notMem_forget (name : String) (table : List (String × Nat)) :
    name ∉ (forget name table).map (·.1) := by
  simp [forget]

theorem notMem_of_lookup_eq_none (h : table.lookup name = none) : name ∉ table.map (·.1) := by
  intro hm
  obtain ⟨p, hp, rfl⟩ := List.mem_map.1 hm
  have := List.lookup_eq_none_iff.1 h p hp
  simp at this

theorem mem_of_lookup_eq_some (h : table.lookup name = some c) : (name, c) ∈ table := by
  obtain ⟨l₁, l₂, rfl, -⟩ := List.lookup_eq_some_iff.1 h
  exact List.mem_append_right _ List.mem_cons_self

theorem eq_of_mem_of_lookup {d : Nat} (h : (table.map (·.1)).Nodup) (hm : (name, d) ∈ table)
    (hl : table.lookup name = some c) : d = c :=
  congrArg Prod.snd (List.inj_on_of_nodup_map h hm (mem_of_lookup_eq_some hl) rfl)

/-- To forget a name is to take one entry out of the table. -/
theorem perm_cons_forget (h : (table.map (·.1)).Nodup) (hl : table.lookup name = some c) :
    table.Perm ((name, c) :: forget name table) := by
  obtain ⟨l₁, l₂, rfl, hne⟩ := List.lookup_eq_some_iff.1 hl
  rw [List.map_append, List.map_cons, List.nodup_append, List.nodup_cons] at h
  have h₁ : l₁.filter (·.1 != name) = l₁ := by
    rw [List.filter_eq_self]
    intro p hp
    have := hne p hp
    simp only [bne_iff_ne, ne_eq] at this ⊢
    exact fun he => this he.symm
  have h₂ : l₂.filter (·.1 != name) = l₂ := by
    rw [List.filter_eq_self]
    intro p hp
    rw [bne_iff_ne]
    intro he
    exact h.2.1.1 (List.mem_map.2 ⟨p, hp, he⟩)
  have hf : forget name (l₁ ++ (name, c) :: l₂) = l₁ ++ l₂ := by
    simp [forget, h₁, h₂]
  rw [hf]
  exact List.perm_middle

namespace Accounts

/-- Nothing but the counts matters. -/
theorem congr {channels' : List Channel} (h : Accounts table owed channels held)
    (hch : channels'.map held = channels.map held) : Accounts table owed channels' held := by
  have hlen : channels'.length = channels.length := by
    simpa using congrArg List.length hch
  refine ⟨h.distinct, fun p hp => by rw [hlen]; exact h.known p hp, ?_⟩
  intro c channel hc
  have he : channels'[c]?.map held = channels[c]?.map held := by
    simpa using congrArg (fun l => l[c]?) hch
  rw [hc] at he
  cases hc' : channels[c]? with
  | none => simp [hc'] at he
  | some ch =>
    rw [hc', Option.map_some, Option.map_some, Option.some.injEq] at he
    rw [he]
    exact h.counted c ch hc'

theorem of_emptied {channels' : List Channel} (h : Accounts table owed channels held)
    (hch : channels'.map Channel.emptied = channels.map Channel.emptied)
    (hheld : ∀ ch, held ch.emptied = held ch) : Accounts table owed channels' held := by
  have hmap : ∀ l : List Channel, l.map held = (l.map Channel.emptied).map held := by
    intro l
    rw [List.map_map]
    exact List.map_congr_left fun ch _ => (hheld ch).symm
  refine h.congr ?_
  rw [hmap, hch, ← hmap]

theorem of_modify {f : Channel → Channel} (h : Accounts table owed channels held)
    (hf : ∀ ch, held (f ch) = held ch) : Accounts table owed (channels.modify c f) held := by
  refine h.congr ?_
  apply List.ext_getElem?
  intro d
  simp only [List.getElem?_map, List.getElem?_modify]
  cases channels[d]? with
  | none => rfl
  | some ch => by_cases hd : c = d <;> simp [hd, hf]

/-- A channel is counted as held by somebody exactly when a name stands for it or is owed. -/
theorem any_pos_iff_owed (h : Accounts table owed channels held)
    (howed : ∀ c ∈ owed, c < channels.length) (c : Nat) :
    channels[c]?.any (fun ch => decide (0 < held ch)) = true ↔
      (∃ p ∈ table, p.2 = c) ∨ c ∈ owed := by
  cases hc : channels[c]? with
  | none =>
    have hge : channels.length ≤ c := by simpa using hc
    simp only [Option.any_none, Bool.false_eq_true, false_iff, not_or, not_exists, not_and]
    refine ⟨?_, fun hmem => absurd (howed c hmem) (by omega)⟩
    rintro p hp rfl
    exact absurd (h.known p hp) (by omega)
  | some ch =>
    rw [Option.any_some, decide_eq_true_eq, h.counted c ch hc, Nat.add_pos_iff_pos_or_pos,
      List.countP_pos_iff, List.count_pos_iff]
    simp only [beq_iff_eq]

theorem any_pos_iff (h : Accounts table [] channels held) (c : Nat) :
    channels[c]?.any (fun ch => decide (0 < held ch)) = true ↔ ∃ p ∈ table, p.2 = c := by
  rw [h.any_pos_iff_owed (fun c hc => absurd hc List.not_mem_nil)]
  simp

/-- One holder more is owed a name. -/
theorem lend {f : Channel → Channel} (hf : ∀ ch, held (f ch) = held ch + 1)
    (h : Accounts table owed channels held) :
    Accounts table (c :: owed) (channels.modify c f) held := by
  refine ⟨h.distinct, fun p hp => by rw [List.length_modify]; exact h.known p hp, ?_⟩
  intro d channel hd
  obtain ⟨ch, hch, rfl⟩ := Exchange.exists_of_modify hd
  have hcount := h.counted d ch hch
  rw [List.count_cons]
  by_cases hcd : c = d
  · rw [if_pos hcd, hf, hcount, if_pos (by simpa using hcd)]
    omega
  · rw [if_neg hcd, hcount, if_neg (by simpa using hcd)]
    omega

/-- A name is given up together with what it stands for. -/
theorem drop {f : Channel → Channel} (hf : ∀ ch, held (f ch) = held ch - 1)
    (h : Accounts table owed channels held) (hl : table.lookup name = some c) :
    Accounts (forget name table) owed (channels.modify c f) held := by
  have hperm := perm_cons_forget h.distinct hl
  refine ⟨?_, ?_, ?_⟩
  · exact ((hperm.map (·.1)).nodup_iff.1 h.distinct).of_cons
  · intro p hp
    rw [List.length_modify]
    exact h.known p (List.mem_of_mem_filter hp)
  · intro d channel hd
    obtain ⟨ch, hch, rfl⟩ := Exchange.exists_of_modify hd
    have hcount := h.counted d ch hch
    rw [hperm.countP_eq, List.countP_cons] at hcount
    by_cases hcd : c = d
    · rw [if_pos (by simpa using hcd)] at hcount
      rw [if_pos hcd, hf, hcount]
      omega
    · rw [if_neg (by simpa using hcd)] at hcount
      rw [if_neg hcd, hcount]
      omega

/-- An end that is owed a name gets one that is free. -/
theorem pay (h : Accounts table (c :: owed) channels held) (hc : c < channels.length)
    (hn : name ∉ table.map (·.1)) : Accounts ((name, c) :: table) owed channels held := by
  refine ⟨?_, ?_, ?_⟩
  · rw [List.map_cons, List.nodup_cons]
    exact ⟨hn, h.distinct⟩
  · intro p hp
    rcases List.mem_cons.1 hp with rfl | hp
    · exact hc
    · exact h.known p hp
  · intro d channel hd
    have := h.counted d channel hd
    simp only [List.count_cons, List.countP_cons] at this ⊢
    omega

/-- A new channel whose holders are owed a name each, beside others. -/
theorem extend_owed (h : Accounts table owed channels held) (ch : Channel) (new : List Nat)
    (howed : ∀ c ∈ owed, c < channels.length) (how : held ch = new.count channels.length)
    (hlow : ∀ c ∈ new, c = channels.length) :
    Accounts table (new ++ owed) (channels ++ [ch]) held := by
  refine ⟨h.distinct, ?_, ?_⟩
  · intro p hp
    rw [List.length_append]
    exact Nat.lt_add_right _ (h.known p hp)
  · intro d channel hd
    rw [List.getElem?_append] at hd
    rw [List.count_append]
    split at hd
    · rename_i hlt
      have hnone : new.count d = 0 := by
        rw [List.count_eq_zero]
        intro hm
        exact absurd (hlow d hm) (by omega)
      rw [h.counted d channel hd, hnone, Nat.zero_add]
    · rename_i hge
      have hd0 : d - channels.length = 0 := by
        have := (List.getElem?_eq_some_iff.1 hd).1
        simpa using this
      rw [hd0, List.getElem?_cons_zero, Option.some.injEq] at hd
      have hnone : table.countP (·.2 == d) = 0 := by
        rw [List.countP_eq_zero]
        intro p hp
        have := h.known p hp
        simp only [beq_iff_eq]
        omega
      have hold : owed.count d = 0 := by
        rw [List.count_eq_zero]
        intro hm
        exact absurd (howed d hm) (by omega)
      rw [← hd, hnone, how, hold, show d = channels.length by omega, Nat.zero_add, Nat.add_zero]

theorem extend {ch : Channel} (h : Accounts table [] channels held)
    (how : held ch = owed.count channels.length) (hlow : ∀ c ∈ owed, c = channels.length) :
    Accounts table owed (channels ++ [ch]) held := by
  have := h.extend_owed ch owed (fun c hc => absurd hc List.not_mem_nil) how hlow
  rwa [List.append_nil] at this

end Accounts

/-! ## Sessions -/

/-- The names of a session account for all holders that are no tasks, the one queue with named
inboxes is the first channel, the tasks are tidy and the messages fit into the channels. -/
structure Sound (s : Session) : Prop where
  senders : Accounts s.senders [] s.exchange.channels (·.senders)
  inboxes : Accounts s.inboxes [] s.exchange.channels (·.inboxes)
  queue : ∀ p ∈ s.inboxes, p.2 = 0
  tidy : s.exchange.Tidy
  fits : s.exchange.Fits

variable {s : Session}

namespace Sound

theorem sender_lt (h : s.Sound) {tx : String} (hl : s.senders.lookup tx = some c) :
    c < s.exchange.channels.length :=
  h.senders.known _ (mem_of_lookup_eq_some hl)

theorem inbox_lt (h : s.Sound) {inbox : String} (hl : s.inboxes.lookup inbox = some c) :
    c < s.exchange.channels.length :=
  h.inboxes.known _ (mem_of_lookup_eq_some hl)

theorem inbox_eq_zero (h : s.Sound) {inbox : String} (hl : s.inboxes.lookup inbox = some c) :
    c = 0 :=
  h.queue _ (mem_of_lookup_eq_some hl)

/-- A sender of a channel is held by a name or by a task. -/
theorem hasSender_iff (h : s.Sound) (c : Nat) :
    s.exchange.hasSender c = true ↔
      (∃ p ∈ s.senders, p.2 = c) ∨ ∃ t ∈ s.exchange.tasks, t.work.holdsSender c = true := by
  unfold Exchange.hasSender
  rw [Bool.or_eq_true, h.senders.any_pos_iff, List.any_eq_true]

/-- The receiving end of a channel is held by a name or by a task. -/
theorem hasReceiver_iff (h : s.Sound) (c : Nat) :
    s.exchange.hasReceiver c = true ↔
      (∃ p ∈ s.inboxes, p.2 = c) ∨ ∃ t ∈ s.exchange.tasks, t.work.holdsReceiver c = true := by
  unfold Exchange.hasReceiver
  rw [Bool.or_eq_true, h.inboxes.any_pos_iff, List.any_eq_true]

/-- What a new session has. -/
theorem start (capacity : Nat) : (Session.start capacity).Sound := by
  have hacc : ∀ (name : String) (held : Channel → Nat), held ⟨capacity, [], 1, 1⟩ = 1 →
      Accounts [(name, 0)] [] [⟨capacity, [], 1, 1⟩] held := by
    intro name held hheld
    refine ⟨by simp, by simp, ?_⟩
    intro c channel hc
    obtain ⟨hlt, hget⟩ := List.getElem?_eq_some_iff.1 hc
    obtain rfl : c = 0 := by simpa using hlt
    rw [← hget]
    simpa using hheld
  refine ⟨hacc "p" (·.senders) rfl, hacc "i" (·.inboxes) rfl, ?_, ?_, ?_⟩
  · simp [Session.start, Exchange.addChannel]
  · constructor
    · exact List.nodup_nil
    · intro t ht
      exact absurd ht List.not_mem_nil
    · intro t ht
      exact absurd ht List.not_mem_nil
    · intro id o ho
      cases ho
  · intro c channel hc
    obtain ⟨_, hget⟩ := List.getElem?_eq_some_iff.1 hc
    rw [← hget]
    simp [Session.start, Exchange.addChannel]

/-! ### What keeps a session sound -/

theorem withExchange {y : Exchange} (h : s.Sound)
    (hch : y.channels.map Channel.emptied = s.exchange.channels.map Channel.emptied)
    (hy : y.Tidy) (hfits : y.Fits) : (s.withExchange y).Sound :=
  ⟨h.senders.of_emptied hch fun _ => rfl, h.inboxes.of_emptied hch fun _ => rfl, h.queue, hy,
    hfits⟩

theorem onlyMessages {y : Exchange} (h : s.Sound) (hy : s.exchange.OnlyMessages y) :
    (s.withExchange y).Sound :=
  h.withExchange hy.channels (h.tidy.onlyMessages hy) (hy.fits h.fits)

theorem fits_onChannel (h : s.Sound) {f : Channel → Channel}
    (hf : ∀ ch, (f ch).buffer = ch.buffer ∧ (f ch).capacity = ch.capacity) :
    (s.exchange.onChannel c f).Fits :=
  h.fits.onChannel fun ch _ hle => by rw [(hf ch).1, (hf ch).2]; exact hle

theorem dropSender (h : s.Sound) (name : String) : (s.dropSender name).Sound := by
  unfold Session.dropSender
  split
  · rename_i c hl
    exact ⟨h.senders.drop (fun _ => rfl) hl, h.inboxes.of_modify fun _ => rfl, h.queue,
      h.tidy.onChannel _ _, h.fits_onChannel fun _ => ⟨rfl, rfl⟩⟩
  · exact h

theorem dropInbox (h : s.Sound) (name : String) : (s.dropInbox name).Sound := by
  unfold Session.dropInbox
  split
  · rename_i c hl
    exact ⟨h.senders.of_modify fun _ => rfl, h.inboxes.drop (fun _ => rfl) hl,
      fun p hp => h.queue p (List.mem_of_mem_filter hp), h.tidy.onChannel _ _,
      h.fits_onChannel fun _ => ⟨rfl, rfl⟩⟩
  · exact h

end Sound

/-- A sender that is counted and owed a name gets it. -/
theorem sound_nameSender (hs : Accounts s.senders [c] s.exchange.channels (·.senders))
    (hi : Accounts s.inboxes [] s.exchange.channels (·.inboxes))
    (hq : ∀ p ∈ s.inboxes, p.2 = 0) (ht : s.exchange.Tidy) (hfits : s.exchange.Fits)
    (hc : c < s.exchange.channels.length) (name : String) : (s.nameSender name c).Sound := by
  unfold Session.nameSender Session.dropSender
  split
  · rename_i d hl
    refine ⟨(hs.drop (fun _ => rfl) hl).pay ?_ (notMem_forget _ _),
      hi.of_modify fun _ => rfl, hq, ht.onChannel _ _, hfits.onChannel fun _ _ hle => hle⟩
    rw [List.length_modify]
    exact hc
  · rename_i hl
    exact ⟨hs.pay hc (notMem_of_lookup_eq_none hl), hi, hq, ht, hfits⟩

/-- An inbox of the queue that is counted and owed a name gets it. -/
theorem sound_nameInbox (hs : Accounts s.senders [] s.exchange.channels (·.senders))
    (hi : Accounts s.inboxes [0] s.exchange.channels (·.inboxes))
    (hq : ∀ p ∈ s.inboxes, p.2 = 0) (ht : s.exchange.Tidy) (hfits : s.exchange.Fits)
    (hc : 0 < s.exchange.channels.length) (name : String) : (s.nameInbox name 0).Sound := by
  have hqueue : ∀ table : List (String × Nat), (∀ p ∈ table, p ∈ s.inboxes) →
      ∀ p ∈ (name, 0) :: table, p.2 = 0 := by
    intro table htable p hp
    rcases List.mem_cons.1 hp with rfl | hp
    · rfl
    · exact hq p (htable p hp)
  unfold Session.nameInbox Session.dropInbox
  split
  · rename_i d hl
    refine ⟨hs.of_modify fun _ => rfl, (hi.drop (fun _ => rfl) hl).pay ?_ (notMem_forget _ _),
      hqueue _ fun p hp => List.mem_of_mem_filter hp, ht.onChannel _ _,
      hfits.onChannel fun _ _ hle => hle⟩
    rw [List.length_modify]
    exact hc
  · rename_i hl
    exact ⟨hs, hi.pay hc (notMem_of_lookup_eq_none hl), hqueue _ fun p hp => hp, ht, hfits⟩

end Session
end PeerNode
