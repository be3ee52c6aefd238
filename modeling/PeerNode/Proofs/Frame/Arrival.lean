import PeerNode.Proofs.Frame.Reading
import Mathlib.Tactic.ByContra

/-!
# When a frame arrives

A stream that pauses hands out its first newline at some later time, and whoever reads it has only
so much time.  Time is seen at certain moments only, when somebody looks at the clock, and a pause
is over at the first reading of the clock that is late enough; the next pause begins at that
reading and not before.  So when a frame arrives depends on all readings of the clock, and this
file says how.  A frame that arrives at the very reading at which the time is up is in time.

A reader that goes on by itself sees one pause after the other.  What connects it with the whole
stream is `Reading`: of all readings of the clock that may still come, the frame arrives at the
same one whether the pauses are counted from the beginning or from where the reader stands.

* `HasFrame`: a newline lies within reach.
* `pausesBefore`, `arrival`: the pauses before the newline, and when they are over.
* `Timely`: the frame arrives before the time is up, or with it.
* `advanceFrom_spec`: what a reader that goes on has to do with the frame and the pauses.
* `Reading`, with one lemma for each thing that a reader may meet.
-/

namespace PeerNode
namespace Frame

/-! ## Frames within reach -/

/-- Whether a newline lies within reach of a reader before the stream fails, falls silent or
ends. -/
def HasFrame (script : List ReadEvent) : Prop := terminator ∈ (heard script).take (limit + 1)

/-- The octets before the first newline that is heard. -/
def heardBody (script : List ReadEvent) : Bytes := (heard script).takeWhile (· != terminator)

/-- **A frame within reach is read**, and its body is what stands before the newline. -/
theorem read_of_hasFrame {script : List ReadEvent} (h : HasFrame script) :
    read script = some (.ok (heardBody script)) := by
  have hsplit := List.take_append_drop (limit + 1) (heard script)
  have htake : (((heard script).take (limit + 1)).takeWhile (· != terminator)).length <
      ((heard script).take (limit + 1)).length := by
    by_contra hge
    have hall := takeWhile_eq_self_of_length hge
    rw [HasFrame, ← hall] at h
    exact terminator_notMem_takeWhile _ h
  obtain ⟨more, hmore⟩ := takeWhile_append_terminator htake
  generalize hb : ((heard script).take (limit + 1)).takeWhile (· != terminator) = b at htake hmore
  have hnone : terminator ∉ b := hb ▸ terminator_notMem_takeWhile _
  have hheard : heard script = b ++ terminator :: (more ++ (heard script).drop (limit + 1)) := by
    rw [← List.cons_append, ← List.append_assoc, ← hmore, hsplit]
  have hbody : heardBody script = b := by
    have hp : ∀ c ∈ b, (c != terminator) = true := by
      intro c hc
      rw [bne_iff_ne]
      rintro rfl
      exact hnone hc
    rw [heardBody, hheard, List.takeWhile_append_of_pos hp]
    simp
  rw [hbody, read_eq_ok_iff]
  refine ⟨⟨hnone, ?_⟩, more ++ (heard script).drop (limit + 1), ?_⟩
  · rw [List.length_take] at htake
    omega
  · rw [List.append_assoc, List.singleton_append]
    exact hheard.symm

/-- **What is read is within reach.** -/
theorem hasFrame_of_read {script : List ReadEvent} {b : Bytes}
    (h : read script = some (.ok b)) : HasFrame script := by
  obtain ⟨hb, tail, htail⟩ := (read_eq_ok_iff script b).1 h
  have hshort := hb.short
  rw [HasFrame, ← htail, List.append_assoc, List.take_append]
  refine List.mem_append_right _ ?_
  rw [show limit + 1 - b.length = (limit - b.length) + 1 by omega]
  simp

/-! ## Pauses -/

/-- The pauses of a stream before it hands out its first newline. -/
def pausesBefore : List ReadEvent → List Nat
  | .bytes piece :: rest => if terminator ∈ piece then [] else pausesBefore rest
  | .pause secs :: rest => secs :: pausesBefore rest
  | .fail _ :: _ | .silence :: _ | [] => []

/-- When some pauses are over that begin at `now`, by the readings of a clock: each is over at the
first reading that is late enough, and the next one begins with it. -/
def arrival (clocks : List Nat) (now : Nat) : List Nat → Option Nat
  | [] => some now
  | secs :: rest => (clocks.find? (now + secs ≤ ·)).bind fun woken => arrival clocks woken rest

/-- Whether the newline is there, by the readings of a clock, at each of them at which the time is
up. -/
def Timely (script : List ReadEvent) (clocks : List Nat) (start deadline : Nat) : Prop :=
  ∃ woken, arrival clocks start (pausesBefore script) = some woken ∧
    ∀ c ∈ clocks, deadline ≤ c → woken ≤ c

theorem le_of_arrival {clocks pauses : List Nat} {now woken : Nat}
    (h : arrival clocks now pauses = some woken) : now ≤ woken := by
  induction pauses generalizing now with
  | nil =>
    obtain rfl := Option.some.inj h
    exact Nat.le_refl _
  | cons secs rest ih =>
    obtain ⟨next, hfind, hrest⟩ := Option.bind_eq_some_iff.1 h
    have hnext : now + secs ≤ next := by simpa using List.find?_some hfind
    have := ih hrest
    omega

/-- **What a reader that goes on has to do with the frame and the pauses.** -/
theorem advanceFrom_spec {taken : Bytes} (ht : Open taken) (script : List ReadEvent) :
    match advanceFrom taken script with
    | .body bs => readFrom taken script = some (.ok bs) ∧ pausesBefore script = []
    | .failed e => readFrom taken script = some (.error e)
    | .pausing secs next => Open next.taken ∧
        readFrom taken script = readFrom next.taken next.script ∧
        pausesBefore script = secs :: pausesBefore next.script
    | .silent => readFrom taken script = none := by
  induction script generalizing taken with
  | nil => exact rfl
  | cons e rest ih =>
    cases e with
    | fail e => exact rfl
    | silence => exact rfl
    | pause secs => exact ⟨ht, rfl, rfl⟩
    | bytes piece =>
      simp only [advanceFrom, readFrom, pausesBefore]
      rcases take_cases ht piece with ⟨b, more, hb, -, hsplit⟩ | ⟨ho, -, -⟩ | ⟨hu, hopen⟩
      · have hmem : terminator ∈ piece := by
          have : terminator ∈ taken ++ piece := by
            rw [hsplit]
            simp
          exact (List.mem_append.1 this).resolve_left ht.unterminated
        rw [hb, if_pos hmem]
        exact ⟨rfl, rfl⟩
      · rw [ho]
      · have hmem : terminator ∉ piece := fun h =>
          hopen.unterminated (List.mem_append_right _ h)
        rw [hu, if_neg hmem]
        exact ih hopen

/-! ## A reader at work -/

/-- Whether the frame is in time whatever the clock, which stands at `now`, may still read. -/
def OnTime (script : List ReadEvent) (start deadline : Nat) (clocks : List Nat) (now : Nat) :
    Prop :=
  ∀ more, (∀ c ∈ more, now ≤ c) → Timely script (clocks ++ more) start deadline

/-- Whether the frame is not in time whatever the clock, which stands at `now`, may still read. -/
def TooLate (script : List ReadEvent) (start deadline : Nat) (clocks : List Nat) (now : Nat) :
    Prop :=
  ∀ more, (∀ c ∈ more, now ≤ c) → ¬ Timely script (clocks ++ more) start deadline

/-- The readings `clocks` of a clock of which `now` is the latest. -/
structure Readings (clocks : List Nat) (now : Nat) : Prop where
  current : now ∈ clocks
  latest : ∀ c ∈ clocks, c ≤ now

/-- A reader of a stream is to go on with `r` at the time `due`. -/
structure Reading (script : List ReadEvent) (start deadline : Nat) (clocks : List Nat) (now : Nat)
    (r : Reader) (due : Nat) : Prop where
  fresh : Open r.taken
  same : readFrom r.taken r.script = read script
  /-- It has not been time to go on, nor time to give up, before now. -/
  early : ∀ c ∈ clocks, c < now → c < due ∧ c < deadline
  /-- The frame arrives when the rest of it does. -/
  ahead : ∀ more, (∀ c ∈ more, now ≤ c) →
    arrival (clocks ++ more) start (pausesBefore script) =
      ((clocks ++ more).find? (due ≤ ·)).bind fun woken =>
        arrival (clocks ++ more) woken (pausesBefore r.script)

variable {script : List ReadEvent} {start deadline now now' due : Nat} {clocks : List Nat}
  {r : Reader}

theorem Readings.extend (h : Readings clocks now) (hle : now ≤ now') :
    Readings (clocks ++ [now']) now' := by
  refine ⟨List.mem_append_right _ (List.mem_singleton_self _), ?_⟩
  intro c hc
  rcases List.mem_append.1 hc with hc | hc
  · exact Nat.le_trans (h.latest c hc) hle
  · exact Nat.le_of_eq (List.mem_singleton.1 hc)

theorem forall_mem_cons_of_le {more : List Nat} (hle : now ≤ now')
    (hmore : ∀ c ∈ more, now' ≤ c) : ∀ c ∈ now' :: more, now ≤ c := by
  intro c hc
  rcases List.mem_cons.1 hc with rfl | hc
  · exact hle
  · exact Nat.le_trans hle (hmore c hc)

theorem OnTime.extend (h : OnTime script start deadline clocks now) (hle : now ≤ now') :
    OnTime script start deadline (clocks ++ [now']) now' := by
  intro more hmore
  rw [List.append_assoc]
  exact h (now' :: more) (forall_mem_cons_of_le hle hmore)

theorem TooLate.extend (h : TooLate script start deadline clocks now) (hle : now ≤ now') :
    TooLate script start deadline (clocks ++ [now']) now' := by
  intro more hmore
  rw [List.append_assoc]
  exact h (now' :: more) (forall_mem_cons_of_le hle hmore)

theorem OnTime.timely (h : OnTime script start deadline clocks now) :
    Timely script clocks start deadline := by
  have := h [] fun c hc => absurd hc List.not_mem_nil
  rwa [List.append_nil] at this

theorem TooLate.not_timely (h : TooLate script start deadline clocks now) :
    ¬ Timely script clocks start deadline := by
  have := h [] fun c hc => absurd hc List.not_mem_nil
  rwa [List.append_nil] at this

namespace Reading

theorem begins (script : List ReadEvent) (start deadline : Nat) :
    Reading script start deadline [start] start (.start script) start := by
  refine ⟨open_nil, rfl, ?_, ?_⟩
  · intro c hc hlt
    rw [List.mem_singleton.1 hc] at hlt
    exact absurd hlt (Nat.lt_irrefl _)
  · intro more _
    rw [List.cons_append, List.find?_cons_of_pos (by simp)]
    rfl

/-- A reader that waits while the clock goes on, before it is due and before its time is up. -/
theorem extend (h : Reading script start deadline clocks now r due) (hclocks : Readings clocks now)
    (hle : now ≤ now') (hwait : now < now' → now < due ∧ now < deadline) :
    Reading script start deadline (clocks ++ [now']) now' r due := by
  refine ⟨h.fresh, h.same, ?_, ?_⟩
  · intro c hc hlt
    rcases List.mem_append.1 hc with hc | hc
    · rcases Nat.lt_or_eq_of_le (hclocks.latest c hc) with hnow | rfl
      · exact h.early c hc hnow
      · exact hwait hlt
    · rw [List.mem_singleton.1 hc] at hlt
      exact absurd hlt (Nat.lt_irrefl _)
  · intro more hmore
    rw [List.append_assoc]
    exact h.ahead (now' :: more) (forall_mem_cons_of_le hle hmore)

/-- A reader that is due has become so just now. -/
theorem find_due (h : Reading script start deadline clocks now r due)
    (hclocks : Readings clocks now) (hdue : due ≤ now) (more : List Nat) :
    (clocks ++ more).find? (due ≤ ·) = some now := by
  have hsome : (clocks.find? (due ≤ ·)).isSome := by
    rw [List.find?_isSome]
    exact ⟨now, hclocks.current, by simpa using hdue⟩
  obtain ⟨c, hc⟩ := Option.isSome_iff_exists.1 hsome
  have hmem := List.mem_of_find?_eq_some hc
  have hle : due ≤ c := by simpa using List.find?_some hc
  have heq : c = now := by
    rcases Nat.lt_or_eq_of_le (hclocks.latest c hmem) with hlt | heq
    · exact absurd (h.early c hmem hlt).1 (Nat.not_lt.2 hle)
    · exact heq
  rw [List.find?_append, hc, heq, Option.some_or]

/-- A reader that is due and meets a pause. -/
theorem pausing (h : Reading script start deadline clocks now r due)
    (hclocks : Readings clocks now) (hdue : due ≤ now) {secs : Nat} {next : Reader}
    (hr : r.advance = .pausing secs next) :
    Reading script start deadline clocks now next (now + secs) := by
  have hspec := advanceFrom_spec h.fresh r.script
  rw [show advanceFrom r.taken r.script = .pausing secs next from hr] at hspec
  obtain ⟨hopen, hsame, hpauses⟩ := hspec
  refine ⟨hopen, hsame.symm.trans h.same, ?_, ?_⟩
  · intro c hc hlt
    exact ⟨Nat.lt_add_right _ hlt, (h.early c hc hlt).2⟩
  · intro more hmore
    rw [h.ahead more hmore, h.find_due hclocks hdue, Option.bind_some, hpauses]
    rfl

/-- A reader that is due and has its frame: it is in time. -/
theorem body (h : Reading script start deadline clocks now r due)
    (hclocks : Readings clocks now) (hdue : due ≤ now) {bs : Bytes}
    (hr : r.advance = .body bs) :
    HasFrame script ∧ bs = heardBody script ∧ OnTime script start deadline clocks now := by
  have hspec := advanceFrom_spec h.fresh r.script
  rw [show advanceFrom r.taken r.script = .body bs from hr] at hspec
  obtain ⟨hread, hpauses⟩ := hspec
  rw [h.same] at hread
  have hframe := hasFrame_of_read hread
  refine ⟨hframe, ?_, ?_⟩
  · rw [read_of_hasFrame hframe] at hread
    simpa using hread.symm
  · intro more hmore
    refine ⟨now, ?_, ?_⟩
    · rw [h.ahead more hmore, h.find_due hclocks hdue, Option.bind_some, hpauses]
      rfl
    · intro c hc hlate
      rcases List.mem_append.1 hc with hc | hc
      · by_contra hlt
        exact absurd (h.early c hc (Nat.not_le.1 hlt)).2 (Nat.not_lt.2 hlate)
      · exact hmore c hc

theorem failed (h : Reading script start deadline clocks now r due) {e : StreamError}
    (hr : r.advance = .failed e) : ¬ HasFrame script := by
  intro hframe
  have hspec := advanceFrom_spec h.fresh r.script
  rw [show advanceFrom r.taken r.script = .failed e from hr] at hspec
  cases hspec.symm.trans (h.same.trans (read_of_hasFrame hframe))

theorem silent (h : Reading script start deadline clocks now r due)
    (hr : r.advance = .silent) : ¬ HasFrame script := by
  intro hframe
  have hspec := advanceFrom_spec h.fresh r.script
  rw [show advanceFrom r.taken r.script = .silent from hr] at hspec
  cases hspec.symm.trans (h.same.trans (read_of_hasFrame hframe))

/-- A reader that is not yet due has not got its frame in time so far. -/
theorem not_timely (h : Reading script start deadline clocks now r due)
    (hclocks : Readings clocks now) (hdue : now < due) :
    ¬ Timely script clocks start deadline := by
  rintro ⟨woken, hwoken, -⟩
  have hnone : clocks.find? (due ≤ ·) = none := by
    rw [List.find?_eq_none]
    intro c hc
    have := hclocks.latest c hc
    simp only [decide_eq_true_eq]
    omega
  have hahead := h.ahead [] fun c hc => absurd hc List.not_mem_nil
  rw [List.append_nil, hnone, hwoken] at hahead
  cases hahead

theorem tooLate (h : Reading script start deadline clocks now r due)
    (hclocks : Readings clocks now) (hdue : now < due) (hlate : deadline ≤ now) :
    TooLate script start deadline clocks now := by
  rintro more hmore ⟨woken, hwoken, hall⟩
  rw [h.ahead more hmore] at hwoken
  obtain ⟨c, hfind, hrest⟩ := Option.bind_eq_some_iff.1 hwoken
  have hc : due ≤ c := by simpa using List.find?_some hfind
  have hwoken := le_of_arrival hrest
  have hnow := hall now (List.mem_append_left _ hclocks.current) hlate
  omega

end Reading
end Frame
end PeerNode
