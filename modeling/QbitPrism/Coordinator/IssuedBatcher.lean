import Mathlib
import QbitPrism.Lib.Transition

/-!
# The issued-job batcher

Saves of compact jobs enter a bounded channel; one collector gathers those of one group into a batch,
makes one ledger attempt and answers every job of it. Callers may leave at any time, time passes between
any two steps of the collector, and a shutdown may come at any point. Instants are nanoseconds. `V` is a
job's payload and `R` what a successful save reports; the lists `received`, `attempts`, `returned`,
`answers` and `dropped` of the state are its history.
-/
namespace QbitPrism.IssuedBatcher
open List

def batchSize : ℕ := 64

def admittedSlots : ℕ := 128

structure Group where
  key : String
  originalRevision : ℤ
  parent : String
  originalExpiresAtMs : ℤ
  templateSha256 : String
  priorBalancesDigest : List UInt8
  revision : ℤ
  deriving DecidableEq

structure CompactIssuedJob (V : Type) where
  jobId : String
  payload : V
  expiresAtMs : ℤ

/-- `id` tells the saves apart; it stands for the entry's own response channel. -/
structure Entry (V : Type) where
  id : ℕ
  group : Group
  job : CompactIssuedJob V
  deadline : ℕ
  admitted : ℕ

/-- One call of `save_issued_jobs_compact`. -/
structure Attempt (V : Type) where
  entries : List (Entry V)
  deadline : ℕ

/-- Where the collector is, with the entries it holds there besides `pending`. -/
inductive Phase (V R : Type) where
  | discarding (retained : List (Entry V))
  | idle
  | picked (entry : Entry V)
  | gathering (first : Entry V) (more : List (Entry V)) (flush : ℕ)
  | filtering (rest kept : List (Entry V))
  | attempting (attempt : Attempt V)
  | answering (rest : List (Entry V)) (result : Except String R)
  | ended

structure World (V R : Type) where
  now : ℕ
  shutdown : Bool
  canceled : Finset ℕ
  closed : Finset ℕ
  available : ℕ
  next : ℕ
  sending : List (Entry V)
  channel : List (Entry V)
  pending : List (Entry V)
  phase : Phase V R
  received : List (Entry V)
  attempts : List (Attempt V)
  returned : List (Attempt V × Except String R)
  answers : List (Entry V × Except String R)
  dropped : List (Entry V)

section Model
variable {V R : Type}

def World.start (now : ℕ) : World V R where
  now := now
  shutdown := false
  canceled := ∅
  closed := ∅
  available := admittedSlots
  next := 0
  sending := []
  channel := []
  pending := []
  phase := .discarding []
  received := []
  attempts := []
  returned := []
  answers := []
  dropped := []

def Phase.held : Phase V R → List (Entry V)
  | discarding retained => retained
  | idle => []
  | picked entry => [entry]
  | gathering first more _ => first :: more
  | filtering rest kept => kept ++ rest
  | attempting attempt => attempt.entries
  | answering rest _ => rest
  | ended => []

namespace World

/-- The entries that are received and neither answered nor dropped. -/
def waiting (s : World V R) : List (Entry V) := s.phase.held ++ s.pending ++ s.channel

def live (s : World V R) (entry : Entry V) : Bool :=
  entry.id ∉ s.canceled && entry.id ∉ s.closed && s.now < entry.deadline

def answer (s : World V R) (entry : Entry V) (reply : Except String R) : World V R :=
  { s with answers := s.answers ++ [(entry, reply)], available := s.available + 1 }

/-- The collector returns: whatever it holds, and what is in its channel, is dropped. -/
def finish (s : World V R) : World V R :=
  { s with
    phase := .ended, pending := [], channel := [], dropped := s.dropped ++ s.waiting,
    available := s.available + s.waiting.length }

end World

def goneText : String := "issued job deadline elapsed or caller canceled"

def interrupted (commitStarted : Bool) (reason : String) : String :=
  if commitStarted then
    s!"compact issued batch {reason}; commit outcome uncertain; reconcile original job identities"
  else s!"compact issued batch {reason} before commit"

/-- The first entries of the group, as many as there is room for, and the others. -/
def takeGroup (group : Group) : ℕ → List (Entry V) → List (Entry V) × List (Entry V)
  | 0, pending => ([], pending)
  | _, [] => ([], [])
  | room + 1, entry :: pending =>
    if entry.group = group then
      let (taken, left) := takeGroup group room pending
      (entry :: taken, left)
    else
      let (taken, left) := takeGroup group (room + 1) pending
      (taken, entry :: left)

/-- The least deadline of the entries, at most `bound`. -/
def earliest (bound : ℕ) (entries : List (Entry V)) : ℕ :=
  entries.foldl (fun bound entry => min bound entry.deadline) bound

def newAttempt (first : Entry V) (more : List (Entry V)) : Attempt V :=
  ⟨first :: more, earliest first.deadline more⟩

def Interrupts (s : World V R) (attempt : Attempt V) (reason : String) : Prop :=
  s.shutdown = true ∧ reason = "shutdown" ∨
    (∀ entry ∈ attempt.entries, entry.id ∈ s.canceled) ∧ reason = "all callers canceled" ∨
    attempt.deadline ≤ s.now ∧ reason = "deadline elapsed"

/-- One step of the collector. A ready result of the ledger may be taken at any time, although the code
looks for the interruptions first. -/
inductive Collects (dwell : ℕ) (s : World V R) : World V R → Prop where
  | discardLive {retained rest : List (Entry V)} {entry : Entry V} (hphase : s.phase = .discarding retained)
      (hpending : s.pending = entry :: rest) (hlive : s.live entry = true) :
      Collects dwell s { s with phase := .discarding (retained ++ [entry]), pending := rest }
  | discardGone {retained rest : List (Entry V)} {entry : Entry V} (hphase : s.phase = .discarding retained)
      (hpending : s.pending = entry :: rest) (hlive : s.live entry = false) :
      Collects dwell s { s.answer entry (.error goneText) with pending := rest }
  | pick {first : Entry V} {more : List (Entry V)} (hphase : s.phase = .discarding (first :: more))
      (hpending : s.pending = []) : Collects dwell s { s with phase := .picked first, pending := more }
  | rest (hphase : s.phase = .discarding []) (hpending : s.pending = []) : Collects dwell s { s with phase := .idle }
  | stopIdle (hphase : s.phase = .idle) (hshutdown : s.shutdown = true) : Collects dwell s s.finish
  | receive {entry : Entry V} {rest : List (Entry V)} (hphase : s.phase = .idle) (hshutdown : s.shutdown = false)
      (hchannel : s.channel = entry :: rest) :
      Collects dwell s { s with phase := .picked entry, channel := rest }
  | firstGone {entry : Entry V} (hphase : s.phase = .picked entry) (hlive : s.live entry = false) :
      Collects dwell s { s.answer entry (.error goneText) with phase := .discarding [] }
  | firstLive {first : Entry V} {taken left : List (Entry V)} (hphase : s.phase = .picked first)
      (hlive : s.live first = true) (htake : takeGroup first.group (batchSize - 1) s.pending = (taken, left)) :
      Collects dwell s
        { s with
          phase := .gathering first taken (earliest (min (first.admitted + dwell) first.deadline) taken),
          pending := left }
  | gatherSame {first entry : Entry V} {more rest : List (Entry V)} {flush : ℕ}
      (hphase : s.phase = .gathering first more flush) (hroom : more.length + 1 < batchSize)
      (hchannel : s.channel = entry :: rest) (hgroup : entry.group = first.group) :
      Collects dwell s
        { s with phase := .gathering first (more ++ [entry]) (min flush entry.deadline), channel := rest }
  | gatherOther {first entry : Entry V} {more rest : List (Entry V)} {flush : ℕ}
      (hphase : s.phase = .gathering first more flush) (hroom : more.length + 1 < batchSize)
      (hchannel : s.channel = entry :: rest) (hgroup : entry.group ≠ first.group) :
      Collects dwell s { s with pending := s.pending ++ [entry], channel := rest }
  | gatherStop {first : Entry V} {more : List (Entry V)} {flush : ℕ} (hphase : s.phase = .gathering first more flush)
      (hroom : more.length + 1 < batchSize) (hshutdown : s.shutdown = true) : Collects dwell s s.finish
  | gathered {first : Entry V} {more : List (Entry V)} {flush : ℕ} (hphase : s.phase = .gathering first more flush)
      (hdone : batchSize ≤ more.length + 1 ∨ flush ≤ s.now) :
      Collects dwell s { s with phase := .filtering (first :: more) [] }
  | filterLive {entry : Entry V} {rest kept : List (Entry V)} (hphase : s.phase = .filtering (entry :: rest) kept)
      (hlive : s.live entry = true) : Collects dwell s { s with phase := .filtering rest (kept ++ [entry]) }
  | filterGone {entry : Entry V} {rest kept : List (Entry V)} (hphase : s.phase = .filtering (entry :: rest) kept)
      (hlive : s.live entry = false) :
      Collects dwell s { s.answer entry (.error goneText) with phase := .filtering rest kept }
  | filterNone (hphase : s.phase = .filtering [] []) : Collects dwell s { s with phase := .discarding [] }
  | attempt {first : Entry V} {more : List (Entry V)} (hphase : s.phase = .filtering [] (first :: more)) :
      Collects dwell s
        { s with
          phase := .attempting (newAttempt first more), attempts := s.attempts ++ [newAttempt first more] }
  | interrupt {attempt : Attempt V} {reason : String} (commitStarted : Bool) (hphase : s.phase = .attempting attempt)
      (hreason : Interrupts s attempt reason) :
      Collects dwell s { s with phase := .answering attempt.entries (.error (interrupted commitStarted reason)) }
  | returned {attempt : Attempt V} (result : Except String R) (hphase : s.phase = .attempting attempt) :
      Collects dwell s
        { s with phase := .answering attempt.entries result, returned := s.returned ++ [(attempt, result)] }
  | answer {entry : Entry V} {rest : List (Entry V)} {result : Except String R}
      (hphase : s.phase = .answering (entry :: rest) result) :
      Collects dwell s { s.answer entry result with phase := .answering rest result }
  | again {result : Except String R} (hphase : s.phase = .answering [] result) (hshutdown : s.shutdown = false) :
      Collects dwell s { s with phase := .discarding [] }
  | stop {result : Except String R} (hphase : s.phase = .answering [] result) (hshutdown : s.shutdown = true) :
      Collects dwell s s.finish

inductive Happens (s : World V R) : World V R → Prop where
  | tick (now : ℕ) (hnow : s.now ≤ now) : Happens s { s with now }
  | enter (entry : Entry V) (hid : entry.id = s.next) (hadmitted : entry.admitted = s.now)
      (hslot : 0 < s.available) (hshutdown : s.shutdown = false) :
      Happens s { s with available := s.available - 1, next := s.next + 1, sending := s.sending ++ [entry] }
  | send {front back : List (Entry V)} {entry : Entry V} (hsending : s.sending = front ++ entry :: back)
      (hroom : s.channel.length < admittedSlots) (hphase : s.phase ≠ .ended) :
      Happens s
        { s with
          sending := front ++ back, channel := s.channel ++ [entry], received := s.received ++ [entry] }
  | abandon {front back : List (Entry V)} {entry : Entry V} (hsending : s.sending = front ++ entry :: back) :
      Happens s { s with sending := front ++ back, available := s.available + 1 }
  | cancel (id : ℕ) : Happens s { s with canceled := insert id s.canceled }
  | close (id : ℕ) : Happens s { s with closed := insert id s.closed }
  | shut : Happens s { s with shutdown := true }

def Steps (dwell : ℕ) (s t : World V R) : Prop := Collects dwell s t ∨ Happens s t

end Model

section Accounting
variable {V R : Type} {dwell : ℕ} {s t : World V R}

/-- The entries of one step of the collector: they move, one is answered, or all are dropped. -/
inductive Accounts (s t : World V R) : Prop where
  | moved (hwaiting : t.waiting.Perm s.waiting) (hanswers : t.answers = s.answers) (hdropped : t.dropped = s.dropped)
      (havailable : t.available = s.available)
  | answered (entry : Entry V) (reply : Except String R) (hwaiting : s.waiting.Perm (entry :: t.waiting))
      (hanswers : t.answers = s.answers ++ [(entry, reply)]) (hdropped : t.dropped = s.dropped)
      (havailable : t.available = s.available + 1)
  | ended (hshutdown : s.shutdown = true) (hwaiting : t.waiting = []) (hanswers : t.answers = s.answers)
      (hdropped : t.dropped = s.dropped ++ s.waiting) (havailable : t.available = s.available + s.waiting.length)

/-- What gathering from the pending entries takes and leaves. -/
structure Takes (group : Group) (room : ℕ) (pending taken left : List (Entry V)) : Prop where
  perm : (taken ++ left).Perm pending
  sublist : left.Sublist pending
  same : ∀ entry ∈ taken, entry.group = group
  length : taken.length ≤ room
  exhausted : taken.length < room → ∀ entry ∈ left, entry.group ≠ group
  order : ∀ g, (taken ++ left).filter (·.group = g) = pending.filter (·.group = g)

theorem takeGroup_takes {group : Group} {room : ℕ} {pending taken left : List (Entry V)}
    (h : takeGroup group room pending = (taken, left)) : Takes group room pending taken left := by
  induction pending generalizing room taken left with
  | nil =>
    have hnil : taken = [] ∧ left = [] := by
      cases room <;> cases h <;> exact ⟨rfl, rfl⟩
    obtain ⟨rfl, rfl⟩ := hnil
    exact ⟨.refl _, .refl _, by simp, Nat.zero_le _, by simp, by simp⟩
  | cons entry pending ih =>
    cases room with
    | zero =>
      cases h
      exact ⟨.refl _, .refl _, by simp, le_rfl, by simp, by simp⟩
    | succ room =>
      unfold takeGroup at h
      split_ifs at h with hgroup
      · cases h
        obtain ⟨hperm, hleft, hsame, hlength, hexhausted, horder⟩ := ih (rfl : takeGroup group room pending = _)
        refine ⟨hperm.cons entry, hleft.cons _, ?_, ?_, ?_, fun g => ?_⟩
        · exact forall_mem_cons.mpr ⟨hgroup, hsame⟩
        · exact Nat.succ_le_succ hlength
        · exact fun hlt => hexhausted (Nat.lt_of_succ_lt_succ hlt)
        · rw [cons_append, filter_cons, filter_cons, horder]
      · cases h
        obtain ⟨hperm, hleft, hsame, hlength, hexhausted, horder⟩ := ih (rfl : takeGroup group (room + 1) pending = _)
        refine ⟨perm_middle.trans (hperm.cons entry), hleft.cons_cons _, hsame, hlength, ?_, fun g => ?_⟩
        · exact fun hlt => forall_mem_cons.mpr ⟨hgroup, hexhausted hlt⟩
        · rw [filter_cons, ← horder g]
          have htaken : decide (entry.group = g) = true →
              (takeGroup group (room + 1) pending).1.filter (·.group = g) = [] := by
            intro hg
            refine filter_eq_nil_iff.mpr fun other hother => ?_
            rw [hsame other hother, ← of_decide_eq_true hg, decide_eq_true_eq]
            exact fun heq => hgroup heq.symm
          rw [filter_append, filter_cons]
          split_ifs with hg
          · rw [htaken hg, nil_append, filter_append, htaken hg, nil_append]
          · rw [filter_append]

theorem finish_accounts (hshutdown : s.shutdown = true) : Accounts s s.finish :=
  .ended hshutdown rfl rfl rfl rfl

theorem Collects.accounts (h : Collects dwell s t) : Accounts s t := by
  cases h with
  | discardLive hphase hmoved | pick hphase hmoved | gatherOther hphase _ hmoved =>
    refine .moved ?_ rfl rfl rfl
    simp [World.waiting, hphase, hmoved, Phase.held]
  | rest hphase | gathered hphase | filterLive hphase | filterNone hphase | attempt hphase | interrupt _ hphase
  | returned _ hphase | again hphase =>
    refine .moved ?_ rfl rfl rfl
    simp [World.waiting, hphase, Phase.held, newAttempt]
  | receive hphase _ hchannel =>
    refine .moved ?_ rfl rfl rfl
    simp only [World.waiting, hphase, hchannel, Phase.held, nil_append, singleton_append]
    exact perm_middle.symm
  | firstLive hphase _ htake =>
    refine .moved ?_ rfl rfl rfl
    simp only [World.waiting, hphase, Phase.held, cons_append]
    exact ((takeGroup_takes htake).perm.cons _).append_right _
  | gatherSame hphase _ hchannel =>
    refine .moved ?_ rfl rfl rfl
    simp only [World.waiting, hphase, hchannel, Phase.held, cons_append, append_assoc, nil_append]
    exact (perm_middle.symm.append_left _).cons _
  | discardGone hphase hpending =>
    refine .answered _ _ ?_ rfl rfl rfl
    simp only [World.waiting, World.answer, hphase, hpending, Phase.held]
    exact perm_middle.append_right _
  | filterGone hphase =>
    refine .answered _ _ ?_ rfl rfl rfl
    simp only [World.waiting, World.answer, hphase, Phase.held]
    exact (perm_middle.append_right _).append_right _
  | firstGone hphase | answer hphase =>
    refine .answered _ _ ?_ rfl rfl rfl
    simp [World.waiting, World.answer, hphase, Phase.held]
  | stopIdle _ hshutdown | gatherStop _ _ hshutdown | stop _ hshutdown => exact finish_accounts hshutdown

structure SameCallers (s t : World V R) : Prop where
  received : t.received = s.received
  sending : t.sending = s.sending
  next : t.next = s.next
  shutdown : t.shutdown = s.shutdown

theorem Collects.sameCallers (h : Collects dwell s t) : SameCallers s t := by
  cases h <;> exact ⟨rfl, rfl, rfl, rfl⟩

/-- Every received entry is waiting, answered once or dropped, and every admitted one has its slot. -/
structure Accounted (s : World V R) : Prop where
  fresh : ∀ entry ∈ s.received ++ s.sending, entry.id < s.next
  nodup : ((s.received ++ s.sending).map Entry.id).Nodup
  accounted : (s.answers.map Prod.fst ++ s.dropped ++ s.waiting).Perm s.received
  dropped : s.dropped ≠ [] → s.shutdown = true
  slots : s.available + s.sending.length + s.waiting.length = admittedSlots

theorem accounted_start (now : ℕ) : Accounted (World.start now : World V R) where
  fresh := by simp [World.start]
  nodup := by simp [World.start]
  accounted := by simp [World.start, World.waiting, Phase.held]
  dropped := by simp [World.start]
  slots := rfl

theorem Accounted.collects (h : Accounted s) (hstep : Collects dwell s t) : Accounted t := by
  obtain ⟨hreceived, hsending, hnext, hshutdown⟩ := hstep.sameCallers
  have hfresh : ∀ entry ∈ t.received ++ t.sending, entry.id < t.next := by
    rw [hreceived, hsending, hnext]
    exact h.fresh
  have hnodup : ((t.received ++ t.sending).map Entry.id).Nodup := by
    rw [hreceived, hsending]
    exact h.nodup
  cases hstep.accounts with
  | moved hwaiting hanswers hdropped havailable =>
    refine ⟨hfresh, hnodup, ?_, ?_, ?_⟩
    · rw [hanswers, hdropped, hreceived]
      exact (hwaiting.append_left _).trans h.accounted
    · rw [hdropped, hshutdown]
      exact h.dropped
    · rw [havailable, hsending, hwaiting.length_eq]
      exact h.slots
  | answered entry reply hwaiting hanswers hdropped havailable =>
    refine ⟨hfresh, hnodup, ?_, ?_, ?_⟩
    · rw [hanswers, hdropped, hreceived, map_append, map_singleton, append_assoc, append_assoc, singleton_append]
      refine .trans ?_ h.accounted
      rw [append_assoc]
      exact (perm_middle.symm.trans (hwaiting.symm.append_left _)).append_left _
    · rw [hdropped, hshutdown]
      exact h.dropped
    · have hslots := h.slots
      rw [hwaiting.length_eq, length_cons] at hslots
      rw [havailable, hsending]
      omega
  | ended hshut hwaiting hanswers hdropped havailable =>
    refine ⟨hfresh, hnodup, ?_, fun _ => hshutdown.trans hshut, ?_⟩
    · rw [hanswers, hdropped, hreceived, hwaiting, append_nil, ← append_assoc]
      exact h.accounted
    · have hslots := h.slots
      rw [havailable, hsending, hwaiting, length_nil]
      omega

theorem Accounted.happens (h : Accounted s) (hstep : Happens s t) : Accounted t := by
  cases hstep with
  | tick | cancel | close => exact ⟨h.fresh, h.nodup, h.accounted, h.dropped, h.slots⟩
  | enter entry hid _ hslot _ =>
    refine ⟨?_, ?_, h.accounted, h.dropped, ?_⟩
    · intro other hother
      rw [← append_assoc, mem_append, mem_singleton] at hother
      rcases hother with hother | rfl
      · exact (h.fresh other hother).trans (Nat.lt_succ_self _)
      · exact hid ▸ Nat.lt_succ_self _
    · rw [← append_assoc, map_append, map_singleton, nodup_append_comm, singleton_append, nodup_cons]
      refine ⟨fun hmem => ?_, h.nodup⟩
      obtain ⟨other, hother, heq⟩ := mem_map.mp hmem
      exact absurd (h.fresh other hother) (by omega)
    · have hslots := h.slots
      simp only [World.waiting, length_append, length_singleton] at hslots ⊢
      omega
  | @send front back entry hsending _ _ =>
    have hperm : (s.received ++ [entry] ++ (front ++ back)).Perm (s.received ++ s.sending) := by
      rw [hsending, append_assoc, singleton_append]
      exact perm_middle.symm.append_left _
    refine ⟨?_, ?_, ?_, h.dropped, ?_⟩
    · exact fun other hother => h.fresh other (hperm.mem_iff.mp hother)
    · exact (hperm.map Entry.id).nodup_iff.mpr h.nodup
    · have hwaiting := h.accounted.append_right [entry]
      simpa only [World.waiting, append_assoc] using hwaiting
    · have hslots := h.slots
      simp only [World.waiting, hsending, length_append, length_cons, length_nil] at hslots ⊢
      omega
  | @abandon front back entry hsending =>
    have hsublist : (s.received ++ (front ++ back)).Sublist (s.received ++ s.sending) := by
      rw [hsending]
      exact ((sublist_cons_self entry back).append_left front).append_left _
    refine ⟨?_, ?_, h.accounted, h.dropped, ?_⟩
    · exact fun other hother => h.fresh other (hsublist.subset hother)
    · exact h.nodup.sublist (hsublist.map Entry.id)
    · have hslots := h.slots
      simp only [World.waiting, hsending, length_append, length_cons] at hslots ⊢
      omega
  | shut => exact ⟨h.fresh, h.nodup, h.accounted, fun _ => rfl, h.slots⟩

theorem Accounted.received_nodup (h : Accounted s) : s.received.Nodup := by
  have hnodup := h.nodup
  rw [map_append] at hnodup
  exact List.Nodup.of_map Entry.id (nodup_append.mp hnodup).1

end Accounting
section Order
variable {V R : Type} {dwell : ℕ} {s t : World V R}

/-- The entries held that still have their place in the line of all groups. -/
def Phase.line : Phase V R → List (Entry V)
  | discarding retained => retained
  | picked entry => [entry]
  | _ => []

def Phase.queued : Phase V R → List (Entry V)
  | discarding retained => retained
  | picked entry => [entry]
  | gathering first more _ => first :: more
  | filtering rest kept => kept ++ rest
  | _ => []

namespace World

def attempted (s : World V R) : List (Entry V) := s.attempts.flatMap Attempt.entries

def line (s : World V R) : List (Entry V) := s.phase.line ++ s.pending ++ s.channel

/-- The attempted entries and those that may still be, in the order of the attempts. -/
def queue (s : World V R) : List (Entry V) := s.attempted ++ s.phase.queued ++ s.pending ++ s.channel

def Located (s : World V R) : Prop :=
  match s.phase with
  | .idle => s.pending = []
  | .gathering first more _ =>
    (∀ entry ∈ more, entry.group = first.group) ∧ more.length + 1 ≤ batchSize ∧
      (more.length + 1 < batchSize → ∀ entry ∈ s.pending, entry.group ≠ first.group)
  | .filtering rest kept => (∃ group, ∀ entry ∈ kept ++ rest, entry.group = group) ∧ (kept ++ rest).length ≤ batchSize
  | .ended => s.pending = [] ∧ s.channel = []
  | _ => True

end World

/-- The entries that wait for a group's turn are in the order received, and so are those of each group
from attempt to attempt. -/
structure Ordered (s : World V R) : Prop where
  line : s.line.Sublist s.received
  grouped : ∀ g, (s.queue.filter (·.group = g)).Sublist s.received
  located : s.Located

theorem ordered_start (now : ℕ) : Ordered (World.start now : World V R) where
  line := .refl _
  grouped _ := .refl _
  located := trivial

theorem Ordered.collects (h : Ordered s) (hstep : Collects dwell s t) : Ordered t := by
  have hline := h.line
  have hlocated := h.located
  have hreceived := hstep.sameCallers.received
  -- all but two steps leave the queue as it is, or take entries out
  have hgrouped : t.queue.Sublist s.queue → ∀ g, (t.queue.filter (·.group = g)).Sublist t.received :=
    fun hqueue g => hreceived ▸ (hqueue.filter _).trans (h.grouped g)
  have hfinish : t = s.finish → Ordered t := by
    rintro rfl
    refine ⟨nil_sublist _, hgrouped ?_, ⟨rfl, rfl⟩⟩
    simp only [World.queue, World.attempted, World.finish, Phase.queued, append_nil, append_assoc]
    exact sublist_append_left _ _
  unfold World.line at hline
  unfold World.Located at hlocated
  cases hstep with
  | discardLive hphase hpending | pick hphase hpending =>
    rw [hphase, hpending] at hline
    refine ⟨?_, hgrouped ?_, trivial⟩
    · simpa [World.line, Phase.line] using hline
    · simp [World.queue, World.attempted, hphase, hpending, Phase.queued]
  | discardGone hphase hpending _ =>
    rw [hphase, hpending] at hline
    refine ⟨.trans ?_ hline, hgrouped ?_, ?_⟩
    · simp only [World.line, World.answer, hphase, Phase.line]
      exact ((sublist_cons_self _ _).append_left _).append_right _
    · simp only [World.queue, World.attempted, World.answer, hphase, hpending, Phase.queued]
      exact ((sublist_cons_self _ _).append_left _).append_right _
    · simp [World.Located, World.answer, hphase]
  | rest hphase hpending =>
    rw [hphase] at hline
    refine ⟨hline, hgrouped ?_, hpending⟩
    simp [World.queue, World.attempted, hphase, Phase.queued]
  | stopIdle | gatherStop | stop => exact hfinish rfl
  | receive hphase _ hchannel =>
    rw [hphase] at hlocated
    rw [hphase, hchannel, show s.pending = [] from hlocated] at hline
    refine ⟨?_, hgrouped ?_, trivial⟩
    · rw [World.line, show s.pending = [] from hlocated]
      exact hline
    · simp [World.queue, World.attempted, hphase, hchannel, Phase.queued, show s.pending = [] from hlocated]
  | firstGone hphase _ =>
    rw [hphase] at hline
    refine ⟨.trans ?_ hline, hgrouped ?_, trivial⟩
    · exact (nil_sublist _ |>.append_right _).append_right _
    · simp only [World.queue, World.attempted, World.answer, hphase, Phase.queued]
      exact ((nil_sublist _ |>.append_left _).append_right _).append_right _
  | @firstLive first taken left hphase _ htake =>
    have htakes := takeGroup_takes htake
    rw [hphase] at hline
    refine ⟨.trans ?_ hline, fun g => ?_, htakes.same, Nat.succ_le_of_lt (Nat.lt_succ_of_le htakes.length), ?_⟩
    · exact ((nil_sublist _).append htakes.sublist).append_right _
    · have hfilter := h.grouped g
      simp only [World.queue, World.attempted, hphase, Phase.queued, ← singleton_append (l := taken),
        filter_append, append_assoc] at hfilter ⊢
      rwa [← htakes.order g, filter_append, append_assoc] at hfilter
    · exact fun hroom => htakes.exhausted (Nat.lt_of_succ_lt_succ hroom)
  | @gatherSame first entry more rest flush hphase hroom hchannel hgroup =>
    rw [hphase] at hlocated
    obtain ⟨hsame, hlength, hothers⟩ := hlocated
    rw [hphase, hchannel] at hline
    refine ⟨.trans ?_ hline, fun g => ?_, ?_, ?_, fun hroom' => ?_⟩
    · exact (sublist_cons_self _ _).append_left _
    · have hfilter := h.grouped g
      have hswap : [entry].filter (·.group = g) ++ s.pending.filter (·.group = g) =
          s.pending.filter (·.group = g) ++ [entry].filter (·.group = g) := by
        by_cases hg : entry.group = g
        · have hnone : s.pending.filter (·.group = g) = [] := by
            refine filter_eq_nil_iff.mpr fun other hother => ?_
            rw [decide_eq_true_eq, ← hg, hgroup]
            exact hothers hroom other hother
          rw [hnone, append_nil, nil_append]
        · rw [filter_singleton, decide_eq_false hg, cond_false, append_nil, nil_append]
      simp only [World.queue, World.attempted, hphase, hchannel, Phase.queued, ← cons_append,
        ← singleton_append (l := rest), filter_append, append_assoc] at hfilter ⊢
      rwa [← append_assoc ([entry].filter _), hswap, append_assoc]
    · intro other hother
      rcases mem_append.mp hother with hother | hother
      · exact hsame other hother
      · exact mem_singleton.mp hother ▸ hgroup
    · rw [length_append, length_singleton]
      omega
    · exact hothers hroom
  | @gatherOther first entry more rest flush hphase hroom hchannel hgroup =>
    rw [hphase] at hlocated
    obtain ⟨hsame, hlength, hothers⟩ := hlocated
    rw [hphase, hchannel] at hline
    refine ⟨?_, hgrouped ?_, ?_⟩
    · simpa [World.line, hphase, Phase.line] using hline
    · simp [World.queue, World.attempted, hphase, hchannel, Phase.queued]
    · rw [World.Located, hphase]
      refine ⟨hsame, hlength, fun _ other hother => ?_⟩
      rcases mem_append.mp hother with hother | hother
      · exact hothers hroom other hother
      · exact mem_singleton.mp hother ▸ hgroup
  | @gathered first more flush hphase _ =>
    rw [hphase] at hlocated hline
    refine ⟨hline, hgrouped ?_, ⟨first.group, ?_⟩, hlocated.2.1⟩
    · simp [World.queue, World.attempted, hphase, Phase.queued]
    · exact forall_mem_cons.mpr ⟨rfl, hlocated.1⟩
  | filterLive hphase _ =>
    rw [hphase] at hlocated hline
    refine ⟨hline, hgrouped ?_, ?_⟩
    · simp [World.queue, World.attempted, hphase, Phase.queued]
    · simpa [World.Located] using hlocated
  | @filterGone entry rest kept hphase _ =>
    rw [hphase] at hlocated hline
    have hsublist : (kept ++ rest).Sublist (kept ++ entry :: rest) := (sublist_cons_self _ _).append_left _
    obtain ⟨⟨group, hgroup⟩, hlength⟩ := hlocated
    refine ⟨hline, hgrouped ?_, ⟨group, fun other hother => hgroup other (hsublist.subset hother)⟩,
      hsublist.length_le.trans hlength⟩
    simp only [World.queue, World.attempted, World.answer, hphase, Phase.queued]
    exact ((hsublist.append_left _).append_right _).append_right _
  | filterNone hphase | attempt hphase | interrupt _ hphase | returned _ hphase | answer hphase | again hphase =>
    rw [hphase] at hline
    refine ⟨hline, hgrouped ?_, trivial⟩
    simp [World.queue, World.attempted, World.answer, hphase, Phase.queued, newAttempt]

theorem Ordered.happens (h : Ordered s) (hstep : Happens s t) : Ordered t := by
  cases hstep with
  | tick | enter | abandon | cancel | close | shut => exact ⟨h.line, h.grouped, h.located⟩
  | @send front back entry _ _ hphase =>
    refine ⟨?_, fun g => ?_, ?_⟩
    · simpa [World.line] using h.line.append (.refl [entry])
    · have hlast : ([entry].filter (·.group = g)).Sublist [entry] := filter_sublist
      simpa [World.queue, World.attempted, filter_append] using (h.grouped g).append hlast
    · have hlocated := h.located
      unfold World.Located at hlocated ⊢
      split at hlocated
      all_goals simp_all

end Order
section Attempts
variable {V R : Type} {dwell : ℕ} {s t : World V R}

theorem earliest_eq (bound : ℕ) (entries : List (Entry V)) :
    (earliest bound entries = bound ∨ ∃ entry ∈ entries, entry.deadline = earliest bound entries) ∧
      earliest bound entries ≤ bound ∧ ∀ entry ∈ entries, earliest bound entries ≤ entry.deadline := by
  induction entries generalizing bound with
  | nil => exact ⟨.inl rfl, le_rfl, by simp⟩
  | cons entry entries ih =>
    obtain ⟨hfound, hbound, hall⟩ := ih (min bound entry.deadline)
    have hnext : earliest bound (entry :: entries) = earliest (min bound entry.deadline) entries := rfl
    rw [hnext]
    refine ⟨?_, hbound.trans (min_le_left _ _), forall_mem_cons.mpr ⟨hbound.trans (min_le_right _ _), hall⟩⟩
    rcases hfound with hfound | ⟨other, hother, hdeadline⟩
    · rcases min_choice bound entry.deadline with hmin | hmin
      · exact .inl (hfound.trans hmin)
      · exact .inr ⟨entry, mem_cons_self, (hfound.trans hmin).symm⟩
    · exact .inr ⟨other, mem_cons_of_mem _ hother, hdeadline⟩

theorem newAttempt_deadline (first : Entry V) (more : List (Entry V)) :
    (∃ entry ∈ (newAttempt first more).entries, entry.deadline = (newAttempt first more).deadline) ∧
      ∀ entry ∈ (newAttempt first more).entries, (newAttempt first more).deadline ≤ entry.deadline := by
  obtain ⟨hfound, hbound, hall⟩ := earliest_eq first.deadline more
  refine ⟨?_, forall_mem_cons.mpr ⟨hbound, hall⟩⟩
  rcases hfound with hfound | ⟨entry, hentry, hdeadline⟩
  · exact ⟨first, mem_cons_self, hfound.symm⟩
  · exact ⟨entry, mem_cons_of_mem _ hentry, hdeadline⟩

/-- A batch of one group, and the deadline of its attempt. -/
structure Attempt.Formed (attempt : Attempt V) : Prop where
  ne_nil : attempt.entries ≠ []
  length : attempt.entries.length ≤ batchSize
  group : ∃ group, ∀ entry ∈ attempt.entries, entry.group = group
  attained : ∃ entry ∈ attempt.entries, entry.deadline = attempt.deadline
  least : ∀ entry ∈ attempt.entries, attempt.deadline ≤ entry.deadline

def Phase.trying : Phase V R → List (Entry V)
  | attempting attempt => attempt.entries
  | answering rest _ => rest
  | _ => []

/-- The answers under way are those of one attempt, which returned them if they are good. -/
def World.Trying (s : World V R) : Prop :=
  match s.phase with
  | .attempting attempt => attempt ∈ s.attempts
  | .answering rest result =>
    ∃ attempt ∈ s.attempts, rest ⊆ attempt.entries ∧ ∀ report, result = .ok report → (attempt, result) ∈ s.returned
  | _ => True

structure Attempted (s : World V R) : Prop where
  formed : ∀ attempt ∈ s.attempts, attempt.Formed
  nodup : s.attempted.Nodup
  once : ∀ entry ∈ s.attempted, entry ∈ s.answers.map Prod.fst ∨ entry ∈ s.phase.trying
  ok : ∀ entry report, (entry, .ok report) ∈ s.answers →
    ∃ attempt ∈ s.attempts, (attempt, .ok report) ∈ s.returned ∧ entry ∈ attempt.entries
  trying : s.Trying

theorem attempted_start (now : ℕ) : Attempted (World.start now : World V R) where
  formed := by simp [World.start]
  nodup := nodup_nil
  once := by simp [World.start, World.attempted]
  ok := by simp [World.start]
  trying := trivial

theorem Attempted.outside (h : Attempted s) (hattempts : t.attempts = s.attempts) (hreturned : t.returned = s.returned)
    (hanswers : t.answers = s.answers ∨ ∃ entry text, t.answers = s.answers ++ [(entry, .error text)])
    (hs : s.phase.trying = []) (ht : t.Trying) : Attempted t := by
  have hmore : ∀ answer ∈ s.answers, answer ∈ t.answers := by
    rcases hanswers with heq | ⟨entry, text, heq⟩
    · exact fun answer hanswer => heq ▸ hanswer
    · exact fun answer hanswer => heq ▸ mem_append_left _ hanswer
  refine ⟨hattempts ▸ h.formed, ?_, fun entry hentry => ?_, fun entry report hanswer => ?_, ht⟩
  · rw [World.attempted, hattempts]
    exact h.nodup
  · rw [World.attempted, hattempts] at hentry
    rcases h.once entry hentry with hanswered | htrying
    · obtain ⟨answer, hanswer, hfst⟩ := mem_map.mp hanswered
      exact .inl (mem_map.mpr ⟨answer, hmore answer hanswer, hfst⟩)
    · rw [hs] at htrying
      cases htrying
  · have hbefore : (entry, .ok report) ∈ s.answers := by
      rcases hanswers with heq | ⟨other, text, heq⟩
      · exact heq ▸ hanswer
      · rw [heq, mem_append, mem_singleton] at hanswer
        exact hanswer.resolve_right (by simp)
    rw [hattempts, hreturned]
    exact h.ok entry report hbefore

theorem Attempted.collects (h : Attempted s) (haccounted : Accounted s) (hordered : Ordered s)
    (hstep : Collects dwell s t) : Attempted t := by
  have honce := h.once
  have htrying := h.trying
  unfold World.Trying at htrying
  cases hstep with
  | discardLive hphase | pick hphase | rest hphase | stopIdle hphase | receive hphase | firstLive hphase
  | gatherSame hphase | gatherStop hphase | gathered hphase | filterLive hphase | filterNone hphase | again hphase
  | stop hphase => exact h.outside rfl rfl (.inl rfl) (by rw [hphase]; rfl) trivial
  | gatherOther hphase =>
    refine h.outside rfl rfl (.inl rfl) (by rw [hphase]; rfl) ?_
    rw [World.Trying, hphase]
    trivial
  | firstGone hphase | filterGone hphase =>
    exact h.outside rfl rfl (.inr ⟨_, _, rfl⟩) (by rw [hphase]; rfl) trivial
  | discardGone hphase =>
    refine h.outside rfl rfl (.inr ⟨_, _, rfl⟩) (by rw [hphase]; rfl) ?_
    rw [World.Trying, World.answer, hphase]
    trivial
  | @attempt first more hphase =>
    have hlocated := hordered.located
    rw [World.Located, hphase] at hlocated
    obtain ⟨hgroup, hlength⟩ := hlocated
    rw [append_nil] at hgroup hlength
    obtain ⟨hattained, hleast⟩ := newAttempt_deadline first more
    have hanswered : ∀ entry ∈ s.attempted, entry ∈ s.answers.map Prod.fst := by
      intro entry hentry
      rw [hphase] at honce
      exact (honce entry hentry).resolve_right not_mem_nil
    have hnodup := haccounted.accounted.nodup_iff.mpr haccounted.received_nodup
    rw [append_assoc, nodup_append] at hnodup
    obtain ⟨-, hwaiting, hdisjoint⟩ := hnodup
    have hbatch : ∀ entry ∈ first :: more, entry ∈ s.dropped ++ s.waiting := by
      intro entry hentry
      refine mem_append_right _ (mem_append_left _ (mem_append_left _ ?_))
      rw [hphase, Phase.held, append_nil]
      exact hentry
    refine ⟨?_, ?_, ?_, ?_, ?_⟩
    · intro attempt hattempt
      rcases mem_append.mp hattempt with hattempt | hattempt
      · exact h.formed attempt hattempt
      · rw [mem_singleton.mp hattempt]
        exact ⟨cons_ne_nil _ _, hlength, hgroup, hattained, hleast⟩
    · -- the entries before are answered, those of the batch still wait
      rw [World.attempted, flatMap_append, flatMap_singleton, nodup_append]
      refine ⟨h.nodup, ?_, ?_⟩
      · refine hwaiting.sublist (.trans ?_ (sublist_append_right _ _))
        rw [World.waiting, hphase, Phase.held, append_nil, append_assoc]
        exact sublist_append_left _ _
      · intro entry hentry other hother
        exact hdisjoint entry (hanswered entry hentry) other (hbatch other hother)
    · intro entry hentry
      rw [World.attempted, flatMap_append, flatMap_singleton, mem_append] at hentry
      rcases hentry with hentry | hentry
      · exact .inl (hanswered entry hentry)
      · exact .inr hentry
    · intro entry report hanswer
      obtain ⟨attempt, hattempt, hok⟩ := h.ok entry report hanswer
      exact ⟨attempt, mem_append_left _ hattempt, hok⟩
    · exact mem_append_right _ mem_cons_self
  | @interrupt attempt reason commitStarted hphase _ =>
    rw [hphase] at honce htrying
    exact ⟨h.formed, h.nodup, honce, h.ok, attempt, htrying, List.Subset.refl _, by simp⟩
  | @returned attempt result hphase =>
    rw [hphase] at honce htrying
    refine ⟨h.formed, h.nodup, honce, ?_, attempt, htrying, List.Subset.refl _, ?_⟩
    · intro entry report hanswer
      obtain ⟨other, hother, hreturned, hentry⟩ := h.ok entry report hanswer
      exact ⟨other, hother, mem_append_left _ hreturned, hentry⟩
    · exact fun _ _ => mem_append_right _ mem_cons_self
  | @answer entry rest result hphase =>
    rw [hphase] at honce htrying
    obtain ⟨attempt, hattempt, hrest, hreturned⟩ := htrying
    refine ⟨h.formed, h.nodup, ?_, ?_, attempt, hattempt, ?_, hreturned⟩
    · intro other hother
      rw [World.answer, map_append, map_singleton, mem_append, mem_singleton]
      rcases honce other hother with hanswered | htrying
      · exact .inl (.inl hanswered)
      · rcases mem_cons.mp htrying with rfl | hlater
        · exact .inl (.inr rfl)
        · exact .inr hlater
    · intro other report hanswer
      rw [World.answer, mem_append, mem_singleton] at hanswer
      rcases hanswer with hanswer | heq
      · exact h.ok other report hanswer
      · cases heq
        exact ⟨attempt, hattempt, hreturned report rfl, hrest mem_cons_self⟩
    · exact fun other hother => hrest (mem_cons_of_mem _ hother)

theorem Attempted.happens (h : Attempted s) (hstep : Happens s t) : Attempted t := by
  cases hstep <;> exact ⟨h.formed, h.nodup, h.once, h.ok, h.trying⟩

end Attempts
section Progress
variable {V R : Type} {dwell : ℕ} {s t : World V R}

structure Inv (s : World V R) : Prop where
  accounted : Accounted s
  ordered : Ordered s
  attempted : Attempted s

theorem inv_start (now : ℕ) : Inv (World.start now : World V R) :=
  ⟨accounted_start now, ordered_start now, attempted_start now⟩

theorem Inv.collects (h : Inv s) (hstep : Collects dwell s t) : Inv t :=
  ⟨h.accounted.collects hstep, h.ordered.collects hstep, h.attempted.collects h.accounted h.ordered hstep⟩

theorem Inv.steps (h : Inv s) (hstep : Steps dwell s t) : Inv t := by
  rcases hstep with hstep | hstep
  · exact h.collects hstep
  · exact ⟨h.accounted.happens hstep, h.ordered.happens hstep, h.attempted.happens hstep⟩

/-- Time passes, callers leave and a shutdown may come before the collector's next step; no entry is new. -/
inductive Advances (dwell : ℕ) (s t : World V R) : Prop where
  | intro (now : ℕ) (shutdown : Bool) (canceled closed : Finset ℕ) (hnow : s.now ≤ now)
      (hshutdown : s.shutdown = true → shutdown = true) (hcanceled : s.canceled ⊆ canceled) (hclosed : s.closed ⊆ closed)
      (hstep : Collects dwell { s with now, shutdown, canceled, closed } t)

theorem Inv.passes (h : Inv s) {now : ℕ} {shutdown : Bool} {canceled closed : Finset ℕ}
    (hshutdown : s.shutdown = true → shutdown = true) : Inv { s with now, shutdown, canceled, closed } := by
  have haccounted : Accounted { s with now, shutdown, canceled, closed } :=
    ⟨h.accounted.fresh, h.accounted.nodup, h.accounted.accounted,
      fun hdropped => hshutdown (h.accounted.dropped hdropped), h.accounted.slots⟩
  have hordered : Ordered { s with now, shutdown, canceled, closed } :=
    ⟨h.ordered.line, h.ordered.grouped, h.ordered.located⟩
  have hattempted : Attempted { s with now, shutdown, canceled, closed } :=
    ⟨h.attempted.formed, h.attempted.nodup, h.attempted.once, h.attempted.ok, h.attempted.trying⟩
  exact ⟨haccounted, hordered, hattempted⟩

theorem Inv.advances (h : Inv s) (hstep : Advances dwell s t) : Inv t := by
  obtain ⟨now, shutdown, canceled, closed, -, hshutdown, -, -, hstep⟩ := hstep
  exact (h.passes hshutdown).collects hstep

/-- How far the collector is from the end of its round. A round that answers nobody does not exist, so the
end of one counts more than the start of the next. -/
def Phase.rank (size pending channel : ℕ) : Phase V R → ℕ
  | discarding _ => 4 * size + 10 + pending
  | idle => 4 * size + 9
  | picked _ => 3 * size + 9
  | gathering _ _ _ => 2 * size + 8 + channel
  | filtering rest kept => if kept ++ rest = [] then 6 * size + 20 else size + 4 + rest.length
  | attempting _ => 3
  | answering rest _ => if rest = [] then 6 * size + 20 else 1
  | ended => 0

def World.rank (s : World V R) : ℕ := s.phase.rank s.waiting.length s.pending.length s.channel.length

def World.measure (s : World V R) : ℕ := 10 * (s.waiting.length + 1) ^ 2 + s.rank

theorem length_waiting (s : World V R) :
    s.waiting.length = s.phase.held.length + s.pending.length + s.channel.length := by
  rw [World.waiting, length_append, length_append]

theorem rank_le (s : World V R) : s.rank ≤ 6 * s.waiting.length + 20 := by
  have hlength := length_waiting s
  unfold World.rank
  cases hphase : s.phase with
  | filtering rest kept =>
    rw [hphase, Phase.held, length_append] at hlength
    rw [Phase.rank]
    split_ifs <;> omega
  | answering rest result =>
    rw [Phase.rank]
    split_ifs <;> omega
  | discarding | idle | picked | gathering | attempting | ended =>
    rw [Phase.rank]
    omega

theorem measure_lt_of_answered (h : s.waiting.length = t.waiting.length + 1) : t.measure < s.measure := by
  have hrank := rank_le t
  unfold World.measure
  rw [h]
  nlinarith

theorem measure_lt_of_rank (hsize : t.waiting.length = s.waiting.length)
    (hrank : t.phase.rank s.waiting.length t.pending.length t.channel.length < s.rank) : t.measure < s.measure := by
  unfold World.measure World.rank at *
  rw [hsize]
  omega

theorem measure_finish_lt (h : 0 < s.rank) : s.finish.measure < s.measure := by
  have hfinish : s.finish.measure = 10 := rfl
  rw [hfinish]
  unfold World.measure
  nlinarith [Nat.zero_le (s.waiting.length ^ 2), Nat.zero_le s.waiting.length]

theorem Accounts.length_eq (h : Accounts s t) (hanswers : t.answers = s.answers) (hdropped : t.dropped = s.dropped) :
    t.waiting.length = s.waiting.length := by
  cases h with
  | moved hwaiting _ _ _ => exact hwaiting.length_eq
  | answered _ _ _ hanswers' _ _ => simp [hanswers] at hanswers'
  | ended _ hwaiting _ hdropped' _ =>
    rw [hdropped, self_eq_append_right] at hdropped'
    rw [hwaiting, hdropped']

theorem Collects.measure_lt (h : Inv s) (hstep : Collects dwell s t) : t.measure < s.measure := by
  have hanswered : t.answers ≠ s.answers → t.measure < s.measure := by
    intro hanswers
    cases hstep.accounts with
    | answered _ _ hwaiting _ _ _ => exact measure_lt_of_answered hwaiting.length_eq
    | moved _ heq _ _ | ended _ _ heq _ _ => exact absurd heq hanswers
  have hfinish : 0 < s.rank → t = s.finish → t.measure < s.measure := fun hrank heq => heq ▸ measure_finish_lt hrank
  have hsize := hstep.accounts.length_eq
  have hlength := length_waiting s
  have htrying := h.attempted.trying
  unfold World.Trying at htrying
  cases hstep with
  | discardLive hphase hpending _ | pick hphase hpending | rest hphase hpending =>
    refine measure_lt_of_rank (hsize rfl rfl) ?_
    simp only [World.rank, Phase.rank, hphase, hpending, length_cons, length_nil]
    omega
  | receive hphase _ hchannel | gatherSame hphase _ hchannel _ | gatherOther hphase _ hchannel _ =>
    refine measure_lt_of_rank (hsize rfl rfl) ?_
    rw [hchannel, length_cons] at hlength
    simp only [World.rank, Phase.rank, hphase, hchannel, length_cons]
    omega
  | firstLive hphase _ _ =>
    refine measure_lt_of_rank (hsize rfl rfl) ?_
    simp only [World.rank, Phase.rank, hphase]
    omega
  | gathered hphase _ =>
    refine measure_lt_of_rank (hsize rfl rfl) ?_
    rw [hphase, Phase.held, length_cons] at hlength
    simp only [World.rank, Phase.rank, hphase, nil_append, reduceCtorEq, if_false, length_cons]
    omega
  | filterLive hphase _ =>
    refine measure_lt_of_rank (hsize rfl rfl) ?_
    simp only [World.rank, Phase.rank, hphase, append_eq_nil_iff, reduceCtorEq, and_false, false_and, if_false,
      length_cons]
    omega
  | filterNone hphase | again hphase _ | attempt hphase =>
    refine measure_lt_of_rank (hsize rfl rfl) ?_
    simp only [World.rank, Phase.rank, hphase, append_nil, reduceCtorEq, if_false, if_true]
    omega
  | @interrupt attempt _ _ hphase _ | @returned attempt _ hphase =>
    refine measure_lt_of_rank (hsize rfl rfl) ?_
    rw [hphase] at htrying
    simp only [World.rank, Phase.rank, hphase, (h.attempted.formed attempt htrying).ne_nil, if_false]
    omega
  | discardGone | firstGone | filterGone | answer => exact hanswered (by simp [World.answer])
  | stopIdle hphase _ | gatherStop hphase _ _ =>
    refine hfinish ?_ rfl
    simp only [World.rank, Phase.rank, hphase]
    omega
  | stop hphase _ =>
    refine hfinish ?_ rfl
    simp only [World.rank, Phase.rank, hphase, if_true]
    omega

/-- The collector is between two rounds and its channel is empty, or it has returned. -/
def World.AtRest (s : World V R) : Prop := s.phase = .idle ∧ s.channel = [] ∨ s.phase = .ended

theorem Inv.waiting_of_atRest (h : Inv s) (hrest : s.AtRest) : s.waiting = [] := by
  have hlocated := h.ordered.located
  rw [World.Located] at hlocated
  rcases hrest with ⟨hphase, hchannel⟩ | hphase
  · rw [hphase] at hlocated
    rw [World.waiting, hphase, hchannel, show s.pending = [] from hlocated]
    rfl
  · rw [hphase] at hlocated
    rw [World.waiting, hphase, hlocated.1, hlocated.2]
    rfl

theorem Collects.advances (h : Collects dwell s t) : Advances dwell s t :=
  .intro s.now s.shutdown s.canceled s.closed le_rfl id (Finset.Subset.refl _) (Finset.Subset.refl _) h

theorem Collects.advances_at {later : ℕ} (h : Collects dwell { s with now := max s.now later } t) :
    Advances dwell s t :=
  .intro (max s.now later) s.shutdown s.canceled s.closed (le_max_left _ _) id (Finset.Subset.refl _)
    (Finset.Subset.refl _) h

theorem exists_advances (dwell : ℕ) (s : World V R) : s.AtRest ∨ ∃ t, Advances dwell s t := by
  have hnow : (∃ t, Collects dwell s t) → s.AtRest ∨ ∃ t, Advances dwell s t :=
    fun ⟨t, hstep⟩ => .inr ⟨t, hstep.advances⟩
  cases hphase : s.phase with
  | discarding retained =>
    refine hnow ?_
    cases hpending : s.pending with
    | cons entry rest =>
      cases hlive : s.live entry with
      | true => exact ⟨_, .discardLive hphase hpending hlive⟩
      | false => exact ⟨_, .discardGone hphase hpending hlive⟩
    | nil =>
      cases retained with
      | cons first more => exact ⟨_, .pick hphase hpending⟩
      | nil => exact ⟨_, .rest hphase hpending⟩
  | idle =>
    cases hchannel : s.channel with
    | nil => exact .inl (.inl ⟨hphase, hchannel⟩)
    | cons entry rest =>
      cases hshutdown : s.shutdown with
      | true => exact hnow ⟨_, .stopIdle hphase hshutdown⟩
      | false => exact hnow ⟨_, .receive hphase hshutdown hchannel⟩
  | picked entry =>
    cases hlive : s.live entry with
    | true => exact hnow ⟨_, .firstLive hphase hlive rfl⟩
    | false => exact hnow ⟨_, .firstGone hphase hlive⟩
  | gathering first more flush =>
    have hstep : Collects dwell { s with now := max s.now flush } _ :=
      .gathered hphase (.inr (le_max_right s.now flush))
    exact .inr ⟨_, hstep.advances_at⟩
  | filtering rest kept =>
    refine hnow ?_
    cases rest with
    | cons entry rest =>
      cases hlive : s.live entry with
      | true => exact ⟨_, .filterLive hphase hlive⟩
      | false => exact ⟨_, .filterGone hphase hlive⟩
    | nil =>
      cases kept with
      | cons first more => exact ⟨_, .attempt hphase⟩
      | nil => exact ⟨_, .filterNone hphase⟩
  | attempting attempt =>
    have hreason : Interrupts { s with now := max s.now attempt.deadline } attempt "deadline elapsed" :=
      .inr (.inr ⟨le_max_right _ _, rfl⟩)
    have hstep : Collects dwell { s with now := max s.now attempt.deadline } _ :=
      .interrupt false hphase hreason
    exact .inr ⟨_, hstep.advances_at⟩
  | answering rest result =>
    refine hnow ?_
    cases rest with
    | cons entry rest => exact ⟨_, .answer hphase⟩
    | nil =>
      cases hshutdown : s.shutdown with
      | true => exact ⟨_, .stop hphase hshutdown⟩
      | false => exact ⟨_, .again hphase hshutdown⟩
  | ended => exact .inl (.inr hphase)

theorem settles (h : Inv s) : Transition.Settles (Advances dwell) (fun t => t.AtRest ∧ t.waiting = []) s := by
  refine Transition.settles_of_measure World.measure (fun _ _ hinv hstep => Inv.advances hinv hstep) ?_ ?_ h
  · rintro s t hinv ⟨now, shutdown, canceled, closed, -, hshutdown, -, -, hstep⟩
    have hpassed : Inv { s with now, shutdown, canceled, closed } := hinv.passes hshutdown
    have hlt := hstep.measure_lt hpassed
    exact hlt
  · intro s hinv
    exact (exists_advances dwell s).imp_left fun hrest => ⟨hrest, hinv.waiting_of_atRest hrest⟩

/-- Over any interleaving of saves, leaving callers, time, ledger results and shutdown. Every received
entry is answered once, dropped after a shutdown, or waiting; and the collector, left with the entries it
has, comes to rest with none waiting. No entry is in two attempts. An attempt has between one entry and
`batchSize`, all of one group, in the order received, and the least of their deadlines. A good answer is one
the entry's attempt returned. Entries waiting for their group's turn, and those of each group from attempt
to attempt, are in the order received. No more than `admittedSlots` entries are admitted at once. -/
theorem run_answers (dwell now : ℕ) {s : World V R} (hrun : Relation.ReflTransGen (Steps dwell) (World.start now) s) :
    (s.received.Nodup ∧ (s.answers.map Prod.fst ++ s.dropped ++ s.waiting).Perm s.received ∧
      (s.dropped ≠ [] → s.shutdown = true) ∧
      Transition.Settles (Advances dwell) (fun t => t.AtRest ∧ t.waiting = []) s) ∧
    s.attempted.Nodup ∧
    (∀ attempt ∈ s.attempts, attempt.Formed ∧ attempt.entries.Sublist s.received) ∧
    (∀ entry report, (entry, .ok report) ∈ s.answers →
      ∃ attempt ∈ s.attempts, (attempt, .ok report) ∈ s.returned ∧ entry ∈ attempt.entries) ∧
    (s.pending.Sublist s.received ∧ ∀ g, (s.attempted.filter (·.group = g)).Sublist s.received) ∧
    s.sending.length + s.waiting.length ≤ admittedSlots := by
  have hinv : Inv s := Transition.run_keeps (fun _ _ hs hstep => hs.steps hstep) (inv_start now) hrun
  obtain ⟨haccounted, hordered, hattempted⟩ := hinv
  have hgroups : ∀ g, (s.attempted.filter (·.group = g)).Sublist s.received := by
    intro g
    refine .trans (List.Sublist.filter _ ?_) (hordered.grouped g)
    rw [World.queue, append_assoc, append_assoc]
    exact sublist_append_left _ _
  refine ⟨⟨haccounted.received_nodup, haccounted.accounted, haccounted.dropped,
    settles ⟨haccounted, hordered, hattempted⟩⟩, hattempted.nodup, fun attempt hattempt => ?_, hattempted.ok,
    ⟨?_, hgroups⟩, ?_⟩
  · refine ⟨hattempted.formed attempt hattempt, ?_⟩
    obtain ⟨g, hgroup⟩ := (hattempted.formed attempt hattempt).group
    have hall : attempt.entries.filter (·.group = g) = attempt.entries :=
      filter_eq_self.mpr fun entry hentry => decide_eq_true (hgroup entry hentry)
    have hpart : attempt.entries.Sublist s.attempted := by
      rw [World.attempted, flatMap_def]
      exact sublist_flatten_of_mem (mem_map_of_mem hattempt)
    rw [← hall]
    exact (hpart.filter _).trans (hgroups g)
  · refine .trans ?_ hordered.line
    exact (sublist_append_right _ _).trans (sublist_append_left _ _)
  · have hslots := haccounted.slots
    omega

end Progress

def sampleGroup (key : String) : Group := ⟨key, 0, "parent", 0, "template", [], 0⟩

def sampleEntry : Entry Unit := ⟨0, sampleGroup "first", ⟨"job", (), 9⟩, 5, 0⟩

/-- One job saved, and the ledger's report handed to its caller. -/
def sampleAnswered : World Unit Unit :=
  { (World.start 0 : World Unit Unit) with
    now := 1, next := 1, phase := .answering [] (.ok ()), received := [sampleEntry],
    attempts := [⟨[sampleEntry], 5⟩], returned := [(⟨[sampleEntry], 5⟩, .ok ())], answers := [(sampleEntry, .ok ())] }

theorem sampleAnswered_reached :
    Relation.ReflTransGen (Steps 1) (World.start 0 : World Unit Unit) sampleAnswered := by
  refine .head (.inr (.enter sampleEntry rfl rfl (by decide) rfl)) ?_
  refine .head (.inr (@Happens.send _ _ _ [] [] sampleEntry rfl (by decide) (by simp [World.start]))) ?_
  refine .head (.inl (.rest rfl rfl)) ?_
  refine .head (.inl (.receive rfl rfl rfl)) ?_
  refine .head (.inl (.firstLive rfl rfl rfl)) ?_
  refine .head (.inr (.tick 1 (by decide))) ?_
  refine .head (.inl (.gathered rfl (.inr (by decide)))) ?_
  refine .head (.inl (.filterLive rfl rfl)) ?_
  refine .head (.inl (.attempt rfl)) ?_
  refine .head (.inl (.returned (.ok ()) rfl)) ?_
  exact .single (.inl (.answer rfl))

theorem run_answers_sample :
    sampleAnswered.attempted.Nodup ∧
      (∀ attempt ∈ sampleAnswered.attempts, attempt.Formed ∧ attempt.entries.Sublist sampleAnswered.received) ∧
      sampleAnswered.sending.length + sampleAnswered.waiting.length ≤ admittedSlots := by
  obtain ⟨-, hnodup, hattempts, -, -, hslots⟩ := run_answers 1 0 sampleAnswered_reached
  exact ⟨hnodup, hattempts, hslots⟩

end QbitPrism.IssuedBatcher
