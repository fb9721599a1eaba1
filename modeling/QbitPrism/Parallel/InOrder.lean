import Mathlib
import QbitPrism.Parallel.OrderedChunks

/-!
# Ordered chunks are delivered in order

The invariant of a call's runs: every chunk below the caller's index was consumed, every
submitted one above it is pending, ready or lost to a failure, and `outstanding` counts the
pending ones. Every run comes to an end, whatever the schedule.
-/
namespace QbitPrism.OrderedChunks
open List

variable {C E : Type*} {config : Config C E} {s t : World C E}

/-- Every call of `consume` so far succeeded. -/
def AllOk (calls : List (Consumed C E)) : Prop :=
  ∀ call ∈ calls, call.answer = .ok ()

namespace Config

/-- An error that `produce` or `consume` returned. -/
def Errs (config : Config C E) (calls : List (Consumed C E)) (error : E) : Prop :=
  (∃ index < config.count, config.produce index = .error error) ∨
    ∃ call ∈ calls, call.answer = .error error

def Panics (config : Config C E) (calls : List (Consumed C E)) : Prop :=
  (∃ index < config.count, config.produce index = .panic) ∨ ∃ call ∈ calls, call.answer = .panic

/-- The caller stands at `index`: it has consumed the chunks before it. -/
structure At (config : Config C E) (calls : List (Consumed C E)) (index : ℕ) : Prop where
  lt : index < config.count
  length : calls.length = index
  allOk : AllOk calls

structure Complete (config : Config C E) (calls : List (Consumed C E)) : Prop where
  length : calls.length = config.count
  allOk : AllOk calls

def Left (config : Config C E) (state : State C E) (calls : List (Consumed C E)) : Bool → Prop
  | true => config.Panics calls
  | false => state.stopping = true ∨ config.Complete calls

def Explains (config : Config C E) (calls : List (Consumed C E)) : Outcome Unit E → Prop
  | .ok () => config.Complete calls
  | .error error => config.Errs calls error
  | .panic => config.Panics calls

def Located (config : Config C E) (state : State C E) (next : ℕ) (calls : List (Consumed C E)) :
    Phase C E → Prop
  | .serial index => config.At calls index ∧ state.outstanding = 0
  | .serialConsuming index chunk =>
    config.At calls index ∧ state.outstanding = 0 ∧ config.produce index = .ok chunk
  | .submitting index => config.At calls index ∧ index ≤ next ∧ 0 < config.started
  | .taking index => config.At calls index ∧ (index < next ∨ state.stopping = true)
  | .waiting index =>
    config.At calls index ∧ index < next ∧ state.ready[index]? = none ∧ state.stopping = false
  | .consuming index chunk =>
    config.At calls index ∧ index < next ∧ config.produce index = .ok chunk
  | .failing error => config.Errs calls error
  | .draining unwinding => config.Left state calls unwinding
  | .drainWaiting unwinding => config.Left state calls unwinding ∧ 0 < state.outstanding
  | .returned result => config.Explains calls result ∧ state.outstanding = 0

end Config

structure Inv (config : Config C E) (s : World C E) : Prop where
  submitted : s.submitted = List.range s.next
  next_le : s.next ≤ config.count
  started : 0 < s.next → 0 < config.started
  inflight : s.next ≤ s.calls.length + config.maxInflight
  indices : s.calls.map Consumed.index = List.range s.calls.length
  calls_le : s.calls.length ≤ config.count
  chunks : ∀ call ∈ s.calls, config.produce call.index = .ok call.chunk
  ready : ∀ index chunk, s.state.ready[index]? = some chunk →
    config.produce index = .ok chunk ∧ index < s.next
  outstanding : s.state.outstanding = s.pending.length
  pending_lt : ∀ index ∈ s.pending, index < s.next
  failed : ∀ error, s.state.failed = some error → config.Errs s.calls error
  panicked : s.state.panicked = true → config.Panics s.calls
  accounted : ∀ index, s.calls.length ≤ index → index < s.next →
    index ∈ s.pending ∨ (s.state.ready[index]?).isSome ∨ s.state.stopping = true ∨
      (∃ chunk, s.phase = .consuming index chunk) ∨ ∃ result, s.phase = .returned result
  located : config.Located s.state s.next s.calls s.phase

theorem inv_start (config : Config C E) : Inv config config.start where
  submitted := rfl
  next_le := Nat.zero_le _
  started := fun h => absurd h (Nat.lt_irrefl 0)
  inflight := Nat.zero_le _
  indices := rfl
  calls_le := Nat.zero_le _
  chunks := by simp [Config.start]
  ready := by simp [Config.start, State.empty]
  outstanding := rfl
  pending_lt := by simp [Config.start, World.pending]
  failed := by simp [Config.start, State.empty]
  panicked := by simp [Config.start, State.empty]
  accounted := by simp [Config.start]
  located := by
    have hok : AllOk config.start.calls := by simp [AllOk, Config.start]
    show config.Located .empty 0 [] config.entry
    unfold Config.entry
    split_ifs with hcount hpool
    · exact ⟨⟨hcount.symm, hok⟩, rfl⟩
    · rw [Config.usesPool, Bool.and_eq_true, decide_eq_true_eq] at hpool
      exact ⟨⟨Nat.pos_of_ne_zero hcount, rfl, hok⟩, Nat.le_refl _, hpool.1⟩
    · exact ⟨⟨Nat.pos_of_ne_zero hcount, rfl, hok⟩, rfl⟩

variable {state : State C E} {calls : List (Consumed C E)} {phase : Phase C E}

theorem located_notified {next : ℕ} (h : config.Located state next calls phase) :
    config.Located state next calls phase.notified := by
  cases phase with
  | waiting index => exact ⟨h.1, .inl h.2.1⟩
  | drainWaiting unwinding => exact h.1
  | _ => exact h

theorem Inv.repool (h : Inv config s) (queue : List Job) (working : List Task)
    (hperm : (queue.filterMap Job.index? ++ working.filterMap Task.index?).Perm s.pending) :
    Inv config { s with queue, working } :=
  { h with
    outstanding := h.outstanding.trans hperm.length_eq.symm
    pending_lt := fun index hindex => h.pending_lt index (hperm.mem_iff.mp hindex)
    accounted := fun index hle hlt =>
      (h.accounted index hle hlt).imp_left fun hindex => hperm.mem_iff.mpr hindex }

theorem Inv.begin (h : Inv config s) {job : Job} {rest : List Job} (hqueue : s.queue = job :: rest) :
    Inv config (s.begin job rest) := by
  apply h.repool
  have htask : [job.task].filterMap Task.index? = [job].filterMap Job.index? := by
    cases job <;> rfl
  have hqueued : (job :: rest).filterMap Job.index? =
      [job].filterMap Job.index? ++ rest.filterMap Job.index? := by
    rw [← filterMap_append, singleton_append]
  rw [World.pending, hqueue, hqueued, filterMap_append, htask, append_assoc, ← append_assoc]
  exact perm_append_comm

variable {front back : List Task} {index : ℕ}

theorem Inv.produce (h : Inv config s) (hworking : s.working = front ++ .producing index :: back) :
    Inv config { s with working := front ++ .produced index :: back } := by
  apply h.repool
  simp [World.pending, hworking, Task.index?]

theorem Inv.otherDone (h : Inv config s) (hworking : s.working = front ++ .other :: back) :
    Inv config { s with working := front ++ back } := by
  apply h.repool
  have hother : (Task.other :: back).filterMap Task.index? = back.filterMap Task.index? := rfl
  simp [World.pending, hworking, hother]

variable {outcome : Outcome C E}

theorem stopping_record (h : state.stopping = true) :
    (state.record index outcome).stopping = true := by
  cases outcome with
  | ok chunk => exact h
  | error error => cases hfailed : state.failed <;> simp [State.stopping, State.record, State.report,
      State.fail, hfailed]
  | panic => simp [State.stopping, State.record, State.report]

theorem ready_or_stopping_record (state : State C E) (index : ℕ) (outcome : Outcome C E) :
    ((state.record index outcome).ready[index]?).isSome ∨
      (state.record index outcome).stopping = true := by
  cases outcome with
  | ok chunk => simp [State.record, State.report]
  | error error => simp [State.stopping, State.record, State.report, State.fail]
  | panic => simp [State.stopping, State.record, State.report]

variable {chunk : C}

theorem ready_record {other : ℕ} (h : (state.record index outcome).ready[other]? = some chunk) :
    (index = other ∧ outcome = .ok chunk) ∨ state.ready[other]? = some chunk := by
  cases outcome with
  | ok value =>
    simp only [State.record, State.report, Std.TreeMap.getElem?_insert] at h
    split_ifs at h with heq
    · exact .inl ⟨by simpa using heq, congrArg _ (Option.some.inj h)⟩
    · exact .inr h
  | error | panic => exact .inr h

theorem isSome_ready_record {other : ℕ} (outcome : Outcome C E) (h : (state.ready[other]?).isSome) :
    ((state.record index outcome).ready[other]?).isSome := by
  cases outcome with
  | ok value =>
    simp only [State.record, State.report, Std.TreeMap.getElem?_insert]
    split_ifs
    · rfl
    · exact h
  | error | panic => exact h

variable {error : E}

theorem failed_record (h : (state.record index outcome).failed = some error) :
    state.failed = some error ∨ outcome = .error error := by
  cases outcome with
  | error reported =>
    cases hfailed : state.failed with
    | none =>
      simp only [State.record, State.report, State.fail, hfailed, Option.none_or, Option.some.injEq] at h
      exact .inr (congrArg _ h)
    | some first =>
      simp only [State.record, State.report, State.fail, hfailed, Option.some_or] at h
      exact .inl h
  | ok | panic => exact .inl h

theorem panicked_record (h : (state.record index outcome).panicked = true) :
    state.panicked = true ∨ outcome = .panic := by
  cases outcome with
  | panic => exact .inr rfl
  | ok | error => exact .inl h

theorem left_record {unwinding : Bool} (h : config.Left state calls unwinding) :
    config.Left (state.record index outcome) calls unwinding := by
  cases unwinding with
  | true => exact h
  | false => exact h.imp_left stopping_record

theorem located_record {next : ℕ} (hfree : ∀ index, phase ≠ .submitting index)
    (hpending : state.outstanding ≠ 0) (h : config.Located state next calls phase) :
    config.Located (state.record index outcome) next calls phase.notified := by
  cases phase with
  | serial | returned => exact absurd h.2 hpending
  | serialConsuming _ _ => exact absurd h.2.1 hpending
  | submitting other => exact absurd rfl (hfree other)
  | taking other => exact ⟨h.1, h.2.imp_right stopping_record⟩
  | waiting other => exact ⟨h.1, .inl h.2.1⟩
  | consuming | failing => exact h
  | draining unwinding => exact left_record h
  | drainWaiting unwinding => exact left_record h.1

theorem Inv.record (h : Inv config s) (hworking : s.working = front ++ .produced index :: back)
    (hfree : ∀ index, s.phase ≠ .submitting index) :
    Inv config (s.record config index (front ++ back)) := by
  have hpending : s.pending.Perm (index :: (s.record config index (front ++ back)).pending) := by
    simp only [World.pending, World.record, hworking, filterMap_append, Task.index?]
    rw [← append_assoc, ← append_assoc]
    exact perm_middle
  have hindex : index ∈ s.pending := hpending.mem_iff.mpr mem_cons_self
  have hlt : index < config.count := (h.pending_lt index hindex).trans_le h.next_le
  have hlength : s.state.outstanding = (s.record config index (front ++ back)).pending.length + 1 :=
    h.outstanding.trans hpending.length_eq
  refine { h with
    ready := ?_
    outstanding := ?_
    pending_lt := ?_
    failed := ?_
    panicked := ?_
    accounted := ?_
    located := ?_ }
  · intro other chunk hready
    rcases ready_record hready with ⟨rfl, hok⟩ | hready
    · exact ⟨hok, h.pending_lt index hindex⟩
    · exact h.ready other chunk hready
  · show s.state.outstanding - 1 = _
    omega
  · intro other hother
    exact h.pending_lt other (hpending.mem_iff.mpr (mem_cons_of_mem _ hother))
  · intro error hfailed
    rcases failed_record hfailed with hfailed | herror
    · exact h.failed error hfailed
    · exact .inl ⟨index, hlt, herror⟩
  · intro hpanicked
    rcases panicked_record hpanicked with hpanicked | hpanic
    · exact h.panicked hpanicked
    · exact .inl ⟨index, hlt, hpanic⟩
  · intro other hle hnext
    rcases h.accounted other hle hnext with hother | hready | hstop | ⟨chunk, hphase⟩ | ⟨result, hphase⟩
    · rcases mem_cons.mp (hpending.mem_iff.mp hother) with rfl | hother
      · exact .inr ((ready_or_stopping_record _ _ _).imp_right .inl)
      · exact .inl hother
    · exact .inr (.inl (isSome_ready_record _ hready))
    · exact .inr (.inr (.inl (stopping_record hstop)))
    · exact .inr (.inr (.inr (.inl ⟨chunk, by simp [World.record, hphase, Phase.notified]⟩)))
    · exact .inr (.inr (.inr (.inr ⟨result, by simp [World.record, hphase, Phase.notified]⟩)))
  · exact located_record hfree (by omega) h.located

namespace Config

theorem maxInflight_eq (config : Config C E) (h : 0 < config.count) :
    config.maxInflight = 2 * max 1 (min config.workers config.count) := by
  unfold maxInflight clamp
  split_ifs <;> omega

theorem maxInflight_pos (config : Config C E) (h : 0 < config.count) : 0 < config.maxInflight := by
  rw [config.maxInflight_eq h]
  omega

theorem Errs.append (h : config.Errs calls error) (call : Consumed C E) :
    config.Errs (calls ++ [call]) error :=
  h.imp_right fun ⟨earlier, hmem, hanswer⟩ => ⟨earlier, mem_append_left _ hmem, hanswer⟩

theorem Panics.append (h : config.Panics calls) (call : Consumed C E) :
    config.Panics (calls ++ [call]) :=
  h.imp_right fun ⟨earlier, hmem, hanswer⟩ => ⟨earlier, mem_append_left _ hmem, hanswer⟩

end Config

theorem AllOk.append (h : AllOk calls) (index : ℕ) (chunk : C) :
    AllOk (calls ++ [⟨index, chunk, .ok ()⟩]) := by
  intro call hcall
  rcases mem_append.mp hcall with hcall | hcall
  · exact h call hcall
  · rw [mem_singleton.mp hcall]

theorem Inv.move (h : Inv config s) (hconsuming : ∀ index chunk, s.phase ≠ .consuming index chunk)
    (hreturned : ∀ result, s.phase ≠ .returned result)
    (hlocated : config.Located s.state s.next s.calls phase) : Inv config { s with phase } := by
  refine { h with
    accounted := fun index hle hlt => ?_
    located := hlocated }
  rcases h.accounted index hle hlt with hpending | hready | hstop | ⟨chunk, hphase⟩ | ⟨result, hphase⟩
  · exact .inl hpending
  · exact .inr (.inl hready)
  · exact .inr (.inr (.inl hstop))
  · exact absurd hphase (hconsuming index chunk)
  · exact absurd hphase (hreturned result)

theorem Inv.wake (h : Inv config s) : Inv config { s with phase := s.phase.notified } := by
  refine { h with
    accounted := fun index hle hlt => ?_
    located := located_notified h.located }
  rcases h.accounted index hle hlt with hpending | hready | hstop | ⟨chunk, hphase⟩ | ⟨result, hphase⟩
  · exact .inl hpending
  · exact .inr (.inl hready)
  · exact .inr (.inr (.inl hstop))
  · exact .inr (.inr (.inr (.inl ⟨chunk, by simp [hphase, Phase.notified]⟩)))
  · exact .inr (.inr (.inr (.inr ⟨result, by simp [hphase, Phase.notified]⟩)))

theorem mayExtend_iff : s.mayExtend config index = true ↔
    s.next < config.count ∧ s.next - index < config.maxInflight ∧ s.state.stopping = false := by
  simp [World.mayExtend, and_assoc]

theorem Inv.submit (h : Inv config s) (hphase : s.phase = .submitting index)
    (hroom : s.mayExtend config index = true) : Inv config s.submit := by
  obtain ⟨hlt, hinflight, -⟩ := mayExtend_iff.mp hroom
  have hlocated := h.located
  rw [hphase] at hlocated
  obtain ⟨hat, hle, hstarted⟩ := hlocated
  have hpending : s.submit.pending.Perm (s.next :: s.pending) := by
    simp only [World.pending, World.submit, filterMap_append]
    rw [append_assoc]
    exact perm_middle
  refine { h with
    submitted := ?_
    next_le := hlt
    started := fun _ => hstarted
    inflight := ?_
    ready := fun other chunk hready =>
      (h.ready other chunk hready).imp_right fun hother => Nat.lt_succ_of_lt hother
    outstanding := ?_
    pending_lt := ?_
    accounted := ?_
    located := ?_ }
  · show s.submitted ++ [s.next] = List.range (s.next + 1)
    rw [h.submitted, range_succ]
  · show s.next + 1 ≤ s.calls.length + config.maxInflight
    have := hat.length
    omega
  · show s.state.outstanding + 1 = _
    rw [hpending.length_eq, length_cons, h.outstanding]
  · intro other hother
    show other < s.next + 1
    rcases mem_cons.mp (hpending.mem_iff.mp hother) with rfl | hother
    · exact Nat.lt_succ_self _
    · exact Nat.lt_succ_of_lt (h.pending_lt other hother)
  · intro other hge hother
    rcases Nat.lt_succ_iff_lt_or_eq.mp hother with hother | rfl
    · refine (h.accounted other hge hother).imp_left fun hmem => ?_
      exact hpending.mem_iff.mpr (mem_cons_of_mem _ hmem)
    · exact .inl (hpending.mem_iff.mpr mem_cons_self)
  · show config.Located _ _ _ s.phase
    rw [hphase]
    exact ⟨hat, Nat.le_succ_of_le hle, hstarted⟩

theorem Inv.endSubmit (h : Inv config s) (hphase : s.phase = .submitting index)
    (hroom : s.mayExtend config index = false) : Inv config { s with phase := .taking index } := by
  have hlocated := h.located
  rw [hphase] at hlocated
  obtain ⟨hat, hle, -⟩ := hlocated
  refine h.move (by simp [hphase]) (by simp [hphase]) ⟨hat, ?_⟩
  rcases Nat.eq_or_lt_of_le hle with heq | hlt
  · -- Nothing was submitted at this index, so the call is stopping.
    right
    by_contra hstop
    have hextend : s.mayExtend config index = true := by
      refine mayExtend_iff.mpr ⟨heq ▸ hat.lt, ?_, Bool.eq_false_iff.mpr hstop⟩
      rw [← heq, Nat.sub_self]
      exact config.maxInflight_pos (Nat.zero_lt_of_lt hat.lt)
    rw [hextend] at hroom
    contradiction
  · exact .inl hlt

theorem Inv.take (h : Inv config s) (hphase : s.phase = .taking index) :
    Inv config (s.take index) := by
  have hlocated := h.located
  rw [hphase] at hlocated
  obtain ⟨hat, hnext⟩ := hlocated
  unfold World.take
  split
  · rename_i chunk hready
    obtain ⟨hproduce, hlt⟩ := h.ready index chunk hready
    have hkept : ∀ other, other ≠ index →
        (s.state.ready.erase index)[other]? = s.state.ready[other]? := by
      intro other hne
      rw [Std.TreeMap.getElem?_erase, if_neg (by simpa using hne.symm)]
    refine { h with
      ready := fun other value hvalue => ?_
      accounted := fun other hge hother => ?_
      located := ⟨hat, hlt, hproduce⟩ }
    · rw [Std.TreeMap.getElem?_erase] at hvalue
      split_ifs at hvalue
      exact h.ready other value hvalue
    · by_cases hne : other = index
      · exact .inr (.inr (.inr (.inl ⟨chunk, by rw [hne]⟩)))
      · rcases h.accounted other hge hother with hpending | hsome | hstop | ⟨_, hother⟩ | ⟨_, hother⟩
        · exact .inl hpending
        · exact .inr (.inl (by rwa [hkept other hne]))
        · exact .inr (.inr (.inl hstop))
        · rw [hphase] at hother
          contradiction
        · rw [hphase] at hother
          contradiction
  · rename_i hready
    split_ifs with hstop
    · exact h.move (by simp [hphase]) (by simp [hphase]) (.inl hstop)
    · have hstop : s.state.stopping = false := Bool.eq_false_iff.mpr hstop
      refine h.move (by simp [hphase]) (by simp [hphase]) ⟨hat, ?_, hready, hstop⟩
      exact hnext.resolve_right (by simp [hstop])

theorem Inv.consumed (h : Inv config s) {answer : Outcome Unit E} (hat : config.At s.calls index)
    (hproduce : config.produce index = .ok chunk)
    (hconsuming : ∀ other value, s.phase = .consuming other value → other = index)
    (hreturned : ∀ result, s.phase ≠ .returned result)
    (hlocated : config.Located s.state s.next (s.calls ++ [⟨index, chunk, answer⟩]) phase) :
    Inv config { s with calls := s.calls ++ [⟨index, chunk, answer⟩], phase } := by
  have hlength : (s.calls ++ [(⟨index, chunk, answer⟩ : Consumed C E)]).length = index + 1 := by
    rw [length_append, hat.length, length_singleton]
  refine { h with
    inflight := ?_
    indices := ?_
    calls_le := ?_
    chunks := ?_
    failed := fun error hfailed => (h.failed error hfailed).append _
    panicked := fun hpanicked => (h.panicked hpanicked).append _
    accounted := fun other hge hlt => ?_
    located := hlocated }
  · have := h.inflight
    have := hat.length
    dsimp only
    omega
  · dsimp only
    rw [hlength, map_append, h.indices, hat.length, range_succ, map_singleton]
  · exact hlength.trans_le hat.lt
  · intro call hcall
    rcases mem_append.mp hcall with hcall | hcall
    · exact h.chunks call hcall
    · rw [mem_singleton.mp hcall]
      exact hproduce
  · have hge : index + 1 ≤ other := hlength.symm.trans_le hge
    have hearlier : s.calls.length ≤ other := by rw [hat.length]; omega
    rcases h.accounted other hearlier hlt with hpending | hready | hstop | ⟨value, hphase⟩ |
      ⟨result, hphase⟩
    · exact .inl hpending
    · exact .inr (.inl hready)
    · exact .inr (.inr (.inl hstop))
    · have := hconsuming other value hphase
      omega
    · exact absurd hphase (hreturned result)

theorem at_succ (hat : config.At calls index) (chunk : C) (hlt : index + 1 < config.count) :
    config.At (calls ++ [⟨index, chunk, .ok ()⟩]) (index + 1) where
  lt := hlt
  length := by rw [length_append, hat.length, length_singleton]
  allOk := hat.allOk.append index chunk

theorem complete_succ (hat : config.At calls index) (chunk : C) (hlast : ¬ index + 1 < config.count) :
    config.Complete (calls ++ [⟨index, chunk, .ok ()⟩]) where
  length := by
    rw [length_append, hat.length, length_singleton]
    have := hat.lt
    omega
  allOk := hat.allOk.append index chunk

section
variable (h : Inv config s)
include h

theorem Inv.consume (answer : Outcome Unit E) (hphase : s.phase = .consuming index chunk) :
    Inv config (s.consumed config index chunk answer) := by
  have hlocated := h.located
  rw [hphase] at hlocated
  obtain ⟨hat, hnext, hproduce⟩ := hlocated
  have hlast : ∀ call : Consumed C E, call ∈ s.calls ++ [call] := by simp
  refine h.consumed hat hproduce ?_ (by simp [hphase]) ?_
  · intro other value hother
    rw [hphase] at hother
    cases hother
    rfl
  · cases answer with
    | ok value =>
      show config.Located _ _ _ (World.afterChunk config index)
      unfold World.afterChunk
      split_ifs with hlt
      · exact ⟨at_succ hat chunk hlt, hnext, h.started (Nat.zero_lt_of_lt hnext)⟩
      · exact .inr (complete_succ hat chunk hlt)
    | error | panic => exact .inr ⟨_, hlast _, rfl⟩

theorem Inv.serialProduce (hphase : s.phase = .serial index) :
    Inv config (s.serialProduce config index) := by
  have hlocated := h.located
  rw [hphase] at hlocated
  obtain ⟨hat, hidle⟩ := hlocated
  refine h.move (by simp [hphase]) (by simp [hphase]) ?_
  cases hproduce : config.produce index with
  | ok chunk => exact ⟨hat, hidle, hproduce⟩
  | error | panic => exact ⟨.inl ⟨index, hat.lt, hproduce⟩, hidle⟩

theorem Inv.serialConsume (answer : Outcome Unit E) (hphase : s.phase = .serialConsuming index chunk) :
    Inv config (s.serialConsumed config index chunk answer) := by
  have hlocated := h.located
  rw [hphase] at hlocated
  obtain ⟨hat, hidle, hproduce⟩ := hlocated
  have hlast : ∀ call : Consumed C E, call ∈ s.calls ++ [call] := by simp
  refine h.consumed hat hproduce (by simp [hphase]) (by simp [hphase]) ?_
  cases answer with
  | ok value =>
    dsimp only
    split_ifs with hlt
    · exact ⟨at_succ hat chunk hlt, hidle⟩
    · exact ⟨complete_succ hat chunk hlt, hidle⟩
  | error | panic => exact ⟨.inr ⟨_, hlast _, rfl⟩, hidle⟩

theorem Inv.fail (hphase : s.phase = .failing error) :
    Inv config { s with state := s.state.fail error, phase := .draining false } := by
  have hlocated := h.located
  rw [hphase] at hlocated
  have hstopping : (s.state.fail error).stopping = true := by simp [State.stopping, State.fail]
  refine { h with
    failed := ?_
    accounted := fun _ _ _ => .inr (.inr (.inl hstopping))
    located := .inl hstopping }
  intro kept hkept
  cases hfailed : s.state.failed with
  | none =>
    simp only [State.fail, hfailed, Option.none_or, Option.some.injEq] at hkept
    exact hkept ▸ hlocated
  | some first =>
    simp only [State.fail, hfailed, Option.some_or] at hkept
    exact h.failed kept (hfailed.trans hkept)

theorem explains_result (hleft : config.Left s.state s.calls false) :
    config.Explains s.calls s.state.result := by
  unfold State.result
  split_ifs with hpanicked
  · exact h.panicked hpanicked
  · cases hfailed : s.state.failed with
    | some error => exact h.failed error hfailed
    | none =>
      refine hleft.resolve_left ?_
      simp [State.stopping, hfailed, hpanicked]

theorem Inv.settle {unwinding : Bool} (hphase : s.phase = .draining unwinding) :
    Inv config (s.settle unwinding) := by
  have hlocated := h.located
  rw [hphase] at hlocated
  unfold World.settle
  split
  · rename_i hwait
    exact h.move (by simp [hphase]) (by simp [hphase]) ⟨hlocated, hwait⟩
  · rename_i hidle
    have hidle : s.state.outstanding = 0 := Nat.eq_zero_of_not_pos hidle
    refine { h with
      ready := by simp [State.empty]
      outstanding := hidle.symm.trans h.outstanding
      failed := by simp [State.empty]
      panicked := by simp [State.empty]
      accounted := fun _ _ _ => .inr (.inr (.inr (.inr ⟨_, rfl⟩)))
      located := ⟨?_, rfl⟩ }
    cases unwinding with
    | true => exact hlocated
    | false => exact explains_result h hlocated

theorem inv_step (hstep : Step config s t) : Inv config t := by
  cases hstep with
  | submit index hphase hroom => exact h.submit hphase hroom
  | submitted index hphase hroom => exact h.endSubmit hphase hroom
  | take index hphase => exact h.take hphase
  | consume index chunk answer hphase => exact h.consume answer hphase
  | fail error hphase => exact h.fail hphase
  | settle unwinding hphase => exact h.settle hphase
  | serialProduce index hphase => exact h.serialProduce hphase
  | serialConsume index chunk answer hphase => exact h.serialConsume answer hphase
  | begin job rest hqueue hidle => exact h.begin hqueue
  | produce front back index hworking => exact h.produce hworking
  | record front back index hworking hfree => exact h.record hworking hfree
  | otherDone front back hworking => exact h.otherDone hworking

theorem inv_disturb (hstep : Disturb s t) : Inv config t := by
  cases hstep with
  | submitOther =>
    apply h.repool
    have hother : [Job.other].filterMap Job.index? = [] := rfl
    rw [filterMap_append, hother, append_nil]
    exact .refl _
  | wake => exact h.wake

end

theorem Reachable.inv (h : Reachable config s) : Inv config s :=
  Transition.run_keeps (fun _ _ hinv hstep => hstep.elim (inv_step hinv) (inv_disturb hinv))
    (inv_start config) h

def Task.weight : Task → ℕ
  | .producing _ => 4
  | .produced _ => 3
  | .other => 3

/-- How far the caller is from returning. A report may wake it, which takes it one turn back. -/
def Phase.rank (count : ℕ) : Phase C E → ℕ
  | .serial index => 6 * (count - index) + 5
  | .serialConsuming index _ => 6 * (count - index) + 2
  | .submitting index => 6 * (count - index) + 5
  | .taking index => 6 * (count - index) + 4
  | .waiting index => 6 * (count - index) + 3
  | .consuming index _ => 6 * (count - index) + 2
  | .failing _ => 4
  | .draining _ => 3
  | .drainWaiting _ => 2
  | .returned _ => 0

/-- The work left: chunks to submit, jobs in the queue and on the threads, and the caller's. -/
def World.work (config : Config C E) (s : World C E) : ℕ :=
  6 * (config.count - s.next) + 5 * s.queue.length + (s.working.map Task.weight).sum +
    s.phase.rank config.count

theorem rank_notified (count : ℕ) (phase : Phase C E) :
    phase.notified.rank count ≤ phase.rank count + 1 := by
  cases phase <;> simp [Phase.notified, Phase.rank]

section
variable (h : Inv config s)
include h

theorem work_lt (hstep : Step config s t) : t.work config < s.work config := by
  have hlocated := h.located
  cases hstep with
  | submit index hphase hroom =>
    obtain ⟨hlt, -, -⟩ := mayExtend_iff.mp hroom
    simp only [World.work, World.submit, length_append, length_singleton]
    omega
  | submitted _ hphase | fail _ hphase => simp only [World.work, hphase, Phase.rank]; omega
  | take index hphase =>
    unfold World.take
    split
    · simp only [World.work, hphase, Phase.rank]; omega
    · split_ifs <;> simp only [World.work, hphase, Phase.rank] <;> omega
  | consume index chunk answer hphase =>
    rw [hphase] at hlocated
    have hlt := hlocated.1.lt
    cases answer with
    | ok value =>
      simp only [World.work, World.consumed, World.afterChunk, hphase]
      split_ifs <;> simp only [Phase.rank] <;> omega
    | error | panic => simp only [World.work, World.consumed, hphase, Phase.rank]; omega
  | settle unwinding hphase =>
    unfold World.settle
    split <;> simp only [World.work, hphase, Phase.rank] <;> omega
  | serialProduce index hphase =>
    cases hproduce : config.produce index <;>
      simp only [World.work, World.serialProduce, hproduce, hphase, Phase.rank] <;> omega
  | serialConsume index chunk answer hphase =>
    rw [hphase] at hlocated
    have hlt := hlocated.1.lt
    cases answer with
    | ok value =>
      simp only [World.work, World.serialConsumed, hphase]
      split_ifs <;> simp only [Phase.rank] <;> omega
    | error | panic => simp only [World.work, World.serialConsumed, hphase, Phase.rank]; omega
  | begin job rest hqueue hidle =>
    have htask : job.task.weight ≤ 4 := by cases job <;> simp [Job.task, Task.weight]
    simp only [World.work, World.begin, hqueue, length_cons, map_append, sum_append, map_singleton, sum_singleton]
    omega
  | produce _ _ _ hworking | otherDone _ _ hworking =>
    simp only [World.work, hworking, map_append, map_cons, sum_append, sum_cons, Task.weight]
    omega
  | record front back index hworking hfree =>
    have hrank := rank_notified config.count s.phase
    simp only [World.work, World.record, hworking, map_append, map_cons, sum_append, sum_cons, Task.weight]
    omega

theorem exists_pool_step (hpending : s.pending ≠ [])
    (hfree : ∀ index, s.phase ≠ .submitting index) : ∃ t, Step config s t := by
  cases hworking : s.working with
  | cons task rest =>
    cases task with
    | producing index => exact ⟨_, .produce [] rest index hworking⟩
    | produced index => exact ⟨_, .record [] rest index hworking hfree⟩
    | other => exact ⟨_, .otherDone [] rest hworking⟩
  | nil =>
    obtain ⟨index, hindex⟩ := exists_mem_of_ne_nil _ hpending
    have hstarted := h.started (Nat.zero_lt_of_lt (h.pending_lt index hindex))
    cases hqueue : s.queue with
    | nil => exact absurd (by simp [World.pending, hqueue, hworking]) hpending
    | cons job rest => exact ⟨_, .begin job rest hqueue (by simpa [hworking] using hstarted)⟩

def World.Returned (s : World C E) : Prop :=
  ∃ result, s.phase = .returned result

theorem returned_or_step : s.Returned ∨ ∃ t, Step config s t := by
  have hlocated := h.located
  cases hphase : s.phase with
  | serial index => exact .inr ⟨_, .serialProduce index hphase⟩
  | serialConsuming index chunk => exact .inr ⟨_, .serialConsume index chunk (.ok ()) hphase⟩
  | submitting index =>
    cases hroom : s.mayExtend config index with
    | true => exact .inr ⟨_, .submit index hphase hroom⟩
    | false => exact .inr ⟨_, .submitted index hphase hroom⟩
  | taking index => exact .inr ⟨_, .take index hphase⟩
  | waiting index =>
    -- The chunk waited for is neither ready nor lost, so its job is pending.
    rw [hphase] at hlocated
    obtain ⟨hat, hlt, hready, hstop⟩ := hlocated
    have hindex := h.accounted index hat.length.le hlt
    simp only [hready, hstop, hphase, Option.isSome_none, Bool.false_eq_true, reduceCtorEq,
      exists_false, or_false] at hindex
    exact .inr (exists_pool_step h (ne_nil_of_mem hindex) (by simp [hphase]))
  | consuming index chunk => exact .inr ⟨_, .consume index chunk (.ok ()) hphase⟩
  | failing error => exact .inr ⟨_, .fail error hphase⟩
  | draining unwinding => exact .inr ⟨_, .settle unwinding hphase⟩
  | drainWaiting unwinding =>
    rw [hphase] at hlocated
    have hpending : s.pending ≠ [] := by
      rw [← length_pos_iff, ← h.outstanding]
      exact hlocated.2
    exact .inr (exists_pool_step h hpending (by simp [hphase]))
  | returned result => exact .inl ⟨result, hphase⟩

theorem settles : Transition.Settles (Step config) World.Returned s :=
  Transition.settles_of_measure (World.work config) (fun _ _ hinv hstep => inv_step hinv hstep)
    (fun _ _ hinv hstep => work_lt hinv hstep) (fun _ hinv => returned_or_step hinv) h

def World.inflight (s : World C E) : List ℕ :=
  s.submitted.filter fun index => index ∉ s.calls.map Consumed.index

theorem Inv.length_inflight : s.inflight.length = s.next - s.calls.length := by
  rw [World.inflight, h.submitted, h.indices]
  rw [← countP_eq_length_filter]
  simp only [mem_range, not_lt]
  induction s.next with
  | zero => simp
  | succ next ih =>
    rw [range_succ, countP_append, ih, countP_singleton]
    split_ifs with hle
    · have := of_decide_eq_true hle
      omega
    · have : ¬ s.calls.length ≤ next := fun hle' => hle (decide_eq_true hle')
      omega

theorem Inv.inflight_le :
    s.inflight.length ≤ 2 * max 1 (min config.workers config.count) := by
  rw [h.length_inflight]
  rcases Nat.eq_zero_or_pos config.count with hzero | hpos
  · have := h.next_le
    omega
  · have := h.inflight
    rw [config.maxInflight_eq hpos] at this
    omega

/-- A call fails at an index whose chunk is not produced, or whose chunk `consume` refuses. -/
def Config.Fails (config : Config C E) (calls : List (Consumed C E)) : Prop :=
  (∃ index < config.count, ∀ chunk, config.produce index ≠ .ok chunk) ∨ ¬ AllOk calls

theorem Inv.produced_of_complete (hcomplete : config.Complete s.calls) :
    ¬ config.Fails s.calls := by
  rintro (⟨index, hlt, hproduce⟩ | hok)
  · have hmem : index ∈ s.calls.map Consumed.index := by
      rw [h.indices, hcomplete.length]
      exact mem_range.mpr hlt
    obtain ⟨call, hcall, rfl⟩ := mem_map.mp hmem
    exact hproduce call.chunk (h.chunks call hcall)
  · exact hok hcomplete.allOk

end

theorem Config.Errs.fails (h : config.Errs calls error) : config.Fails calls := by
  rcases h with ⟨index, hlt, hproduce⟩ | ⟨call, hcall, hanswer⟩
  · exact .inl ⟨index, hlt, by simp [hproduce]⟩
  · exact .inr fun hok => by simp [hok call hcall] at hanswer

theorem Config.Panics.fails (h : config.Panics calls) : config.Fails calls := by
  rcases h with ⟨index, hlt, hproduce⟩ | ⟨call, hcall, hanswer⟩
  · exact .inl ⟨index, hlt, by simp [hproduce]⟩
  · exact .inr fun hok => by simp [hok call hcall] at hanswer

/-- In every state of every run of a call, the chunks in flight are within the bound, and
`consume` was called with the chunks of an initial segment, in order. A call that returned has
no job left; it consumed every chunk unless `produce` or `consume` failed, and then it returns
an error, or raises a panic of one of the two. Every run comes to a return. -/
theorem orderedChunks_inOrder (h : Reachable config s) :
    s.inflight.length ≤ 2 * max 1 (min config.workers config.count) ∧
    (∃ consumed ≤ config.count, s.calls.map Consumed.index = List.range consumed) ∧
    (∀ call ∈ s.calls, config.produce call.index = .ok call.chunk) ∧
    (∀ result, s.phase = .returned result →
      s.pending = [] ∧
      (¬ config.Fails s.calls →
        result = .ok () ∧ s.calls.map Consumed.index = List.range config.count) ∧
      (config.Fails s.calls →
        (∃ error, result = .error error ∧ config.Errs s.calls error) ∨
          result = .panic ∧ config.Panics s.calls)) ∧
    Transition.Settles (Step config) World.Returned s := by
  have hinv := h.inv
  refine ⟨hinv.inflight_le, ⟨_, hinv.calls_le, hinv.indices⟩, hinv.chunks, ?_, settles hinv⟩
  intro result hphase
  have hlocated := hinv.located
  rw [hphase] at hlocated
  obtain ⟨hexplains, hidle⟩ := hlocated
  refine ⟨length_eq_zero_iff.mp (hinv.outstanding.symm.trans hidle), ?_, ?_⟩
  · intro hnot
    cases result with
    | ok value => exact ⟨rfl, by rw [hinv.indices, hexplains.length]⟩
    | error | panic => exact absurd hexplains.fails hnot
  · intro hfails
    cases result with
    | ok value => exact absurd hfails (hinv.produced_of_complete hexplains)
    | error error => exact .inl ⟨error, rfl, hexplains⟩
    | panic => exact .inr ⟨rfl, hexplains⟩

def oneChunk : Config ℕ String where
  count := 1
  workers := 4
  produce index := .ok index
  started := 1
  onPoolThread := false

theorem orderedChunks_inOrder_one : ∃ s, Reachable oneChunk s ∧ s.phase = .returned (.ok ()) ∧
    s.calls.map Consumed.index = [0] := by
  have hrun : ∃ s, Relation.ReflTransGen (Step oneChunk) oneChunk.start s ∧
      s.phase = .returned (.ok ()) ∧ AllOk s.calls :=
    ⟨_, .head (.submit 0 rfl rfl) <| .head (.submitted 0 rfl rfl) <| .head (.take 0 rfl) <|
      .head (.begin (.own 0) [] rfl Nat.one_pos) <| .head (.produce [] [] 0 rfl) <|
      .head (.record [] [] 0 rfl (fun _ => nofun)) <| .head (.take 0 rfl) <|
      .head (.consume 0 0 (.ok ()) rfl) <| .head (.settle false rfl) .refl, rfl, by
      intro call hcall
      rw [mem_singleton.mp hcall]⟩
  obtain ⟨s, hsteps, hreturned, hok⟩ := hrun
  have hreach : Reachable oneChunk s :=
    Relation.ReflTransGen.mono (fun _ _ hstep => .inl hstep) _ _ hsteps
  obtain ⟨-, -, -, hresult, -⟩ := orderedChunks_inOrder hreach
  refine ⟨s, hreach, hreturned, ((hresult _ hreturned).2.1 ?_).2⟩
  rintro (⟨index, -, hproduce⟩ | hnot)
  · exact hproduce index rfl
  · exact hnot hok

theorem exists_step_allOk (hok : AllOk s.calls) (hstep : Step config s t) :
    ∃ t', Step config s t' ∧ AllOk t'.calls := by
  cases hstep with
  | submit index hphase hroom => exact ⟨_, .submit index hphase hroom, hok⟩
  | submitted index hphase hroom => exact ⟨_, .submitted index hphase hroom, hok⟩
  | take index hphase =>
    refine ⟨_, .take index hphase, ?_⟩
    unfold World.take
    split
    · exact hok
    · split_ifs <;> exact hok
  | consume index chunk answer hphase =>
    exact ⟨_, .consume index chunk (.ok ()) hphase, hok.append index chunk⟩
  | fail error hphase => exact ⟨_, .fail error hphase, hok⟩
  | settle unwinding hphase =>
    refine ⟨_, .settle unwinding hphase, ?_⟩
    unfold World.settle
    split_ifs <;> exact hok
  | serialProduce index hphase => exact ⟨_, .serialProduce index hphase, hok⟩
  | serialConsume index chunk answer hphase =>
    exact ⟨_, .serialConsume index chunk (.ok ()) hphase, hok.append index chunk⟩
  | begin job rest hqueue hidle => exact ⟨_, .begin job rest hqueue hidle, hok⟩
  | produce front back index hworking => exact ⟨_, .produce front back index hworking, hok⟩
  | record front back index hworking hfree => exact ⟨_, .record front back index hworking hfree, hok⟩
  | otherDone front back hworking => exact ⟨_, .otherDone front back hworking, hok⟩

theorem chunks_of_returned {produce : ℕ → C} (hproduce : config.produce = fun index => .ok (produce index))
    (h : Reachable config s) (hphase : s.phase = .returned (.ok ())) :
    s.calls.map Consumed.chunk = (List.range config.count).map produce := by
  have hinv := h.inv
  have hlocated := hinv.located
  rw [hphase] at hlocated
  have hlength : s.calls.length = config.count := hlocated.1.length
  rw [← hlength, ← hinv.indices, map_map]
  refine map_congr_left fun call hcall => ?_
  have hchunk := hinv.chunks call hcall
  rw [hproduce] at hchunk
  exact (Outcome.ok.inj hchunk).symm

/-- A state of a run in which `consume` has not failed. -/
def Smooth (config : Config C E) (s : World C E) : Prop := Inv config s ∧ AllOk s.calls

theorem smooth_start (config : Config C E) : Smooth config config.start :=
  ⟨inv_start config, by simp [AllOk, Config.start]⟩

theorem smooth_step (s t : World C E) (hs : Smooth config s) (hstep : Step config s t ∧ AllOk t.calls) :
    Smooth config t :=
  ⟨inv_step hs.1 hstep.1, hstep.2⟩

theorem exists_returned {produce : ℕ → C} (hproduce : config.produce = fun index => .ok (produce index)) :
    ∃ s, Reachable config s ∧ s.phase = .returned (.ok ()) := by
  have hsettles : Transition.Settles (fun s t => Step config s t ∧ AllOk t.calls) World.Returned
      config.start := by
    refine Transition.settles_of_measure (World.work config) smooth_step ?_ ?_ (smooth_start config)
    · exact fun s t hs hstep => work_lt hs.1 hstep.1
    · intro s hs
      rcases returned_or_step hs.1 with hreturned | ⟨t, hstep⟩
      · exact .inl hreturned
      · exact .inr (exists_step_allOk hs.2 hstep)
  obtain ⟨s, hrun, result, hresult⟩ := hsettles.exists_done
  have hsmooth : Smooth config s := Transition.run_keeps smooth_step (smooth_start config) hrun
  refine ⟨s, Relation.ReflTransGen.mono (fun _ _ hstep => .inl hstep.1) _ _ hrun, ?_⟩
  have hlocated := hsmooth.1.located
  rw [hresult] at hlocated
  have hsound : ¬config.Fails s.calls := by
    rintro (⟨index, -, hnot⟩ | hnot)
    · exact hnot (produce index) (by rw [hproduce])
    · exact hnot hsmooth.2
  cases result with
  | ok value => exact hresult
  | error | panic => exact absurd hlocated.1.fails hsound

end QbitPrism.OrderedChunks
