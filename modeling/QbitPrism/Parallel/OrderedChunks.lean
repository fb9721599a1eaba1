import Mathlib
import QbitPrism.Lib.Transition

/-!
# Ordered chunks

One call of `ordered_chunks`: the caller submits chunks to the builder pool, the pool's
threads produce them, and the caller consumes them in index order. The caller, the pool's
queue and every job take their steps in any order; the mutex over the shared state makes
the steps under it atomic.
-/
namespace QbitPrism.OrderedChunks

/-- What a call of `produce` or `consume` comes to. -/
inductive Outcome (α E : Type*) where
  | ok (value : α)
  | error (error : E)
  | panic

structure State (C E : Type*) where
  ready : Std.TreeMap ℕ C
  failed : Option E
  panicked : Bool
  outstanding : ℕ

namespace State

variable {C E : Type*}

def empty : State C E where
  ready := ∅
  failed := none
  panicked := false
  outstanding := 0

def stopping (state : State C E) : Bool :=
  state.failed.isSome || state.panicked

def fail (state : State C E) (error : E) : State C E :=
  { state with failed := state.failed.or (some error) }

def report (state : State C E) (index : ℕ) : Outcome C E → State C E
  | .ok chunk => { state with ready := state.ready.insert index chunk }
  | .error error => state.fail error
  | .panic => { state with panicked := true }

def record (state : State C E) (index : ℕ) (outcome : Outcome C E) : State C E :=
  { state.report index outcome with outstanding := state.outstanding - 1 }

def result (state : State C E) : Outcome Unit E :=
  if state.panicked then .panic
  else
    match state.failed with
    | some error => .error error
    | none => .ok ()

end State

/-- Where the calling thread is. In `submitting` it holds the lock of the shared state; in
`waiting` and `drainWaiting` it waits for the signal. -/
inductive Phase (C E : Type*) where
  | serial (index : ℕ)
  | serialConsuming (index : ℕ) (chunk : C)
  | submitting (index : ℕ)
  | taking (index : ℕ)
  | waiting (index : ℕ)
  | consuming (index : ℕ) (chunk : C)
  | failing (error : E)
  | draining (unwinding : Bool)
  | drainWaiting (unwinding : Bool)
  | returned (result : Outcome Unit E)

variable {C E : Type*}

/-- `notify_all` on the signal. -/
def Phase.notified : Phase C E → Phase C E
  | .waiting index => .taking index
  | .drainWaiting unwinding => .draining unwinding
  | phase => phase

/-- A job on the pool's queue: one of this call's, or one of another call's. -/
inductive Job where
  | own (index : ℕ)
  | other

/-- What a pool thread is doing. A job that has `produced` no longer uses `produce`. -/
inductive Task where
  | producing (index : ℕ)
  | produced (index : ℕ)
  | other

def Job.task : Job → Task
  | .own index => .producing index
  | .other => .other

def Job.index? : Job → Option ℕ
  | .own index => some index
  | .other => none

def Task.index? : Task → Option ℕ
  | .producing index => some index
  | .produced index => some index
  | .other => none

/-- A call of `consume` and its answer. -/
structure Consumed (C E : Type*) where
  index : ℕ
  chunk : C
  answer : Outcome Unit E

/-- The arguments of the call and the pool it finds. -/
structure Config (C E : Type*) where
  count : ℕ
  workers : ℕ
  produce : ℕ → Outcome C E
  /-- The pool's threads that started; none if the pool is disabled. -/
  started : ℕ
  onPoolThread : Bool

namespace Config

def usesPool (config : Config C E) : Bool :=
  0 < config.started && !config.onPoolThread

def clamp (value low high : ℕ) : ℕ :=
  if value < low then low else if high < value then high else value

def maxInflight (config : Config C E) : ℕ :=
  clamp config.workers 1 config.count * 2

end Config

/-- The call and the pool. `submitted` and `calls` are history: the jobs given to the pool
and the calls of `consume`, oldest first. -/
structure World (C E : Type*) where
  state : State C E
  next : ℕ
  phase : Phase C E
  queue : List Job
  working : List Task
  submitted : List ℕ
  calls : List (Consumed C E)

def Config.entry (config : Config C E) : Phase C E :=
  if config.count = 0 then .returned (.ok ())
  else if config.usesPool then .submitting 0
  else .serial 0

def Config.start (config : Config C E) : World C E where
  state := .empty
  next := 0
  phase := config.entry
  queue := []
  working := []
  submitted := []
  calls := []

namespace World

def mayExtend (s : World C E) (config : Config C E) (index : ℕ) : Bool :=
  s.next < config.count && s.next - index < config.maxInflight && !s.state.stopping

def submit (s : World C E) : World C E :=
  { s with
    state := { s.state with outstanding := s.state.outstanding + 1 }
    next := s.next + 1
    queue := s.queue ++ [.own s.next]
    submitted := s.submitted ++ [s.next] }

/-- One turn of the loop that waits for chunk `index`. -/
def take (s : World C E) (index : ℕ) : World C E :=
  match s.state.ready[index]? with
  | some chunk =>
    { s with
      state := { s.state with ready := s.state.ready.erase index }
      phase := .consuming index chunk }
  | none =>
    if s.state.stopping then { s with phase := .draining false }
    else { s with phase := .waiting index }

def afterChunk (config : Config C E) (index : ℕ) : Phase C E :=
  if index + 1 < config.count then .submitting (index + 1) else .draining false

def consumed (s : World C E) (config : Config C E) (index : ℕ) (chunk : C)
    (answer : Outcome Unit E) : World C E :=
  { s with
    calls := s.calls ++ [{ index, chunk, answer }]
    phase := match answer with
      | .ok () => afterChunk config index
      | .error error => .failing error
      | .panic => .draining true }

/-- One turn of the loop of `Drain::settle`, and what follows its end. A panic of `consume`
unwinds through it. -/
def settle (s : World C E) (unwinding : Bool) : World C E :=
  if 0 < s.state.outstanding then { s with phase := .drainWaiting unwinding }
  else
    { s with
      state := .empty
      phase := .returned (if unwinding then .panic else s.state.result) }

def serialProduce (s : World C E) (config : Config C E) (index : ℕ) : World C E :=
  { s with
    phase := match config.produce index with
      | .ok chunk => .serialConsuming index chunk
      | .error error => .returned (.error error)
      | .panic => .returned .panic }

def serialConsumed (s : World C E) (config : Config C E) (index : ℕ) (chunk : C)
    (answer : Outcome Unit E) : World C E :=
  { s with
    calls := s.calls ++ [{ index, chunk, answer }]
    phase := match answer with
      | .ok () => if index + 1 < config.count then .serial (index + 1) else .returned (.ok ())
      | .error error => .returned (.error error)
      | .panic => .returned .panic }

def begin (s : World C E) (job : Job) (rest : List Job) : World C E :=
  { s with queue := rest, working := s.working ++ [job.task] }

def record (s : World C E) (config : Config C E) (index : ℕ) (working : List Task) : World C E :=
  { s with
    state := s.state.record index (config.produce index)
    working
    phase := s.phase.notified }

def pending (s : World C E) : List ℕ :=
  s.queue.filterMap Job.index? ++ s.working.filterMap Task.index?

end World

/-- The steps of the caller and of the pool's threads. The answers of `consume` are any. -/
inductive Step (config : Config C E) (s : World C E) : World C E → Prop where
  | submit (index : ℕ) (hphase : s.phase = .submitting index)
      (hroom : s.mayExtend config index = true) : Step config s s.submit
  | submitted (index : ℕ) (hphase : s.phase = .submitting index)
      (hroom : s.mayExtend config index = false) : Step config s { s with phase := .taking index }
  | take (index : ℕ) (hphase : s.phase = .taking index) : Step config s (s.take index)
  | consume (index : ℕ) (chunk : C) (answer : Outcome Unit E)
      (hphase : s.phase = .consuming index chunk) :
      Step config s (s.consumed config index chunk answer)
  | fail (error : E) (hphase : s.phase = .failing error) :
      Step config s { s with state := s.state.fail error, phase := .draining false }
  | settle (unwinding : Bool) (hphase : s.phase = .draining unwinding) :
      Step config s (s.settle unwinding)
  | serialProduce (index : ℕ) (hphase : s.phase = .serial index) :
      Step config s (s.serialProduce config index)
  | serialConsume (index : ℕ) (chunk : C) (answer : Outcome Unit E)
      (hphase : s.phase = .serialConsuming index chunk) :
      Step config s (s.serialConsumed config index chunk answer)
  | begin (job : Job) (rest : List Job) (hqueue : s.queue = job :: rest)
      (hidle : s.working.length < config.started) : Step config s (s.begin job rest)
  | produce (front back : List Task) (index : ℕ)
      (hworking : s.working = front ++ .producing index :: back) :
      Step config s { s with working := front ++ .produced index :: back }
  -- A job reports under the lock, which the caller holds while it submits.
  | record (front back : List Task) (index : ℕ)
      (hworking : s.working = front ++ .produced index :: back)
      (hfree : ∀ index, s.phase ≠ .submitting index) :
      Step config s (s.record config index (front ++ back))
  | otherDone (front back : List Task) (hworking : s.working = front ++ .other :: back) :
      Step config s { s with working := front ++ back }

/-- What the call does not control: other calls' jobs, and wake-ups without a signal. -/
inductive Disturb (s : World C E) : World C E → Prop where
  | submitOther : Disturb s { s with queue := s.queue ++ [.other] }
  | wake : Disturb s { s with phase := s.phase.notified }

def Reachable (config : Config C E) (s : World C E) : Prop :=
  Relation.ReflTransGen (fun s t => Step config s t ∨ Disturb s t) config.start s

end QbitPrism.OrderedChunks
