import Mathlib
import QbitPrism.Lib.KeyMap
import QbitPrism.Lib.MachineInt
import QbitPrism.Lib.Replay

/-!
# The retained-job graveyard of a session

Work evicted from a session's live jobs is buried on the same connection. Work that a same-parent
payout replacement supersedes is retired to block-only: it gives up its username permit and is never
credited again. Each kind is capped on the published tip and the whole graveyard at three times the
live capacity. Instants and durations are nanoseconds of the monotonic clock.
-/
namespace QbitPrism
open MachineInt List

inductive JobKind where
  | credit
  | blockOnly
  deriving DecidableEq

structure WireJob where
  jobId : String
  previousblockhash : String
  payoutRevision : I64
  kind : JobKind
  resumeExpiresAt : Option ℕ
  deriving DecidableEq

/-- `P` is the username permit. -/
structure IssuedJob (P : Type) where
  wire : WireJob
  authorizationPermit : Option P
  retiredAt : Option ℕ

structure RetentionTip where
  hash : String
  parent : Option String
  transitioned : Bool

structure StaleGrace where
  interval : ℕ
  delivered : Option (String × ℕ)
  checkedAt : ℕ

def StaleGrace.eligibleFor (grace : StaleGrace) (currentTip : String) : Bool :=
  grace.interval ≠ 0 && grace.delivered.all fun delivered =>
    delivered.1 ≠ currentTip || grace.checkedAt - delivered.2 ≤ grace.interval

def RetentionTip.keepsPrevious (tip : RetentionTip) (parent : String) (grace : StaleGrace) : Bool :=
  tip.transitioned && tip.hash ≠ parent && grace.eligibleFor tip.hash && tip.parent.all (· = parent)

/-- Whether a duration in seconds is at most a configured `f64` is left to the configuration. -/
structure StratumConfig where
  maxJobsPerConnection : U64
  maxJobs_pos : 0 < maxJobsPerConnection.val
  withinJobRetention : ℕ → Bool
  withinJobRetentionOrGrace : ℕ → Bool

structure RetainedJobs (P : Type) where
  jobs : KeyMap String (IssuedJob P)
  order : List String

def supersedes (replacement prior : WireJob) : Bool :=
  prior.previousblockhash = replacement.previousblockhash && prior.payoutRevision ≠ replacement.payoutRevision

section Graveyard
variable {P : Type}

def retireToBlockOnly (issued : IssuedJob P) : IssuedJob P :=
  { issued with authorizationPermit := none, wire := { issued.wire with kind := .blockOnly } }

def retireIfSuperseded (replacement : WireJob) (issued : IssuedJob P) : IssuedJob P :=
  if supersedes replacement issued.wire then retireToBlockOnly issued else issued

theorem jobId_retireIfSuperseded (replacement : WireJob) (issued : IssuedJob P) :
    (retireIfSuperseded replacement issued).wire.jobId = issued.wire.jobId := by
  unfold retireIfSuperseded
  split_ifs <;> rfl

namespace RetainedJobs

def empty : RetainedJobs P := ⟨KeyMap.empty, []⟩

/-- A job the cap of `kind` counts. -/
def capped (kind : JobKind) (publishedTip : Option String) (job : IssuedJob P) : Bool :=
  job.wire.kind = kind && publishedTip.all (job.wire.previousblockhash = ·)

/-- The retained jobs of `kind` on the published tip, or on any tip when none is known. -/
def sameTip (retained : RetainedJobs P) (kind : JobKind) (publishedTip : Option String) : ℕ :=
  retained.jobs.countValues (capped kind publishedTip)

/-- Oldest first, counted jobs go while more than `limit` are left. -/
def evictCapped (limit : ℕ) (counted : IssuedJob P → Bool) :
    List String → ℕ → KeyMap String (IssuedJob P) → RetainedJobs P
  | [], _, jobs => ⟨jobs, []⟩
  | id :: order, sameTip, jobs =>
    if limit < sameTip ∧ (jobs.get id).any counted then evictCapped limit counted order (sameTip - 1) (jobs.erase id)
    else
      let retained := evictCapped limit counted order sameTip jobs
      { retained with order := id :: retained.order }

/-- Oldest first, jobs go while more than `limit` are left. -/
def evictOldest (limit : ℕ) : List String → KeyMap String (IssuedJob P) → RetainedJobs P
  | [], jobs => ⟨jobs, []⟩
  | id :: order, jobs =>
    if limit < order.length + 1 then evictOldest limit order (jobs.erase id) else ⟨jobs, id :: order⟩

def cap (retained : RetainedJobs P) (kind : JobKind) (config : StratumConfig) (publishedTip : Option String) :
    RetainedJobs P :=
  let limit := config.maxJobsPerConnection
  let retained := evictCapped limit.val (capped kind publishedTip) retained.order
    (retained.sameTip kind publishedTip) retained.jobs
  evictOldest (min (limit.val * 3) (2 ^ 64 - 1)) retained.order retained.jobs

def retireSuperseded (retained : RetainedJobs P) (replacement : WireJob) (config : StratumConfig)
    (publishedTip : Option String) : RetainedJobs P :=
  let jobs := retained.jobs.mapValues (retireIfSuperseded replacement)
  RetainedJobs.cap { retained with jobs } .blockOnly config publishedTip

def bury (retained : RetainedJobs P) (job : IssuedJob P) (config : StratumConfig) (publishedTip : Option String)
    (now : ℕ) : RetainedJobs P :=
  let id := job.wire.jobId
  let order := retained.order.filter (· ≠ id) ++ [id]
  let jobs := retained.jobs.insert id { job with retiredAt := some now }
  RetainedJobs.cap ⟨jobs, order⟩ job.wire.kind config publishedTip

/-- Whether `prune` keeps a job. -/
def kept (config : StratumConfig) (tip : Option RetentionTip) (grace : StaleGrace) (now : ℕ)
    (issued : IssuedJob P) : Bool :=
  if issued.wire.resumeExpiresAt.any (· ≤ now) then false
  else
    match tip.filter fun tip => tip.hash ≠ issued.wire.previousblockhash with
    | some tip => issued.wire.kind = .credit && tip.keepsPrevious issued.wire.previousblockhash grace
    | none => issued.retiredAt.any fun buried => config.withinJobRetention (now - buried)

def prune (retained : RetainedJobs P) (config : StratumConfig) (tip : Option RetentionTip) (grace : StaleGrace)
    (now : ℕ) : RetainedJobs P :=
  let jobs := retained.jobs.retain fun _ issued => kept config tip grace now issued
  { jobs, order := retained.order.filter fun id => (jobs.get id).isSome }

end RetainedJobs

/-- The live jobs, oldest first, and the graveyard. -/
structure Session (P : Type) where
  jobs : List (IssuedJob P)
  retained : RetainedJobs P

namespace Session

def empty : Session P := ⟨[], .empty⟩

def buryUntilRoom (config : StratumConfig) (publishedTip : Option String) (now : ℕ) :
    List (IssuedJob P) → RetainedJobs P → Session P
  | [], retained => ⟨[], retained⟩
  | job :: jobs, retained =>
    if config.maxJobsPerConnection.val ≤ jobs.length + 1 then
      buryUntilRoom config publishedTip now jobs (retained.bury job config publishedTip now)
    else ⟨job :: jobs, retained⟩

def makeJobRoom (session : Session P) (config : StratumConfig) (tip : Option RetentionTip) (now : ℕ) : Session P :=
  buryUntilRoom config (tip.map (·.hash)) now session.jobs session.retained

/-- Bury, as block-only, the live jobs that the replacement supersedes. -/
def burySuperseded (replacement : WireJob) (config : StratumConfig) (publishedTip : Option String) (now : ℕ) :
    List (IssuedJob P) → RetainedJobs P → Session P
  | [], retained => ⟨[], retained⟩
  | prior :: jobs, retained =>
    if supersedes replacement prior.wire then
      burySuperseded replacement config publishedTip now jobs
        (retained.bury (retireToBlockOnly prior) config publishedTip now)
    else
      let session := burySuperseded replacement config publishedTip now jobs retained
      { session with jobs := prior :: session.jobs }

def burySupersededSameParent (session : Session P) (replacement : WireJob) (config : StratumConfig)
    (tip : Option RetentionTip) (now : ℕ) : Session P :=
  let publishedTip := tip.map (·.hash)
  burySuperseded replacement config publishedTip now session.jobs
    (session.retained.retireSuperseded replacement config publishedTip)

/-- Whether `prune_jobs` keeps a live job. -/
def kept (config : StratumConfig) (tip : Option RetentionTip) (grace : StaleGrace) (now : ℕ)
    (issued : IssuedJob P) : Bool :=
  if issued.wire.resumeExpiresAt.any (· ≤ now) then false
  else if tip.any (·.keepsPrevious issued.wire.previousblockhash grace) then true
  else issued.retiredAt.all fun retired => config.withinJobRetentionOrGrace (now - retired)

def pruneJobs (session : Session P) (config : StratumConfig) (tip : Option RetentionTip) (grace : StaleGrace)
    (now : ℕ) : Session P where
  jobs := session.jobs.filter (kept config tip grace now)
  retained := session.retained.prune config tip grace now

/-- The end of a delivery: the job joins the live ones, which are retired from now on. -/
def deliver (session : Session P) (job : IssuedJob P) (now : ℕ) : Session P :=
  { session with
    jobs := (session.jobs.map fun prior => { prior with retiredAt := prior.retiredAt.or (some now) }) ++ [job] }

end Session

variable {job prior : IssuedJob P} {replacement : WireJob}

namespace RetainedJobs
variable {retained after : RetainedJobs P} {jobs : KeyMap String (IssuedJob P)} {order : List String}

/-- The burial order lists exactly the retained jobs, each once and under its own ID. -/
structure Consistent (retained : RetainedJobs P) : Prop where
  nodup : retained.order.Nodup
  mem_order : ∀ id, id ∈ retained.order ↔ id ∈ retained.jobs.keys
  named : ∀ id job, (id, job) ∈ retained.jobs.entries → job.wire.jobId = id

/-- Jobs left the graveyard, in both collections alike. -/
structure Evicts (before after : RetainedJobs P) : Prop where
  order : after.order.Sublist before.order
  values : after.jobs.values.Sublist before.jobs.values
  entries : ∀ id job, (id, job) ∈ after.jobs.entries ↔
    (id, job) ∈ before.jobs.entries ∧ (id ∈ before.order → id ∈ after.order)

theorem Consistent.evicts (h : retained.Consistent) (hevicts : retained.Evicts after) : after.Consistent where
  nodup := h.nodup.sublist hevicts.order
  mem_order id := by
    simp only [KeyMap.mem_keys, hevicts.entries]
    constructor
    · intro hid
      obtain ⟨job, hjob⟩ := KeyMap.mem_keys.mp ((h.mem_order id).mp (hevicts.order.subset hid))
      exact ⟨job, hjob, fun _ => hid⟩
    · rintro ⟨job, hjob, hkept⟩
      exact hkept ((h.mem_order id).mpr (KeyMap.mem_keys.mpr ⟨job, hjob⟩))
  named id job hjob := h.named id job ((hevicts.entries id job).mp hjob).1

variable {id : String} {limit : ℕ} {counted : IssuedJob P → Bool}

theorem Evicts.cons (hnodup : (id :: order).Nodup) (h : Evicts ⟨jobs.erase id, order⟩ after) :
    Evicts ⟨jobs, id :: order⟩ after where
  order := h.order.cons id
  values := h.values.trans (jobs.values_retain_sublist _)
  entries key job := by
    obtain ⟨hnew, -⟩ := nodup_cons.mp hnodup
    simp only [h.entries, KeyMap.mem_entries_erase, mem_cons]
    constructor
    · rintro ⟨⟨hjob, hne⟩, hkept⟩
      exact ⟨hjob, fun hkey => hkept (hkey.resolve_left hne)⟩
    · rintro ⟨hjob, hkept⟩
      refine ⟨⟨hjob, ?_⟩, fun hkey => hkept (.inr hkey)⟩
      rintro rfl
      exact hnew (h.order.subset (hkept (.inl rfl)))

theorem Evicts.keep (hnodup : (id :: order).Nodup) (h : Evicts ⟨jobs, order⟩ after) :
    Evicts ⟨jobs, id :: order⟩ { after with order := id :: after.order } where
  order := h.order.cons_cons id
  values := h.values
  entries key job := by
    obtain ⟨hnew, -⟩ := nodup_cons.mp hnodup
    simp only [h.entries, mem_cons]
    constructor
    · rintro ⟨hjob, hkept⟩
      exact ⟨hjob, Or.imp_right hkept⟩
    · rintro ⟨hjob, hkept⟩
      refine ⟨hjob, fun hkey => (hkept (.inr hkey)).resolve_left ?_⟩
      rintro rfl
      exact hnew hkey

theorem Evicts.refl (retained : RetainedJobs P) : retained.Evicts retained where
  order := .refl _
  values := .refl _
  entries _ _ := ⟨fun h => ⟨h, id⟩, And.left⟩

theorem evictCapped_evicts (hnodup : order.Nodup) (sameTip : ℕ) (jobs : KeyMap String (IssuedJob P)) :
    Evicts ⟨jobs, order⟩ (evictCapped limit counted order sameTip jobs) := by
  induction order generalizing sameTip jobs with
  | nil => exact .refl _
  | cons id order ih =>
    have hrest := (nodup_cons.mp hnodup).2
    unfold evictCapped
    split_ifs
    · exact (ih hrest _ _).cons hnodup
    · exact (ih hrest _ _).keep hnodup

theorem evictOldest_evicts (hnodup : order.Nodup) (jobs : KeyMap String (IssuedJob P)) :
    Evicts ⟨jobs, order⟩ (evictOldest limit order jobs) := by
  induction order generalizing jobs with
  | nil => exact .refl _
  | cons id order ih =>
    unfold evictOldest
    split_ifs
    · exact (ih (nodup_cons.mp hnodup).2 _).cons hnodup
    · exact .refl _

theorem length_evictOldest (limit : ℕ) (order : List String) (jobs : KeyMap String (IssuedJob P)) :
    (evictOldest limit order jobs).order.length ≤ limit := by
  induction order generalizing jobs with
  | nil => exact Nat.zero_le _
  | cons id order ih =>
    unfold evictOldest
    split_ifs with hlong
    · exact ih _
    · rw [length_cons]
      omega

theorem countValues_evictOldest (limit : ℕ) (order : List String) (jobs : KeyMap String (IssuedJob P))
    (counted : IssuedJob P → Bool) :
    (evictOldest limit order jobs).jobs.countValues counted ≤ jobs.countValues counted := by
  induction order generalizing jobs with
  | nil => exact le_rfl
  | cons id order ih =>
    unfold evictOldest
    split_ifs
    · exact (ih _).trans (jobs.countValues_retain_le _ _)
    · exact le_rfl

theorem countValues_evictCapped (hnodup : order.Nodup) (sameTip : ℕ) (jobs : KeyMap String (IssuedJob P)) :
    (evictCapped limit counted order sameTip jobs).jobs.countValues counted +
        min (sameTip - limit) (order.countP fun id => (jobs.get id).any counted) =
      jobs.countValues counted := by
  induction order generalizing sameTip jobs with
  | nil => simp [evictCapped]
  | cons id order ih =>
    obtain ⟨hnew, hrest⟩ := nodup_cons.mp hnodup
    unfold evictCapped
    split_ifs with hevict
    · obtain ⟨hover, hcounted⟩ := hevict
      obtain ⟨job, hget, hjob⟩ := Option.any_eq_true _ _ |>.mp hcounted
      have hothers : (order.countP fun other => ((jobs.erase id).get other).any counted) =
          order.countP fun other => (jobs.get other).any counted := by
        refine countP_congr fun other hother => ?_
        have hother' : other ≠ id := ne_of_mem_of_not_mem hother hnew
        rw [KeyMap.get_erase_of_ne hother']
      have hstep := ih hrest (sameTip - 1) (jobs.erase id)
      have herased := KeyMap.countValues_erase hget hjob
      rw [hothers] at hstep
      rw [countP_cons_of_pos (p := fun other => (jobs.get other).any counted) hcounted]
      omega
    · have hstep := ih hrest sameTip jobs
      rw [countP_cons]
      by_cases hover : limit < sameTip
      · rw [if_neg fun hcounted => hevict ⟨hover, hcounted⟩]
        exact hstep
      · have hzero : sameTip - limit = 0 := by omega
        rw [hzero, Nat.zero_min] at hstep ⊢
        exact hstep

/-- The jobs a cap of one kind does not count stay. -/
theorem mem_evictCapped (hnodup : order.Nodup) (hid : id ∈ order) (sameTip : ℕ) (jobs : KeyMap String (IssuedJob P))
    (hother : (jobs.get id).any counted = false) : id ∈ (evictCapped limit counted order sameTip jobs).order := by
  induction order generalizing sameTip jobs with
  | nil => exact absurd hid not_mem_nil
  | cons first order ih =>
    obtain ⟨-, hrest⟩ := nodup_cons.mp hnodup
    unfold evictCapped
    split_ifs with hevict
    · have hne : id ≠ first := by
        rintro rfl
        rw [hevict.2] at hother
        cases hother
      refine ih hrest (mem_of_ne_of_mem hne hid) _ _ ?_
      rw [KeyMap.get_erase_of_ne hne]
      exact hother
    · rcases mem_cons.mp hid with rfl | hid
      · exact mem_cons_self
      · exact mem_cons_of_mem _ (ih hrest hid _ _ hother)

theorem length_evictOldest_of_le (hlong : limit ≤ order.length) (jobs : KeyMap String (IssuedJob P)) :
    (evictOldest limit order jobs).order.length = limit := by
  induction order generalizing jobs with
  | nil => exact (Nat.le_zero.mp hlong).symm
  | cons id order ih =>
    unfold evictOldest
    rw [length_cons] at hlong
    split_ifs
    · exact ih (by omega) _
    · rw [length_cons]
      omega

theorem mem_evictOldest (limit : ℕ) (hid : id ∈ order) (jobs : KeyMap String (IssuedJob P)) :
    id ∈ (evictOldest limit order jobs).order ∨ (evictOldest limit order jobs).order.length = limit := by
  rcases Nat.lt_or_ge order.length limit with hshort | hlong
  · cases order with
    | nil => exact absurd hid not_mem_nil
    | cons first order =>
      rw [length_cons] at hshort
      rw [evictOldest, if_neg (by omega)]
      exact .inl hid
  · exact .inr (length_evictOldest_of_le hlong jobs)

section
variable (h : retained.Consistent)
include h

theorem Consistent.countP_order (counted : IssuedJob P → Bool) :
    (retained.order.countP fun id => (retained.jobs.get id).any counted) = retained.jobs.countValues counted := by
  have hperm : retained.order.Perm retained.jobs.keys :=
    (perm_ext_iff_of_nodup h.nodup retained.jobs.nodup).mpr h.mem_order
  rw [hperm.countP_eq, KeyMap.keys, countP_map, KeyMap.countValues_eq]
  refine countP_congr fun entry hentry => ?_
  rw [Function.comp_apply, KeyMap.get_eq_some.mpr (show (entry.1, entry.2) ∈ _ from hentry), Option.any_some]

/-- What a cap leaves of the jobs it finds: a consistent graveyard within both bounds. -/
structure Capped (before : List (IssuedJob P)) (kind : JobKind) (config : StratumConfig)
    (publishedTip : Option String) (after : RetainedJobs P) : Prop where
  consistent : after.Consistent
  values : after.jobs.values.Sublist before
  sameTip : after.sameTip kind publishedTip ≤ config.maxJobsPerConnection.val
  length : after.order.length ≤ 3 * config.maxJobsPerConnection.val

theorem Consistent.cap (kind : JobKind) (config : StratumConfig) (publishedTip : Option String) :
    Capped retained.jobs.values kind config publishedTip (retained.cap kind config publishedTip) := by
  have hcapped : retained.Evicts (evictCapped config.maxJobsPerConnection.val (capped kind publishedTip)
    retained.order (retained.sameTip kind publishedTip) retained.jobs) := evictCapped_evicts h.nodup _ _
  have hcount := @countValues_evictCapped _ _ config.maxJobsPerConnection.val (capped kind publishedTip) h.nodup
    (retained.sameTip kind publishedTip) retained.jobs
  rw [h.countP_order] at hcount
  unfold RetainedJobs.cap
  dsimp only
  generalize evictCapped config.maxJobsPerConnection.val (capped kind publishedTip) retained.order
    (retained.sameTip kind publishedTip) retained.jobs = middle at hcapped hcount ⊢
  have hmiddle := h.evicts hcapped
  have holdest : middle.Evicts (evictOldest (min (config.maxJobsPerConnection.val * 3) (2 ^ 64 - 1)) middle.order
    middle.jobs) := evictOldest_evicts hmiddle.nodup _
  refine ⟨hmiddle.evicts holdest, holdest.values.trans hcapped.values, ?_, ?_⟩
  · refine (countValues_evictOldest _ _ _ _).trans ?_
    unfold sameTip at hcount
    omega
  · refine (length_evictOldest _ _ _).trans ?_
    omega

/-- A cap of one kind keeps a job of the other, unless the hard bound leaves the graveyard full. -/
def Spares (config : StratumConfig) (id : String) (after : RetainedJobs P) : Prop :=
  id ∈ after.order ∨ after.order.length = min (config.maxJobsPerConnection.val * 3) (2 ^ 64 - 1)

theorem Consistent.cap_spares {kind : JobKind} (config : StratumConfig) (publishedTip : Option String)
    (hjob : (id, job) ∈ retained.jobs.entries) (hkind : job.wire.kind ≠ kind) :
    (retained.cap kind config publishedTip).Spares config id := by
  have hid : id ∈ retained.order := (h.mem_order id).mpr (KeyMap.mem_keys.mpr ⟨job, hjob⟩)
  have hother : (retained.jobs.get id).any (capped kind publishedTip) = false := by
    rw [KeyMap.get_eq_some.mpr hjob, Option.any_some, capped, decide_eq_false hkind, Bool.false_and]
  exact mem_evictOldest _ (mem_evictCapped h.nodup hid _ _ hother) _

theorem Consistent.retired (replacement : WireJob) :
    Consistent { retained with jobs := retained.jobs.mapValues (retireIfSuperseded replacement) } := by
  refine ⟨h.nodup, fun id => ?_, fun id job hjob => ?_⟩
  · rw [h.mem_order id, KeyMap.keys_mapValues]
  · obtain ⟨prior, hprior, rfl⟩ := KeyMap.mem_entries_mapValues.mp hjob
    rw [jobId_retireIfSuperseded]
    exact h.named id prior hprior

theorem Consistent.retireSuperseded (replacement : WireJob) (config : StratumConfig) (publishedTip : Option String) :
    Capped (retained.jobs.values.map (retireIfSuperseded replacement)) .blockOnly config publishedTip
      (retained.retireSuperseded replacement config publishedTip) := by
  rw [← KeyMap.values_mapValues]
  exact (h.retired replacement).cap _ _ _

theorem Consistent.retireSuperseded_spares (config : StratumConfig) (publishedTip : Option String)
    (hjob : (id, job) ∈ retained.jobs.entries) (hkind : job.wire.kind ≠ .blockOnly)
    (hkept : supersedes replacement job.wire = false) :
    (retained.retireSuperseded replacement config publishedTip).Spares config id := by
  refine (h.retired replacement).cap_spares config publishedTip ?_ hkind
  refine KeyMap.mem_entries_mapValues.mpr ⟨job, hjob, ?_⟩
  rw [retireIfSuperseded, hkept, if_neg Bool.false_ne_true]

theorem Consistent.buried (job : IssuedJob P) (now : ℕ) :
    Consistent ⟨retained.jobs.insert job.wire.jobId { job with retiredAt := some now },
      retained.order.filter (· ≠ job.wire.jobId) ++ [job.wire.jobId]⟩ := by
  refine ⟨?_, fun id => ?_, fun id other hother => ?_⟩
  · rw [nodup_append_comm, singleton_append, nodup_cons]
    exact ⟨by simp, h.nodup.filter _⟩
  · simp only [mem_append, mem_filter, mem_singleton, decide_eq_true_eq, h.mem_order,
      KeyMap.mem_keys, KeyMap.mem_entries_insert]
    by_cases hid : id = job.wire.jobId <;> simp [hid]
  · obtain ⟨rfl, rfl⟩ | ⟨hother, -⟩ := KeyMap.mem_entries_insert.mp hother
    · rfl
    · exact h.named id other hother

theorem Consistent.bury (job : IssuedJob P) (config : StratumConfig) (publishedTip : Option String) (now : ℕ) :
    Capped ({ job with retiredAt := some now } :: (retained.jobs.erase job.wire.jobId).values) job.wire.kind config
      publishedTip (retained.bury job config publishedTip now) :=
  (h.buried job now).cap _ _ _

theorem Consistent.bury_spares {buried : IssuedJob P} (config : StratumConfig) (publishedTip : Option String)
    (now : ℕ) (hjob : (id, job) ∈ retained.jobs.entries) (hkind : job.wire.kind ≠ buried.wire.kind)
    (hne : id ≠ buried.wire.jobId) : (retained.bury buried config publishedTip now).Spares config id :=
  (h.buried buried now).cap_spares config publishedTip (KeyMap.mem_entries_insert.mpr (.inr ⟨hjob, hne⟩)) hkind

theorem Consistent.prune (config : StratumConfig) (tip : Option RetentionTip)
    (grace : StaleGrace) (now : ℕ) : (retained.prune config tip grace now).Consistent where
  nodup := h.nodup.filter _
  mem_order id := by
    unfold RetainedJobs.prune
    simp only [mem_filter, Option.isSome_iff_exists, KeyMap.get_eq_some, KeyMap.mem_keys, h.mem_order,
      and_iff_right_iff_imp]
    rintro ⟨job, hjob⟩
    exact ⟨job, (KeyMap.mem_entries_retain.mp hjob).1⟩
  named id job hjob := h.named id job (KeyMap.mem_entries_retain.mp hjob).1

end

end RetainedJobs

/-- The later job is the earlier one: block-only work stays so, and holds no permit if it held none. -/
structure IssuedJob.Ages (prior job : IssuedJob P) : Prop where
  jobId : job.wire.jobId = prior.wire.jobId
  blockOnly : prior.wire.kind = .blockOnly → job.wire.kind = .blockOnly
  permit : (prior.wire.kind = .blockOnly → prior.authorizationPermit = none) →
    job.wire.kind = .blockOnly → job.authorizationPermit = none

theorem IssuedJob.Ages.refl (job : IssuedJob P) : job.Ages job := ⟨rfl, id, id⟩

theorem IssuedJob.Ages.trans {first second third : IssuedJob P} (h : first.Ages second) (h' : second.Ages third) :
    first.Ages third :=
  ⟨h'.jobId.trans h.jobId, h'.blockOnly ∘ h.blockOnly, fun hfirst => h'.permit (h.permit hfirst)⟩

theorem IssuedJob.ages_retiredAt (job : IssuedJob P) (retiredAt : Option ℕ) : job.Ages { job with retiredAt } :=
  ⟨rfl, id, id⟩

theorem ages_retireToBlockOnly (job : IssuedJob P) : job.Ages (retireToBlockOnly job) :=
  ⟨rfl, fun _ => rfl, fun _ _ => rfl⟩

theorem ages_retireIfSuperseded (replacement : WireJob) (job : IssuedJob P) :
    job.Ages (retireIfSuperseded replacement job) := by
  unfold retireIfSuperseded
  split_ifs
  · exact ages_retireToBlockOnly job
  · exact .refl job

def jobIds (jobs : List (IssuedJob P)) : List String := jobs.map (·.wire.jobId)

/-- Every later job is an earlier one aged, and none is held twice that was not. -/
structure Descends (before after : List (IssuedJob P)) : Prop where
  ids : (jobIds after).Subperm (jobIds before)
  ages : ∀ job ∈ after, ∃ prior ∈ before, prior.Ages job

namespace Descends
variable {first second third others : List (IssuedJob P)}

theorem of_subperm (h : second.Subperm first) : Descends first second where
  ids := by
    obtain ⟨jobs, hperm, hsublist⟩ := h
    exact ⟨jobIds jobs, hperm.map _, hsublist.map _⟩
  ages job hjob := ⟨job, h.subset hjob, .refl job⟩

theorem trans (h : Descends first second) (h' : Descends second third) : Descends first third where
  ids := h'.ids.trans h.ids
  ages job hjob := by
    obtain ⟨prior, hprior, hage⟩ := h'.ages job hjob
    obtain ⟨source, hsource, hage'⟩ := h.ages prior hprior
    exact ⟨source, hsource, hage'.trans hage⟩

theorem map {f : IssuedJob P → IssuedJob P} (h : ∀ job : IssuedJob P, job.Ages (f job)) (jobs : List (IssuedJob P)) :
    Descends jobs (jobs.map f) where
  ids := by
    have hsame : jobIds (jobs.map f) = jobIds jobs := by
      unfold jobIds
      rw [map_map]
      exact map_congr_left fun job _ => (h job).jobId
    rw [hsame]
  ages job hjob := by
    obtain ⟨prior, hprior, rfl⟩ := mem_map.mp hjob
    exact ⟨prior, hprior, h prior⟩

theorem append (h : Descends first second) (h' : Descends third others) :
    Descends (first ++ third) (second ++ others) where
  ids := by
    unfold jobIds
    rw [map_append, map_append]
    exact h.ids.append h'.ids
  ages job hjob := by
    rcases mem_append.mp hjob with hjob | hjob
    · obtain ⟨prior, hprior, hage⟩ := h.ages job hjob
      exact ⟨prior, mem_append_left _ hprior, hage⟩
    · obtain ⟨prior, hprior, hage⟩ := h'.ages job hjob
      exact ⟨prior, mem_append_right _ hprior, hage⟩

theorem nodup (h : Descends first second) (hnodup : (jobIds first).Nodup) : (jobIds second).Nodup := by
  obtain ⟨ids, hperm, hsublist⟩ := h.ids
  exact hperm.nodup_iff.mp (hnodup.sublist hsublist)

theorem refl (jobs : List (IssuedJob P)) : Descends jobs jobs := .of_subperm (.refl jobs)

theorem singleton (h : prior.Ages job) : Descends [prior] [job] where
  ids := by rw [jobIds, jobIds, map_singleton, map_singleton, h.jobId]
  ages := by simpa using h

end Descends

/-- A consistent graveyard within its whole bound. -/
structure RetainedJobs.Bounded (config : StratumConfig) (retained : RetainedJobs P) : Prop where
  consistent : retained.Consistent
  length : retained.order.length ≤ 3 * config.maxJobsPerConnection.val

theorem RetainedJobs.Capped.bounded {before : List (IssuedJob P)} {kind : JobKind} {config : StratumConfig}
    {publishedTip : Option String} {after : RetainedJobs P} (h : Capped before kind config publishedTip after) :
    after.Bounded config :=
  ⟨h.consistent, h.length⟩

/-- The graveyard right after a burial or retirement of work of one kind. -/
structure Burial (P : Type) where
  kind : JobKind
  publishedTip : Option String
  retained : RetainedJobs P

def Burial.WithinCap (config : StratumConfig) (burial : Burial P) : Prop :=
  burial.retained.sameTip burial.kind burial.publishedTip ≤ config.maxJobsPerConnection.val

namespace Session
variable {retained : RetainedJobs P} (config : StratumConfig) (publishedTip : Option String) (now : ℕ)

def all (session : Session P) : List (IssuedJob P) := session.jobs ++ session.retained.jobs.values

theorem bury_descends (h : retained.Consistent) (job : IssuedJob P) :
    Descends (job :: retained.jobs.values) (retained.bury job config publishedTip now).jobs.values := by
  have hage : Descends [job] [{ job with retiredAt := some now }] := .singleton (job.ages_retiredAt (some now))
  have hkept : Descends retained.jobs.values (retained.jobs.erase job.wire.jobId).values :=
    .of_subperm (retained.jobs.values_retain_sublist _).subperm
  exact (hage.append hkept).trans (.of_subperm (h.bury job config publishedTip now).values.subperm)

variable {aged : IssuedJob P}

theorem bury_live_descends (h : retained.Consistent) (hage : job.Ages aged) (jobs : List (IssuedJob P)) :
    Descends (job :: jobs ++ retained.jobs.values)
      (jobs ++ (retained.bury aged config publishedTip now).jobs.values) := by
  have haged := (Descends.singleton hage).append (.refl retained.jobs.values)
  have hburied := haged.trans (bury_descends config publishedTip now h aged)
  exact (Descends.of_subperm perm_middle.subperm).trans ((Descends.refl jobs).append hburied)

/-- The burials of `buryUntilRoom`, in turn. -/
def burialsUntilRoom : List (IssuedJob P) → RetainedJobs P → List (Burial P)
  | [], _ => []
  | job :: jobs, retained =>
    if config.maxJobsPerConnection.val ≤ jobs.length + 1 then
      let buried := retained.bury job config publishedTip now
      ⟨job.wire.kind, publishedTip, buried⟩ :: burialsUntilRoom jobs buried
    else []

/-- The burials of `burySuperseded`, in turn. -/
def burialsOfSuperseded (replacement : WireJob) : List (IssuedJob P) → RetainedJobs P → List (Burial P)
  | [], _ => []
  | prior :: jobs, retained =>
    if supersedes replacement prior.wire then
      let buried := retained.bury (retireToBlockOnly prior) config publishedTip now
      ⟨.blockOnly, publishedTip, buried⟩ :: burialsOfSuperseded replacement jobs buried
    else burialsOfSuperseded replacement jobs retained

/-- What burying live jobs over a graveyard comes to. -/
structure Buries (jobs : List (IssuedJob P)) (retained : RetainedJobs P) (burials : List (Burial P))
    (after : Session P) : Prop where
  bounded : after.retained.Bounded config
  descends : Descends (jobs ++ retained.jobs.values) after.all
  capped : ∀ burial ∈ burials, burial.WithinCap config

variable {config publishedTip now} {jobs : List (IssuedJob P)} {burials : List (Burial P)} {after : Session P}

theorem Buries.bury (hbounded : retained.Bounded config) (hage : job.Ages aged)
    (h : (retained.bury aged config publishedTip now).Bounded config → Buries config jobs (retained.bury aged config publishedTip now) burials after) :
    Buries config (job :: jobs) retained
      (⟨aged.wire.kind, publishedTip, retained.bury aged config publishedTip now⟩ :: burials) after := by
  have hcapped := hbounded.consistent.bury aged config publishedTip now
  have hafter := h hcapped.bounded
  refine ⟨hafter.bounded, ?_, forall_mem_cons.mpr ⟨hcapped.sameTip, hafter.capped⟩⟩
  exact (bury_live_descends config publishedTip now hbounded.consistent hage jobs).trans hafter.descends

theorem Buries.keep (hbounded : retained.Bounded config) (jobs : List (IssuedJob P)) :
    Buries config jobs retained [] ⟨jobs, retained⟩ :=
  ⟨hbounded, .refl _, by simp⟩

theorem buryUntilRoom_buries (h : retained.Bounded config) (jobs : List (IssuedJob P)) :
    Buries config jobs retained (burialsUntilRoom config publishedTip now jobs retained)
      (buryUntilRoom config publishedTip now jobs retained) := by
  induction jobs generalizing retained with
  | nil => exact .keep h []
  | cons job jobs ih =>
    unfold burialsUntilRoom buryUntilRoom
    split_ifs
    · exact .bury h (.refl job) fun hburied => ih hburied
    · exact .keep h _

theorem burySuperseded_buries (h : retained.Bounded config) (jobs : List (IssuedJob P)) :
    Buries config jobs retained (burialsOfSuperseded config publishedTip now replacement jobs retained)
      (burySuperseded replacement config publishedTip now jobs retained) := by
  induction jobs generalizing retained with
  | nil => exact .keep h []
  | cons prior jobs ih =>
    unfold burialsOfSuperseded burySuperseded
    split_ifs
    · exact .bury h (ages_retireToBlockOnly prior) fun hburied => ih hburied
    · have hothers := ih h
      exact ⟨hothers.bounded, (Descends.refl [prior]).append hothers.descends, hothers.capped⟩

/-- Each burial with the graveyard it found. -/
def changes (retained : RetainedJobs P) (burials : List (Burial P)) : List (RetainedJobs P × Burial P) :=
  (retained :: burials.map (·.retained)).zip burials

/-- The jobs of the other kind stay. -/
def SparesOthers (config : StratumConfig) (change : RetainedJobs P × Burial P) : Prop :=
  ∀ id job, (id, job) ∈ change.1.jobs.entries → job.wire.kind ≠ change.2.kind → change.2.retained.Spares config id

theorem changes_bury (h : retained.Consistent) (hage : job.Ages aged)
    (hfresh : (jobIds (job :: jobs ++ retained.jobs.values)).Nodup)
    (hrest : (retained.bury aged config publishedTip now).Consistent → (jobIds (jobs ++ (retained.bury aged config publishedTip now).jobs.values)).Nodup → ∀ change ∈ changes (retained.bury aged config publishedTip now) burials, SparesOthers config change) :
    ∀ change ∈ changes retained (⟨aged.wire.kind, publishedTip, retained.bury aged config publishedTip now⟩ :: burials),
      SparesOthers config change := by
  have hburied := bury_live_descends config publishedTip now h hage jobs
  refine forall_mem_cons.mpr ⟨?_, hrest (h.bury aged config publishedTip now).consistent (hburied.nodup hfresh)⟩
  intro id other hother hkind
  refine h.bury_spares config publishedTip now hother hkind ?_
  -- the buried job was live, so no retained job bears its ID
  rintro rfl
  refine (nodup_cons.mp hfresh).1 (mem_map.mpr ⟨other, ?_, ?_⟩)
  · exact mem_append_right _ (mem_map.mpr ⟨_, hother, rfl⟩)
  · rw [h.named _ _ hother, hage.jobId]

theorem changes_untilRoom (h : retained.Consistent) (jobs : List (IssuedJob P))
    (hfresh : (jobIds (jobs ++ retained.jobs.values)).Nodup) :
    ∀ change ∈ changes retained (burialsUntilRoom config publishedTip now jobs retained),
      SparesOthers config change := by
  induction jobs generalizing retained with
  | nil => simp [changes, burialsUntilRoom]
  | cons job jobs ih =>
    unfold burialsUntilRoom
    split_ifs
    · exact changes_bury h (.refl job) hfresh ih
    · simp [changes]

theorem changes_ofSuperseded (h : retained.Consistent) (jobs : List (IssuedJob P))
    (hfresh : (jobIds (jobs ++ retained.jobs.values)).Nodup) :
    ∀ change ∈ changes retained (burialsOfSuperseded config publishedTip now replacement jobs retained),
      SparesOthers config change := by
  induction jobs generalizing retained with
  | nil => simp [changes, burialsOfSuperseded]
  | cons prior jobs ih =>
    unfold burialsOfSuperseded
    split_ifs
    · exact changes_bury h (ages_retireToBlockOnly prior) hfresh ih
    · exact ih h (nodup_cons.mp hfresh).2

end Session

inductive SessionOp (P : Type) where
  | deliver (job : IssuedJob P) (now : ℕ)
  | makeJobRoom (tip : Option RetentionTip) (now : ℕ)
  | burySupersededSameParent (replacement : WireJob) (tip : Option RetentionTip) (now : ℕ)
  | pruneJobs (tip : Option RetentionTip) (grace : StaleGrace) (now : ℕ)

namespace SessionOp

def apply (config : StratumConfig) (session : Session P) : SessionOp P → Session P
  | deliver job now => session.deliver job now
  | makeJobRoom tip now => session.makeJobRoom config tip now
  | burySupersededSameParent replacement tip now => session.burySupersededSameParent replacement config tip now
  | pruneJobs tip grace now => session.pruneJobs config tip grace now

def delivered : SessionOp P → Option (IssuedJob P)
  | deliver job _ => some job
  | _ => none

def supersedes : SessionOp P → WireJob → Bool
  | burySupersededSameParent replacement _ _, prior => QbitPrism.supersedes replacement prior
  | _, _ => false

def burials (config : StratumConfig) (session : Session P) : SessionOp P → List (Burial P)
  | makeJobRoom tip now => Session.burialsUntilRoom config (tip.map (·.hash)) now session.jobs session.retained
  | burySupersededSameParent replacement tip now =>
    let publishedTip := tip.map (·.hash)
    let retired := session.retained.retireSuperseded replacement config publishedTip
    ⟨.blockOnly, publishedTip, retired⟩ ::
      Session.burialsOfSuperseded config publishedTip now replacement session.jobs retired
  | _ => []

variable {config : StratumConfig} {session : Session P}

structure Keeps (config : StratumConfig) (session : Session P) (op : SessionOp P) : Prop where
  bounded : (op.apply config session).retained.Bounded config
  descends : Descends (op.delivered.toList ++ session.all) (op.apply config session).all
  capped : ∀ burial ∈ op.burials config session, burial.WithinCap config

section
variable (h : session.retained.Bounded config)
include h

theorem keeps_deliver (job : IssuedJob P) (now : ℕ) :
    (deliver job now).Keeps config session where
  bounded := h
  descends := by
    have haged := Descends.map (fun prior : IssuedJob P => prior.ages_retiredAt (prior.retiredAt.or (some now)))
      session.jobs
    have hlive := (haged.append (.refl [job])).append (.refl session.retained.jobs.values)
    refine .trans (.of_subperm (List.Perm.subperm ?_)) hlive
    exact (perm_append_singleton job session.jobs).append_right _
  capped := by simp [burials]

theorem keeps_makeJobRoom (tip : Option RetentionTip) (now : ℕ) :
    (makeJobRoom tip now).Keeps config session := by
  obtain ⟨hbounded, hdescends, hcapped⟩ := Session.buryUntilRoom_buries h session.jobs
  exact ⟨hbounded, hdescends, hcapped⟩

theorem keeps_burySupersededSameParent (replacement : WireJob) (tip : Option RetentionTip) (now : ℕ) :
    (burySupersededSameParent replacement tip now).Keeps config session := by
  have hretired := h.consistent.retireSuperseded replacement config (tip.map (·.hash))
  have hburies := @Session.burySuperseded_buries _ replacement _ _ (tip.map (·.hash)) now hretired.bounded session.jobs
  refine ⟨hburies.bounded, ?_, forall_mem_cons.mpr ⟨hretired.sameTip, hburies.capped⟩⟩
  have haged := Descends.map (ages_retireIfSuperseded replacement) session.retained.jobs.values
  have hkept := haged.trans (.of_subperm hretired.values.subperm)
  exact ((Descends.refl session.jobs).append hkept).trans hburies.descends

theorem keeps_pruneJobs (tip : Option RetentionTip) (grace : StaleGrace)
    (now : ℕ) : (pruneJobs tip grace now).Keeps config session where
  bounded := ⟨h.consistent.prune config tip grace now, (length_filter_le _ _).trans h.length⟩
  descends := .of_subperm (filter_sublist.append (KeyMap.values_retain_sublist _ _)).subperm
  capped := by simp [burials]

theorem keeps (op : SessionOp P) : op.Keeps config session := by
  cases op with
  | deliver job now => exact keeps_deliver h job now
  | makeJobRoom tip now => exact keeps_makeJobRoom h tip now
  | burySupersededSameParent replacement tip now => exact keeps_burySupersededSameParent h replacement tip now
  | pruneJobs tip grace now => exact keeps_pruneJobs h tip grace now

end

end SessionOp

namespace Session
variable {config : StratumConfig} {session : Session P} {ops : List (SessionOp P)}

def deliveries (ops : List (SessionOp P)) : List (IssuedJob P) := ops.filterMap SessionOp.delivered

theorem run_bounded (h : session.retained.Bounded config) (ops : List (SessionOp P)) :
    (Replay.run (SessionOp.apply config) session ops).retained.Bounded config :=
  @Replay.run_keeps _ _ _ _ (fun session : Session P => session.retained.Bounded config)
    (fun _ op hsession => (op.keeps hsession).bounded) h ops

theorem run_descends (h : session.retained.Bounded config) (ops : List (SessionOp P)) :
    Descends (deliveries ops ++ session.all) (Replay.run (SessionOp.apply config) session ops).all := by
  induction ops generalizing session with
  | nil => exact .refl _
  | cons op ops ih =>
    have hop := op.keeps h
    refine .trans ?_ (ih hop.bounded)
    refine .trans (.of_subperm (List.Perm.subperm ?_)) ((Descends.refl (deliveries ops)).append hop.descends)
    unfold deliveries
    cases hdelivered : op.delivered with
    | none => rw [filterMap_cons_none hdelivered, Option.toList_none, nil_append]
    | some job =>
      rw [filterMap_cons_some hdelivered, Option.toList_some, singleton_append, cons_append]
      exact perm_middle

theorem empty_bounded : (empty : Session P).retained.Bounded config where
  consistent := ⟨nodup_nil, by simp [empty, RetainedJobs.empty, KeyMap.empty, KeyMap.keys],
    by simp [empty, RetainedJobs.empty, KeyMap.empty]⟩
  length := Nat.zero_le _

theorem run_blockOnly (h : session.retained.Bounded config) (ops : List (SessionOp P))
    (hfresh : (jobIds (deliveries ops ++ session.all)).Nodup) (hprior : prior ∈ session.all)
    (hkind : prior.wire.kind = .blockOnly) (hjob : job ∈ (Replay.run (SessionOp.apply config) session ops).all)
    (hid : job.wire.jobId = prior.wire.jobId) : job.wire.kind = .blockOnly := by
  obtain ⟨source, hsource, hage⟩ := (run_descends h ops).ages job hjob
  -- one ID names one job, so the job is the prior one aged
  have hsame : source = prior :=
    inj_on_of_nodup_map hfresh hsource (mem_append_right _ hprior) (hage.jobId.symm.trans hid)
  exact hage.blockOnly (hsame ▸ hkind)

/-- From an empty session, over deliveries of credit work under fresh IDs, room making, same-parent
replacements and pruning: the burial order lists exactly the retained jobs, each once and at most three
times the capacity in all; block-only work holds no permit and never becomes credit work again; and
every burial or retirement leaves at most the capacity of its kind on the published tip. -/
theorem run_graveyard (config : StratumConfig) (ops : List (SessionOp P))
    (hcredit : ∀ job ∈ deliveries ops, job.wire.kind = .credit) (hfresh : (jobIds (deliveries ops)).Nodup) :
    let session := Replay.run (SessionOp.apply config) empty ops
    let retained := session.retained
    (retained.order.Nodup ∧ ∀ id, id ∈ retained.order ↔ id ∈ retained.jobs.keys) ∧
      retained.order.length ≤ 3 * config.maxJobsPerConnection.val ∧
      (∀ job ∈ session.all, job.wire.kind = .blockOnly → job.authorizationPermit = none) ∧
      (∀ earlier later, ops = earlier ++ later →
        ∀ prior ∈ (Replay.run (SessionOp.apply config) empty earlier).all, prior.wire.kind = .blockOnly →
          ∀ job ∈ session.all, job.wire.jobId = prior.wire.jobId → job.wire.kind = .blockOnly) ∧
      ∀ earlier op later, ops = earlier ++ op :: later →
        ∀ burial ∈ op.burials config (Replay.run (SessionOp.apply config) empty earlier),
          burial.retained.sameTip burial.kind burial.publishedTip ≤ config.maxJobsPerConnection.val := by
  intro session retained
  have hbounded : retained.Bounded config := run_bounded empty_bounded ops
  refine ⟨⟨hbounded.consistent.nodup, hbounded.consistent.mem_order⟩, hbounded.length, ?_, ?_, ?_⟩
  · intro job hjob
    obtain ⟨source, hsource, hage⟩ := (run_descends empty_bounded ops).ages job hjob
    refine hage.permit fun hkind => ?_
    rw [show (empty : Session P).all = [] from rfl, append_nil] at hsource
    rw [hcredit source hsource] at hkind
    cases hkind
  · rintro earlier later rfl prior hprior hkind job hjob hid
    have hsession : session = Replay.run (SessionOp.apply config) (Replay.run _ empty earlier) later :=
      Replay.run_append
    rw [hsession] at hjob
    refine run_blockOnly (run_bounded empty_bounded earlier) later ?_ hprior hkind hjob hid
    refine ((Descends.refl (deliveries later)).append (run_descends empty_bounded earlier)).nodup ?_
    have hall : jobIds (deliveries (earlier ++ later)) = jobIds (deliveries earlier) ++ jobIds (deliveries later) := by
      simp [jobIds, deliveries]
    rw [hall] at hfresh
    rw [show (empty : Session P).all = [] from rfl, append_nil, jobIds, map_append]
    exact nodup_append_comm.mp hfresh
  · rintro earlier op later -
    exact (op.keeps (run_bounded empty_bounded earlier)).capped

end Session
end Graveyard

def sampleStratumConfig : StratumConfig where
  maxJobsPerConnection := ⟨1, by decide⟩
  maxJobs_pos := by decide
  withinJobRetention _ := true
  withinJobRetentionOrGrace _ := true

def sampleIssuedJob (jobId : String) (payoutRevision : I64) : IssuedJob ℕ where
  wire := ⟨jobId, "parent", payoutRevision, .credit, none⟩
  authorizationPermit := some 7
  retiredAt := none

/-- Two jobs of one revision and their replacement, which retires both. -/
def sampleSessionOps : List (SessionOp ℕ) :=
  let tip : RetentionTip := ⟨"parent", none, false⟩
  let replacement := sampleIssuedJob "third" ⟨1, by decide, by decide⟩
  [.deliver (sampleIssuedJob "first" ⟨0, by decide, by decide⟩) 0, .makeJobRoom (some tip) 1,
    .deliver (sampleIssuedJob "second" ⟨0, by decide, by decide⟩) 1, .burySupersededSameParent replacement.wire (some tip) 2,
    .makeJobRoom (some tip) 2, .deliver replacement 2, .pruneJobs none ⟨0, none, 3⟩ 3]

theorem run_graveyard_replaced :
    let session := Replay.run (SessionOp.apply sampleStratumConfig) Session.empty sampleSessionOps
    session.retained.order = ["second"] ∧
      session.all.map (·.wire.kind) = [.credit, .blockOnly] ∧
      session.retained.order.length ≤ 3 * 1 ∧
      (∀ job ∈ session.all, job.wire.kind = .blockOnly → job.authorizationPermit = none) := by
  have hsession := Session.run_graveyard sampleStratumConfig sampleSessionOps (by decide +kernel) (by decide +kernel)
  exact ⟨by decide +kernel, by decide +kernel, hsession.2.1, hsession.2.2.1⟩

def sampleJobOn (parent jobId : String) (payoutRevision : I64) : IssuedJob ℕ :=
  let job := sampleIssuedJob jobId payoutRevision
  { job with wire := { job.wire with previousblockhash := parent } }

/-- A delivery while its own parent is the published tip. -/
def sampleDelivery (parent jobId : String) (payoutRevision : I64) (now : ℕ) : List (SessionOp ℕ) :=
  let job := sampleJobOn parent jobId payoutRevision
  let tip : Option RetentionTip := some ⟨parent, none, true⟩
  [.burySupersededSameParent job.wire tip now, .makeJobRoom tip now, .deliver job now]

/-- Deliveries on three tips. The room made for the last one buries credit work, and the job retired
to block-only on the first tip is the oldest of the four. -/
def sampleCreditBurial : List (SessionOp ℕ) × SessionOp ℕ :=
  (sampleDelivery "A" "a1" ⟨0, by decide, by decide⟩ 0 ++ sampleDelivery "A" "a2" ⟨1, by decide, by decide⟩ 1 ++
    sampleDelivery "A" "a3" ⟨1, by decide, by decide⟩ 2 ++ sampleDelivery "B" "b1" ⟨1, by decide, by decide⟩ 3 ++
    [.burySupersededSameParent (sampleJobOn "B" "b2" ⟨1, by decide, by decide⟩).wire (some ⟨"B", none, true⟩) 4],
    .makeJobRoom (some ⟨"B", none, true⟩) 4)

/-- Deliveries on three tips, the last of which supersedes the live job: its burial as block-only work
removes the oldest credit job. -/
def sampleBlockOnlyBurial : List (SessionOp ℕ) × SessionOp ℕ :=
  (sampleDelivery "A" "a1" ⟨0, by decide, by decide⟩ 0 ++ sampleDelivery "A" "a2" ⟨0, by decide, by decide⟩ 1 ++
    sampleDelivery "C" "c1" ⟨0, by decide, by decide⟩ 2 ++ sampleDelivery "B" "b1" ⟨0, by decide, by decide⟩ 3,
    .burySupersededSameParent (sampleJobOn "B" "b2" ⟨1, by decide, by decide⟩).wire (some ⟨"B", none, true⟩) 4)

/-- The last change of a run. -/
def sampleChange (run : List (SessionOp ℕ) × SessionOp ℕ) : Option (RetainedJobs ℕ × Burial ℕ) :=
  let session := Replay.run (SessionOp.apply sampleStratumConfig) Session.empty run.1
  (Session.changes session.retained (run.2.burials sampleStratumConfig session)).getLast?

/-- The kind buried, and the jobs removed with their kinds. -/
def sampleRemoved (change : RetainedJobs ℕ × Burial ℕ) : JobKind × List (String × JobKind) :=
  (change.2.kind, (change.1.jobs.entries.filter (·.1 ∉ change.2.retained.order)).map fun entry =>
    (entry.1, entry.2.wire.kind))

end QbitPrism
