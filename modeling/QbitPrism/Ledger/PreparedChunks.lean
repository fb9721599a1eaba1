import Mathlib
import QbitPrism.Lib.KeyMap
import QbitPrism.Lib.MachineInt

/-!
# Chunks of a prepared batch

A pulled batch of prepared jobs is applied in chunks, one transaction each, cut greedily by row count and
by JSON size. A blob that jobs share is charged once in each chunk that carries it.
-/
namespace QbitPrism
open MachineInt List

/-- A JSON document as the code reads it, and the length of its serialisation. -/
structure JsonReader (V : Type) where
  get : V → String → Option V
  asStr : V → Option String
  asI64 : V → Option I64
  asArray : V → Option (List V)
  jsonLen : V → ℕ

structure PreparedBatch (V : Type) where
  jobs : V
  templates : V
  balances : V
  highest : Option I64

structure PreparedChunk (V : Type) where
  jobs : List V
  templates : List V
  balances : List V
  highest : Option I64

def preparedChunkRows : ℕ := 1000

def preparedChunkBytes : ℕ := 2 * 2 ^ 20

variable {V : Type}

namespace JsonReader
variable (json : JsonReader V)

def text (value : V) (key : String) : Option String := (json.get value key).bind json.asStr

def items (value : V) : List V := (json.asArray value).getD []

def syncSeq (job : V) : Option I64 := (json.get job "sync_seq").bind json.asI64

/-- The documents that have a key, in their order. -/
def keyed (documents : V) (key : String) : List (String × V × ℕ) :=
  (json.items documents).filterMap fun document =>
    (json.text document key).map fun name => (name, document, json.jsonLen document)

/-- Each document by its key, the later of two with one key. -/
def blobsByKey (documents : V) (key : String) : KeyMap String (V × ℕ) :=
  (json.keyed documents key).foldl (fun blobs entry => blobs.insert entry.1 entry.2) .empty

/-- The key and size of the blob that a job names, when the batch carries it. -/
def namedBlob (job : V) (column : String) (blobs : KeyMap String (V × ℕ)) : Option (String × ℕ) :=
  (json.text job column).bind fun key => (blobs.get key).map fun blob => (key, blob.2)

end JsonReader

/-- The documents under the keys, in key order. -/
def blobDocuments (blobs : KeyMap String (V × ℕ)) (keys : Finset String) : List V :=
  (keys.sort (· ≤ ·)).filterMap fun key => (blobs.get key).map Prod.fst

/-- The blobs of one kind: the column that names them, and each by its key. -/
structure BlobColumn (V : Type) where
  column : String
  blobs : KeyMap String (V × ℕ)

/-- The jobs since the last cut, with the size counted and the blobs named so far. -/
structure OpenChunk (V : Type) where
  jobs : List V
  bytes : ℕ
  templates : Finset String
  balances : Finset String

namespace OpenChunk
variable (json : JsonReader V) (templates balances : BlobColumn V)

def empty : OpenChunk V := ⟨[], 0, ∅, ∅⟩

/-- What a named blob adds, which is nothing when the chunk names it already. -/
def blobSize (named : Finset String) (blob : Option (String × ℕ)) : ℕ :=
  ((blob.filter fun blob => blob.1 ∉ named).map Prod.snd).getD 0

def size (chunk : OpenChunk V) (job : V) : ℕ :=
  json.jsonLen job + blobSize chunk.templates (json.namedBlob job templates.column templates.blobs) +
    blobSize chunk.balances (json.namedBlob job balances.column balances.blobs)

def extend (named : Finset String) (blob : Option (String × ℕ)) : Finset String :=
  blob.elim named fun blob => insert blob.1 named

def take (chunk : OpenChunk V) (job : V) : OpenChunk V where
  jobs := chunk.jobs ++ [job]
  bytes := chunk.bytes + chunk.size json templates balances job
  templates := extend chunk.templates (json.namedBlob job templates.column templates.blobs)
  balances := extend chunk.balances (json.namedBlob job balances.column balances.blobs)

def close (chunk : OpenChunk V) (highest : Option I64) : PreparedChunk V where
  jobs := chunk.jobs
  templates := blobDocuments templates.blobs chunk.templates
  balances := blobDocuments balances.blobs chunk.balances
  highest

/-- The loop over the jobs left. -/
def chunks (highest : Option I64) : OpenChunk V → List V → List (PreparedChunk V)
  | chunk, [] => if 0 < chunk.jobs.length then [chunk.close templates balances highest] else []
  | chunk, job :: jobs =>
    if 0 < chunk.jobs.length ∧ (chunk.jobs.length = preparedChunkRows ∨
        preparedChunkBytes < chunk.bytes + chunk.size json templates balances job) then
      chunk.close templates balances (chunk.jobs.getLast?.bind json.syncSeq) ::
        chunks highest (empty.take json templates balances job) jobs
    else chunks highest (chunk.take json templates balances job) jobs

end OpenChunk

namespace PreparedBatch
variable (json : JsonReader V) (batch : PreparedBatch V)

def templateColumn : BlobColumn V := ⟨"template_sha256", json.blobsByKey batch.templates "template_sha256"⟩

def balanceColumn : BlobColumn V :=
  ⟨"window_prior_balances_sha256", json.blobsByKey batch.balances "prior_balances_digest"⟩

def chunks : List (PreparedChunk V) :=
  OpenChunk.chunks json (batch.templateColumn json) (batch.balanceColumn json) batch.highest .empty
    (json.items batch.jobs)

end PreparedBatch

namespace BlobColumn
variable (json : JsonReader V) (blobs : BlobColumn V)

/-- The distinct blobs that jobs name and the batch carries. -/
def named (jobs : List V) : Finset String :=
  (jobs.filterMap fun job => (json.namedBlob job blobs.column blobs.blobs).map Prod.fst).toFinset

/-- The size of those blobs, each counted once. -/
def bytes (jobs : List V) : ℕ := ∑ key ∈ blobs.named json jobs, ((blobs.blobs.get key).map Prod.snd).getD 0

variable {json blobs}

theorem named_append (jobs : List V) (job : V) :
    blobs.named json (jobs ++ [job]) =
      OpenChunk.extend (blobs.named json jobs) (json.namedBlob job blobs.column blobs.blobs) := by
  unfold named OpenChunk.extend
  rw [filterMap_append, toFinset_append]
  cases hblob : json.namedBlob job blobs.column blobs.blobs with
  | none => simp [hblob]
  | some blob => simp [hblob]

theorem bytes_append (jobs : List V) (job : V) :
    blobs.bytes json (jobs ++ [job]) = blobs.bytes json jobs +
      OpenChunk.blobSize (blobs.named json jobs) (json.namedBlob job blobs.column blobs.blobs) := by
  unfold bytes
  rw [named_append]
  cases hnamed : json.namedBlob job blobs.column blobs.blobs with
  | none => rfl
  | some blob =>
    simp only [JsonReader.namedBlob, Option.bind_eq_some_iff, Option.map_eq_some_iff] at hnamed
    obtain ⟨key, -, found, hget, rfl⟩ := hnamed
    rw [OpenChunk.extend, OpenChunk.blobSize, Option.filter_some, Option.elim_some]
    by_cases hold : key ∈ blobs.named json jobs
    · simp [hold]
    · simp [hold, hget, Nat.add_comm]

end BlobColumn

namespace JsonReader
variable {json : JsonReader V}

theorem mem_foldl_insert {entries : List (String × V × ℕ)} (hnodup : (entries.map Prod.fst).Nodup)
    (blobs : KeyMap String (V × ℕ)) {key : String} {blob : V × ℕ} :
    (key, blob) ∈ (entries.foldl (fun blobs entry => blobs.insert entry.1 entry.2) blobs).entries ↔
      (key, blob) ∈ entries ∨ (key, blob) ∈ blobs.entries ∧ key ∉ entries.map Prod.fst := by
  induction entries generalizing blobs with
  | nil => simp
  | cons entry entries ih =>
    obtain ⟨hnew, hrest⟩ := nodup_cons.mp hnodup
    rw [foldl_cons, ih hrest, KeyMap.mem_entries_insert, map_cons, mem_cons, mem_cons]
    by_cases hkey : key = entry.1
    · subst hkey
      simp [Prod.ext_iff, hnew, or_comm]
    · simp [hkey, Prod.ext_iff]

theorem get_blobsByKey {documents : V} {column key : String} {blob : V × ℕ}
    (hnodup : ((json.items documents).filterMap (json.text · column)).Nodup) :
    (json.blobsByKey documents column).get key = some blob ↔
      blob.1 ∈ json.items documents ∧ json.text blob.1 column = some key ∧ json.jsonLen blob.1 = blob.2 := by
  have hkeys : (json.keyed documents column).map Prod.fst = (json.items documents).filterMap (json.text · column) := by
    rw [keyed, map_filterMap]
    simp [Function.comp_def]
  rw [KeyMap.get_eq_some, blobsByKey, mem_foldl_insert (hkeys ▸ hnodup)]
  simp only [keyed, mem_filterMap, Option.map_eq_some_iff, Prod.mk.injEq, KeyMap.empty, not_mem_nil, false_and, or_false]
  constructor
  · rintro ⟨document, hdocument, name, hname, rfl, rfl⟩
    exact ⟨hdocument, hname, rfl⟩
  · rintro ⟨hdocument, hname, hlen⟩
    exact ⟨blob.1, hdocument, key, hname, rfl, Prod.ext rfl hlen⟩

end JsonReader

/-- A chunk carries exactly the documents that its jobs name, each once. -/
def PreparedChunk.Carries (json : JsonReader V) (documents : V) (key column : String) (jobs carried : List V) : Prop :=
  carried.Nodup ∧ ∀ document, document ∈ carried ↔ document ∈ json.items documents ∧
    ∃ name, json.text document key = some name ∧ ∃ job ∈ jobs, json.text job column = some name

theorem blobDocuments_carries {json : JsonReader V} {documents : V} {key column : String}
    (hnodup : ((json.items documents).filterMap (json.text · key)).Nodup) (jobs : List V) :
    PreparedChunk.Carries json documents key column jobs
      (blobDocuments (json.blobsByKey documents key)
        (BlobColumn.named json ⟨column, json.blobsByKey documents key⟩ jobs)) := by
  refine ⟨?_, fun document => ?_⟩
  · refine List.Nodup.filterMap ?_ (Finset.sort_nodup _ _)
    intro first second document hfirst hsecond
    obtain ⟨blob, hblob, rfl⟩ := Option.map_eq_some_iff.mp hfirst
    obtain ⟨other, hother, heq⟩ := Option.map_eq_some_iff.mp hsecond
    have hkey := ((JsonReader.get_blobsByKey hnodup).mp hblob).2.1
    have hkey' := ((JsonReader.get_blobsByKey hnodup).mp hother).2.1
    rw [heq, hkey] at hkey'
    exact Option.some.inj hkey'
  · simp only [blobDocuments, mem_filterMap, Finset.mem_sort, BlobColumn.named, mem_toFinset,
      JsonReader.namedBlob, Option.map_eq_some_iff, Option.bind_eq_some_iff]
    constructor
    · rintro ⟨name, ⟨job, hjob, _, ⟨_, htext, _, -, rfl⟩, rfl⟩, blob, hblob, rfl⟩
      obtain ⟨hmem, hname, -⟩ := (JsonReader.get_blobsByKey hnodup).mp hblob
      exact ⟨hmem, _, hname, job, hjob, htext⟩
    · rintro ⟨hmem, name, hname, job, hjob, htext⟩
      have hblob : (json.blobsByKey documents key).get name = some (document, json.jsonLen document) :=
        (JsonReader.get_blobsByKey hnodup).mpr ⟨hmem, hname, rfl⟩
      exact ⟨name, ⟨job, hjob, _, ⟨name, htext, _, hblob, rfl⟩, rfl⟩, _, hblob, rfl⟩

namespace OpenChunk
variable (json : JsonReader V) (templates balances : BlobColumn V)

/-- The JSON size of jobs and of the distinct carried blobs they name. -/
def jsonBytes (jobs : List V) : ℕ :=
  (jobs.map json.jsonLen).sum + templates.bytes json jobs + balances.bytes json jobs

/-- The accumulators describe the jobs taken, which are within both limits. -/
structure Counts (chunk : OpenChunk V) : Prop where
  bytes : chunk.bytes = jsonBytes json templates balances chunk.jobs
  templates : chunk.templates = templates.named json chunk.jobs
  balances : chunk.balances = balances.named json chunk.jobs
  rows : chunk.jobs.length ≤ preparedChunkRows
  fits : chunk.bytes ≤ preparedChunkBytes ∨ chunk.jobs.length ≤ 1

/-- What a finished chunk is, but for the blobs it carries. -/
structure Finished (chunk : PreparedChunk V) : Prop where
  ne_nil : chunk.jobs ≠ []
  rows : chunk.jobs.length ≤ preparedChunkRows
  fits : jsonBytes json templates balances chunk.jobs ≤ preparedChunkBytes ∨ chunk.jobs.length = 1
  templates : chunk.templates = blobDocuments templates.blobs (templates.named json chunk.jobs)
  balances : chunk.balances = blobDocuments balances.blobs (balances.named json chunk.jobs)
  highest : chunk.highest = chunk.jobs.getLast?.bind json.syncSeq

/-- The chunk could not have taken the first job of the next one. -/
def Full (chunk next : PreparedChunk V) : Prop :=
  ∀ job ∈ next.jobs.head?, chunk.jobs.length = preparedChunkRows ∨
    preparedChunkBytes < jsonBytes json templates balances (chunk.jobs ++ [job])

structure Partitions (jobs : List V) (chunks : List (PreparedChunk V)) : Prop where
  jobs : chunks.flatMap (·.jobs) = jobs
  finished : ∀ chunk ∈ chunks, Finished json templates balances chunk
  full : chunks.IsChain (Full json templates balances)

variable {json templates balances} {chunk : OpenChunk V}

theorem empty_counts : (empty : OpenChunk V).Counts json templates balances where
  bytes := rfl
  templates := rfl
  balances := rfl
  rows := Nat.zero_le _
  fits := .inr (Nat.zero_le _)

theorem Counts.bytes_take (h : chunk.Counts json templates balances) (job : V) :
    chunk.bytes + chunk.size json templates balances job =
      jsonBytes json templates balances (chunk.jobs ++ [job]) := by
  unfold jsonBytes size
  rw [BlobColumn.bytes_append, BlobColumn.bytes_append, h.bytes, h.templates, h.balances, jsonBytes, map_append,
    sum_append, map_singleton, sum_singleton]
  omega

theorem Counts.take (h : chunk.Counts json templates balances) {job : V}
    (hroom : chunk.jobs.length = 0 ∨ chunk.jobs.length ≠ preparedChunkRows ∧
      chunk.bytes + chunk.size json templates balances job ≤ preparedChunkBytes) :
    (chunk.take json templates balances job).Counts json templates balances where
  bytes := h.bytes_take job
  templates := by rw [OpenChunk.take, h.templates, BlobColumn.named_append]
  balances := by rw [OpenChunk.take, h.balances, BlobColumn.named_append]
  rows := by
    have hrows := h.rows
    simp only [OpenChunk.take, length_append, length_singleton, preparedChunkRows] at hroom hrows ⊢
    omega
  fits := by
    rcases hroom with hempty | ⟨-, hfits⟩
    · exact .inr (by simp [OpenChunk.take, hempty])
    · exact .inl hfits

theorem Counts.close (h : chunk.Counts json templates balances) (hjobs : 0 < chunk.jobs.length)
    {highest : Option I64} (hhighest : highest = chunk.jobs.getLast?.bind json.syncSeq) :
    Finished json templates balances (chunk.close templates balances highest) where
  ne_nil := ne_nil_of_length_pos hjobs
  rows := h.rows
  fits := h.bytes ▸ h.fits.imp_right fun hone => by
    change chunk.jobs.length = 1
    omega
  templates := by rw [OpenChunk.close, h.templates]
  balances := by rw [OpenChunk.close, h.balances]
  highest := hhighest

theorem chunks_partitions {highest : Option I64} (h : chunk.Counts json templates balances) (jobs : List V)
    (hhighest : highest = (chunk.jobs ++ jobs).getLast?.bind json.syncSeq) :
    Partitions json templates balances (chunk.jobs ++ jobs) (chunks json templates balances highest chunk jobs) := by
  induction jobs generalizing chunk with
  | nil =>
    rw [append_nil] at hhighest ⊢
    unfold chunks
    split_ifs with hjobs
    · exact ⟨append_nil _, by simpa using h.close hjobs hhighest, .singleton _⟩
    · exact ⟨(length_eq_zero_iff.mp (by omega)).symm, by simp, .nil⟩
  | cons job jobs ih =>
    unfold chunks
    split_ifs with hcut
    · have hnext := ih (@Counts.take _ _ _ _ _ empty_counts job (.inl rfl)) (by
        rw [hhighest, List.getLast?_append_of_ne_nil _ (cons_ne_nil job jobs)]
        rfl)
      refine ⟨?_, forall_mem_cons.mpr ⟨h.close hcut.1 rfl, hnext.finished⟩, ?_⟩
      · rw [flatMap_cons, hnext.jobs]
        rfl
      · refine isChain_cons.mpr ⟨?_, hnext.full⟩
        intro next hhead first hfirst
        -- the chunks after the cut start with the job that did not fit
        obtain ⟨rest, hrest⟩ := List.head?_eq_some_iff.mp hhead
        obtain ⟨others, hothers⟩ := List.head?_eq_some_iff.mp hfirst
        have hjobs := hnext.jobs
        rw [hrest, flatMap_cons, hothers, cons_append] at hjobs
        obtain rfl : first = job := (List.cons.inj hjobs).1
        rw [h.bytes_take] at hcut
        exact hcut.2
    · have hroom : chunk.jobs.length = 0 ∨ chunk.jobs.length ≠ preparedChunkRows ∧
          chunk.bytes + chunk.size json templates balances job ≤ preparedChunkBytes := by
        rcases Nat.eq_zero_or_pos chunk.jobs.length with hempty | hpos
        · exact .inl hempty
        · exact .inr ⟨fun hrows => hcut ⟨hpos, .inl hrows⟩, Nat.le_of_not_lt fun hbytes => hcut ⟨hpos, .inr hbytes⟩⟩
      have hnext := ih (h.take hroom) (by simpa [OpenChunk.take] using hhighest)
      simpa [OpenChunk.take] using hnext

end OpenChunk

/-- The chunks of a batch whose blob keys are distinct and whose `highest` is its last job's sequence
partition its jobs in order. Each has a job and is within both limits, of rows and, unless it is a single
job, of JSON; none could have taken the next job; each carries exactly the blobs its jobs name; and its
`highest` is its last job's sequence. -/
theorem PreparedBatch.chunks_exact (json : JsonReader V) (batch : PreparedBatch V)
    (hhighest : batch.highest = (json.items batch.jobs).getLast?.bind json.syncSeq)
    (htemplates : ((json.items batch.templates).filterMap (json.text · "template_sha256")).Nodup)
    (hbalances : ((json.items batch.balances).filterMap (json.text · "prior_balances_digest")).Nodup) :
    let bytes := OpenChunk.jsonBytes json (batch.templateColumn json) (batch.balanceColumn json)
    let chunks := batch.chunks json
    chunks.flatMap (·.jobs) = json.items batch.jobs ∧
      (∀ chunk ∈ chunks, chunk.jobs ≠ [] ∧ chunk.jobs.length ≤ preparedChunkRows ∧
        (bytes chunk.jobs ≤ preparedChunkBytes ∨ chunk.jobs.length = 1) ∧
        PreparedChunk.Carries json batch.templates "template_sha256" "template_sha256" chunk.jobs chunk.templates ∧
        PreparedChunk.Carries json batch.balances "prior_balances_digest" "window_prior_balances_sha256" chunk.jobs
          chunk.balances ∧
        chunk.highest = chunk.jobs.getLast?.bind json.syncSeq) ∧
      chunks.IsChain fun chunk next => ∀ job ∈ next.jobs.head?,
        chunk.jobs.length = preparedChunkRows ∨ preparedChunkBytes < bytes (chunk.jobs ++ [job]) := by
  intro bytes chunks
  have hpartitions := @OpenChunk.chunks_partitions _ json (batch.templateColumn json) (batch.balanceColumn json) .empty
    batch.highest OpenChunk.empty_counts (json.items batch.jobs) hhighest
  refine ⟨hpartitions.jobs, fun chunk hchunk => ?_, hpartitions.full⟩
  have hfinished := hpartitions.finished chunk hchunk
  refine ⟨hfinished.ne_nil, hfinished.rows, hfinished.fits, ?_, ?_, hfinished.highest⟩
  · rw [hfinished.templates]
    exact blobDocuments_carries htemplates chunk.jobs
  · rw [hfinished.balances]
    exact blobDocuments_carries hbalances chunk.jobs

/-- Two jobs that name one template; each of the three documents takes half a chunk. -/
def samplePreparedReader : JsonReader ℕ where
  get value key := if key = "template_sha256" then some 5 else if key = "sync_seq" then some value else none
  asStr value := if value = 5 then some "template" else none
  asI64 value := some (if value = 1 then ⟨11, by decide, by decide⟩ else ⟨12, by decide, by decide⟩)
  asArray value := if value = 0 then some [1, 2] else if value = 3 then some [4] else none
  jsonLen _ := 2 ^ 20

def samplePreparedBatch : PreparedBatch ℕ := ⟨0, 3, 9, some ⟨12, by decide, by decide⟩⟩

theorem chunks_exact_shared :
    let chunks := samplePreparedBatch.chunks samplePreparedReader
    chunks.map (fun chunk => (chunk.jobs, chunk.templates)) = [([1], [4]), ([2], [4])] ∧
      chunks.flatMap (·.jobs) = [1, 2] :=
  ⟨by decide +kernel, (PreparedBatch.chunks_exact samplePreparedReader samplePreparedBatch (by decide +kernel)
    (by decide +kernel) (by decide +kernel)).1⟩

end QbitPrism
