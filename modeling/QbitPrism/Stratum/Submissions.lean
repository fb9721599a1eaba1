import Mathlib
import QbitPrism.Stratum.Blocks

/-!
# Every submission of issued work

The work a manifest is issued as keeps the coinbase in two pieces, and assigning it to another
connection changes neither. Whatever bytes of the right length a miner puts between them, the
result is a coinbase of the same shape, so the submission is assembled and its block is read back.
-/
namespace QbitPrism
open MachineInt Checked ByteReader List

/-- What a coinbase keeps whatever the miner writes into its script. -/
structure CoinbaseFrame where
  nonce : Bytes 32
  outputs : List ParsedTxOut
  lockTime : U32

namespace CoinbaseFrame

variable (frame : CoinbaseFrame)

def tail (withWitness : Bool) : List UInt8 :=
  leBytes 4 0xfffffffe ++ ((compactSize frame.outputs.length ++
    (frame.outputs.map ParsedTxOut.serialize).flatten) ++
      ((if withWitness then serializeWitness frame.nonce else []) ++ leBytes 4 frame.lockTime.val))

/-- The coinbase with `script`, with its marker and witness data or without. -/
def coinbase (withWitness : Bool) (script : List UInt8) : List UInt8 :=
  coinbaseHead (if withWitness then [0, 1] else []) script.length ++ (script ++ frame.tail withWitness)

theorem coinbaseInput_serialize (script : List UInt8) (nonce : Bytes 32) :
    (coinbaseInput script nonce).serialize = List.replicate 32 0 ++ (List.replicate 4 255 ++
      (compactSize script.length ++ (script ++ leBytes 4 0xfffffffe))) := by
  have hvout : leBytes 4 (Unsigned.wrapping 0xffffffff : U32).val = List.replicate 4 255 := by
    decide +kernel
  simp only [TxInput.serialize, coinbaseInput, hvout, append_assoc]
  rfl

theorem coinbase_true (script : List UInt8) : frame.coinbase true script =
    serializeWithWitness (.wrapping 2) [coinbaseInput script frame.nonce] frame.outputs frame.lockTime := by
  simp only [coinbase, coinbaseHead, tail, serializeWithWitness, map_cons, map_nil, flatten_cons, flatten_nil,
    append_nil, length_singleton, coinbaseInput_serializeWitness, coinbaseInput_serialize, if_true, append_assoc]
  rfl

theorem coinbase_false (script : List UInt8) : frame.coinbase false script =
    leBytes 4 (.wrapping 2 : U32).val ++
      unmarked [coinbaseInput script frame.nonce] frame.outputs frame.lockTime false := by
  simp only [coinbase, coinbaseHead, tail, unmarked, map_cons, map_nil, flatten_cons, flatten_nil, append_nil,
    length_singleton, coinbaseInput_serialize, Bool.false_eq_true, if_false, append_assoc]
  rfl

theorem strip_coinbase {script : List UInt8} (hfit : (frame.coinbase true script).length < 2 ^ 64) :
    stripWitnessTransaction (frame.coinbase true script) = .ok (frame.coinbase false script) := by
  rw [coinbase_false]
  exact stripWitnessTransaction_serializeWithWitness (cons_ne_nil _ []) (frame.coinbase_true script) hfit

theorem length_coinbase {withWitness : Bool} {script other : List UInt8} (h : script.length = other.length) :
    (frame.coinbase withWitness script).length = (frame.coinbase withWitness other).length := by
  simp only [coinbase, length_append, h]

end CoinbaseFrame

/-- Work made from a manifest of `build_manifest` and reassigned any number of times. -/
inductive Issued (crypto : Crypto) (template : JsonValue) : Job → Prop
  | fromManifest {request : CoinbaseBuildRequest} {manifest : PayoutManifest} {jobId extranonce1 : String}
      {extranonce2Size : ℕ} {desiredDifficulty minimumDifficulty : F64} {cleanJobs : Bool} {job : Job} :
      buildManifest crypto request = .ok manifest →
      Job.fromManifest crypto jobId template manifest extranonce1 extranonce2Size desiredDifficulty
        minimumDifficulty cleanJobs = .ok job →
      Issued crypto template job
  | reassign {job reassigned : Job} {jobId extranonce1 : String} {difficulty minimumDifficulty : F64} :
      Issued crypto template job →
      job.reassign jobId extranonce1 difficulty minimumDifficulty = .ok reassigned →
      Issued crypto template reassigned

/-- How issued work holds its coinbase: the four pieces, and room for the miner's bytes. -/
structure JobFrame (template : JsonValue) (job : Job) (frame : CoinbaseFrame) (kept : List UInt8)
    (size : ℕ) : Prop where
  before : job.fullCoinbasePrefix = Hex.encode (coinbaseHead [0, 1] size ++ kept)
  after : job.fullCoinbaseSuffix = Hex.encode (frame.tail true)
  plainBefore : job.coinb1 = Hex.encode (coinbaseHead [] size ++ kept)
  plainAfter : job.coinb2 = Hex.encode (frame.tail false)
  room : ∃ entropy, Hex.decode job.extranonce1 = .ok entropy ∧
    kept.length + (entropy.length + job.extranonce2Size) = size
  short : ∀ script, script.length = size → (frame.coinbase true script).length ≤ maxBlockWeight
  previous : ∃ bytes, Hex.decode job.previousblockhash = .ok bytes ∧ bytes.length = 32
  template_eq : transactionsFromTemplate template = .ok job.transactions
  walked : ∀ tx ∈ job.transactions, Walked tx

theorem decodeHex_eq_ok {text : String} {bytes : List UInt8} :
    decodeHex text = .ok bytes ↔ Hex.decode text = .ok bytes := mapError_eq_ok

variable {crypto : Crypto}

variable {request : CoinbaseBuildRequest} {manifest : PayoutManifest} {minimumDifficulty : F64}

theorem buildManifest_frame (h : buildManifest crypto request = .ok manifest) :
    ∃ (frame : CoinbaseFrame) (script : List UInt8),
      Hex.decode manifest.coinbaseTxHex = .ok (frame.coinbase true script) ∧
      (frame.coinbase true script).length ≤ maxBlockWeight := by
  simp only [buildManifest, bind_eq_ok, pure_eq_ok] at h
  obtain ⟨built, hbuilt, -, -, -, -, -, -, rfl⟩ := h
  obtain ⟨script, nonce, lockTime, hbytes⟩ := buildCoinbase_bytes hbuilt
  refine ⟨⟨nonce, built.outputs.map AllocatedOutput.txOut ++
    [commitmentTxOut built.witnessCommitmentScript], lockTime⟩, script, ?_⟩
  rw [CoinbaseFrame.coinbase_true, ← hbytes.withWitness]
  exact ⟨Hex.decode_encode _, (buildCoinbase_eq_ok hbuilt).2.2.1⟩

theorem merkleBranchForCoinbase_walked {transactions : List (List UInt8)} {branch : List (Bytes 32)}
    (h : merkleBranchForCoinbase crypto transactions = .ok branch) :
    ∀ tx ∈ transactions, Walked tx := by
  simp only [merkleBranchForCoinbase, bind_eq_ok] at h
  obtain ⟨stripped, hstripped, -⟩ := h
  intro tx htx
  obtain ⟨bytes, -, hstrip⟩ := exists_of_mapM_ok hstripped htx
  exact walkTransaction_of_strip hstrip

variable {template : JsonValue} {job : Job}

theorem fromManifest_frame {jobId extranonce1 : String} {extranonce2Size : ℕ} {desiredDifficulty : F64}
    {cleanJobs : Bool} (hmanifest : buildManifest crypto request = .ok manifest)
    (h : Job.fromManifest crypto jobId template manifest extranonce1 extranonce2Size desiredDifficulty minimumDifficulty cleanJobs = .ok job) :
    ∃ frame kept size, JobFrame template job frame kept size := by
  obtain ⟨frame, script, hcoinbase, hweight⟩ := buildManifest_frame hmanifest
  have hfit : (frame.coinbase true script).length < 2 ^ 64 :=
    lt_of_le_of_lt hweight (by norm_num [maxBlockWeight])
  simp only [Job.fromManifest, bind_eq_ok, decodeHex_eq_ok, require_eq_ok, pure_eq_ok] at h
  obtain ⟨-, -, -, -, bytes, hdecode, stripped, hstrip, -, -, entropy, hentropy, ⟨plainBefore, plainAfter⟩,
    hplain, ⟨before, after⟩, hfull, transactions, htransactions, branch, hbranch, _, -, previous,
    hprevious, -, hlen, _, -, _, -, _, -, _, -, _, -, _, -, _, -, _, -, _, -, -, -, rfl⟩ := h
  obtain rfl := Except.ok.inj (hcoinbase.symm.trans hdecode)
  obtain rfl := Except.ok.inj ((frame.strip_coinbase hfit).symm.trans hstrip)
  have hplainFit : (frame.coinbase false script).length < 2 ^ 64 := by
    refine lt_of_le_of_lt ?_ hfit
    simp only [CoinbaseFrame.coinbase, CoinbaseFrame.tail, coinbaseHead, length_append, if_true,
      Bool.false_eq_true, if_false, length_nil]
    omega
  obtain ⟨kept, rfl, rfl, rfl⟩ := splitCoinbaseExtranonce_eq_ok (.inl rfl) hplainFit rfl hplain
  obtain ⟨other, hscript, rfl, rfl⟩ := splitCoinbaseExtranonce_eq_ok (.inr rfl) hfit rfl hfull
  obtain rfl := append_cancel_right hscript
  exact ⟨frame, kept, _, {
    before := rfl
    after := rfl
    plainBefore := rfl
    plainAfter := rfl
    room := ⟨entropy, hentropy, by simp⟩
    short := fun script' h => (frame.length_coinbase h).trans_le hweight
    previous := ⟨previous, hprevious, hlen⟩
    template_eq := htransactions
    walked := merkleBranchForCoinbase_walked hbranch }⟩

theorem reassign_frame {reassigned : Job} {frame : CoinbaseFrame} {kept : List UInt8} {size : ℕ}
    {jobId extranonce1 : String} {difficulty : F64} (h : JobFrame template job frame kept size)
    (hreassign : job.reassign jobId extranonce1 difficulty minimumDifficulty = .ok reassigned) :
    JobFrame template reassigned frame kept size := by
  simp only [Job.reassign, bind_eq_ok, mapError_eq_ok, require_eq_ok, pure_eq_ok] at hreassign
  obtain ⟨-, hlen, bytes, hbytes, -, -, -, -, -, -, rfl⟩ := hreassign
  obtain ⟨entropy, hentropy, hsize⟩ := h.room
  have hsame : bytes.length = entropy.length := by
    have hnew := Hex.length_of_decode hbytes
    have hold := Hex.length_of_decode hentropy
    omega
  exact { h with room := ⟨bytes, hbytes, hsame ▸ hsize⟩ }

theorem Issued.frame (h : Issued crypto template job) :
    ∃ frame kept size, JobFrame template job frame kept size := by
  induction h with
  | fromManifest hmanifest hjob => exact fromManifest_frame hmanifest hjob
  | reassign _ hreassign ih =>
    obtain ⟨frame, kept, size, hframe⟩ := ih
    exact ⟨frame, kept, size, reassign_frame hframe hreassign⟩

theorem JobFrame.splice {frame : CoinbaseFrame} {kept extranonce : List UInt8} {size : ℕ} {extranonce2 : String}
    (h : JobFrame template job frame kept size) (hsize : (Hex.utf8 extranonce2).length = job.extranonce2Size * 2)
    (hdecode : Hex.decode extranonce2 = .ok extranonce) :
    ∃ script, script.length = size ∧
      Hex.decode (job.fullCoinbasePrefix ++ job.extranonce1 ++ extranonce2 ++ job.fullCoinbaseSuffix) =
        .ok (frame.coinbase true script) ∧
      Hex.decode (job.coinb1 ++ job.extranonce1 ++ extranonce2 ++ job.coinb2) =
        .ok (frame.coinbase false script) := by
  obtain ⟨entropy, hentropy, hroom⟩ := h.room
  have hlen := Hex.length_of_decode hdecode
  have hscript : (kept ++ (entropy ++ extranonce)).length = size := by
    simp only [length_append]
    omega
  have hjoin : ∀ (marker tail : List UInt8) {before after : String},
      before = Hex.encode (coinbaseHead marker size ++ kept) → after = Hex.encode tail →
      Hex.decode (before ++ job.extranonce1 ++ extranonce2 ++ after) =
        .ok (coinbaseHead marker (kept ++ (entropy ++ extranonce)).length ++
          ((kept ++ (entropy ++ extranonce)) ++ tail)) := by
    rintro marker tail _ _ rfl rfl
    have hpieces := Hex.decode_append (Hex.decode_append (Hex.decode_append
      (Hex.decode_encode (coinbaseHead marker size ++ kept)) hentropy) hdecode) (Hex.decode_encode tail)
    rw [hpieces, hscript]
    simp only [append_assoc]
  exact ⟨_, hscript, hjoin _ _ h.before h.after, hjoin _ _ h.plainBefore h.plainAfter⟩

structure Job.Permits (job : Job) (extranonce2 ntime nonce : String) (versionBits : Option String)
    (versionMask : U32) : Prop where
  size : (Hex.utf8 extranonce2).length = job.extranonce2Size * 2
  hex : ∃ bytes, Hex.decode extranonce2 = .ok bytes
  time : ∃ time, parseU32Hex ntime = .ok time ∧ job.mintime.val ≤ time.val
  word : ∃ word, parseU32Hex nonce = .ok word
  bits : ∀ value ∈ versionBits, ∃ bits, parseU32Hex value = .ok bits ∧
    bits.val &&& outsideMask versionMask = 0

variable {crypto : Crypto} {template : JsonValue} {job : Job} {extranonce2 ntime nonce : String}
  {versionBits : Option String} {versionMask : U32}

theorem Job.Permits.appliedVersion_isOk (h : job.Permits extranonce2 ntime nonce versionBits versionMask) :
    ∃ version, job.appliedVersion versionBits versionMask = .ok version := by
  cases versionBits with
  | none => exact ⟨job.version, rfl⟩
  | some value =>
    obtain ⟨bits, hbits, hmask⟩ := h.bits value rfl
    rw [Job.appliedVersion, hbits, ok_bind, require_of hmask, ok_bind]
    exact ⟨_, rfl⟩

theorem assembleSubmission_isOk (hissued : Issued crypto template job)
    (hpermits : job.Permits extranonce2 ntime nonce versionBits versionMask) :
    ∃ header coinbase time word version,
      job.assembleSubmission crypto extranonce2 ntime nonce versionBits versionMask =
        .ok (job.submission crypto header coinbase extranonce2 time word version) ∧
      header.length = 80 ∧ coinbase.length ≤ maxBlockWeight ∧ Walked coinbase := by
  obtain ⟨frame, kept, size, hframe⟩ := hissued.frame
  obtain ⟨extranonce, hhex⟩ := hpermits.hex
  obtain ⟨time, htime, hmintime⟩ := hpermits.time
  obtain ⟨word, hword⟩ := hpermits.word
  obtain ⟨version, hversion⟩ := hpermits.appliedVersion_isOk
  obtain ⟨script, hscript, hcoinbase, hpreimage⟩ := hframe.splice hpermits.size hhex
  obtain ⟨previous, hprevious, hlen⟩ := hframe.previous
  rw [← decodeHex_eq_ok] at hcoinbase hpreimage hprevious
  have hshort := hframe.short script hscript
  have hstrip := frame.strip_coinbase (lt_of_le_of_lt hshort (by norm_num [maxBlockWeight]))
  have hheader : ∀ merkle : Bytes 32, (leBytes 4 version.val ++ (previous.reverse ++ (merkle.toList ++
      (leBytes 4 time.val ++ (leBytes 4 job.nbits.val ++ leBytes 4 word.val))))).length = 80 := by
    intro merkle
    simp only [length_append, length_leBytes, length_reverse, hlen, List.Vector.toList_length]
  refine ⟨_, frame.coinbase true script, time, word, version, ?_,
    hheader (foldBranch crypto (crypto.hash256 (frame.coinbase false script)) job.merkleBranch), hshort,
    walkTransaction_of_strip hstrip⟩
  simp only [Job.assembleSubmission, require_of hpermits.size, hhex, Except.mapError, htime, hword, require_of
    hmintime, hversion, hcoinbase, hpreimage, hstrip, hprevious, ok_bind, require_of (hheader _)]
  rfl

/-- The transactions of a job are in memory, so their bytes are fewer than the address space has. -/
def Job.InMemory (job : Job) : Prop := job.transactions.flatten.length < 2 ^ 63

theorem length_compactSize_le (size : ℕ) : (compactSize size).length ≤ 9 := by
  unfold compactSize
  split_ifs <;> simp

/-- Every permitted submission of issued work is assembled, and when it is a block, the block is
exactly the header, the count, the coinbase and the template's transactions, and is read back so. -/
theorem assembleSubmission_reads_back (hissued : Issued crypto template job)
    (hpermits : job.Permits extranonce2 ntime nonce versionBits versionMask) (hmemory : job.InMemory) :
    ∃ submission transactions,
      job.assembleSubmission crypto extranonce2 ntime nonce versionBits versionMask = .ok submission ∧
      transactionsFromTemplate template = .ok transactions ∧
      (submission.blockPass = true → ∃ block header coinbase,
        Hex.decode submission.blockHex = .ok block ∧ Hex.decode submission.headerHex = .ok header ∧
        Hex.decode submission.coinbaseTxHex = .ok coinbase ∧
        block = header ++ (compactSize (1 + transactions.length) ++ (coinbase ++ transactions.flatten)) ∧
        coinbaseFromBlock block = .ok coinbase ∧
        witnessMerkleLeavesFromBlock crypto block = .ok (witnessMerkleLeavesHex crypto transactions)) := by
  obtain ⟨frame, kept, size, hframe⟩ := hissued.frame
  obtain ⟨header, coinbase, time, word, version, hassembled, hheader, hshort, hwalked⟩ :=
    assembleSubmission_isOk hissued hpermits
  refine ⟨_, job.transactions, hassembled, hframe.template_eq, fun hpass => ?_⟩
  have hfit : (job.blockBytes header coinbase).length < 2 ^ 64 := by
    have hcount := length_compactSize_le (1 + job.transactions.length)
    simp only [Job.InMemory] at hmemory
    simp only [maxBlockWeight] at hshort
    simp only [Job.blockBytes, length_append]
    omega
  have hblock : Hex.decode (job.submission crypto header coinbase extranonce2 time word version).blockHex =
      .ok (job.blockBytes header coinbase) := by
    simp only [Job.submission] at hpass ⊢
    rw [hpass, if_pos rfl, Hex.decode_encode]
  exact ⟨_, header, coinbase, hblock, Hex.decode_encode _, Hex.decode_encode _, rfl,
    read_blockBytes hheader hwalked hframe.walked hfit⟩

def sampleTemplate : JsonValue := .object [
  ("previousblockhash", .string (Hex.encode (List.replicate 32 0x5a))), ("version", .integer 0x20000000),
  ("bits", .string "2100ffff"), ("curtime", .integer 1700000000), ("mintime", .integer 1699999999),
  ("transactions", .array [.object [("data", .string (Hex.encode (legacyTransaction 3)))]])]

def unitDifficulty : F64 := ⟨0x3ff0000000000000⟩

/-- The work of the sample request, issued and then assigned to another connection. -/
def sampleJob : Except String Job := do
  let manifest ← (buildManifest constantCrypto
    { sampleRequest with coinbaseScriptSigSuffixHex := some "ab12000000" }).mapError fun _ => "manifest"
  let job ← Job.fromManifest constantCrypto "first" sampleTemplate manifest "ab12" 3 unitDifficulty
    unitDifficulty true
  job.reassign "second" "CD34" unitDifficulty unitDifficulty

theorem sampleJob_issued (h : sampleJob = .ok job) : Issued constantCrypto sampleTemplate job := by
  simp only [sampleJob, bind_eq_ok, mapError_eq_ok] at h
  obtain ⟨manifest, hmanifest, first, hfirst, hreassign⟩ := h
  exact (Issued.fromManifest hmanifest hfirst).reassign hreassign

theorem assembleSubmission_reads_back_sample :
    ∃ job submission block coinbase, sampleJob = .ok job ∧
      job.assembleSubmission constantCrypto "0a0B0c" "6553f100" "0000002a" (some "00002000")
        versionRollingMask = .ok submission ∧
      Hex.decode submission.blockHex = .ok block ∧ coinbaseFromBlock block = .ok coinbase ∧
      Hex.decode submission.coinbaseTxHex = .ok coinbase := by
  have hjob : sampleJob.toOption.any (fun job => decide (job.mintime.val ≤ 0x6553f100 ∧
      job.extranonce2Size = 3 ∧ job.transactions.flatten.length < 2 ^ 63)) = true := by
    decide +kernel
  obtain ⟨job, hissued, hfields⟩ := exists_of_any hjob
  obtain ⟨hmintime, hsize, hmemory⟩ := of_decide_eq_true hfields
  have hpermits : job.Permits "0a0B0c" "6553f100" "0000002a" (some "00002000") versionRollingMask := {
    size := by rw [hsize]; decide +kernel
    hex := exists_of_isOk (by decide +kernel)
    time := ⟨0x6553f100, by decide +kernel, hmintime⟩
    word := exists_of_isOk (by decide +kernel)
    bits := by
      rintro value ⟨⟩
      exact ⟨0x2000, by decide +kernel, by decide +kernel⟩ }
  obtain ⟨submission, transactions, hassembled, -, hread⟩ :=
    assembleSubmission_reads_back (sampleJob_issued hissued) hpermits hmemory
  have hpass : (sampleJob >>= fun job => job.assembleSubmission constantCrypto "0a0B0c" "6553f100" "0000002a"
      (some "00002000") versionRollingMask).toOption.any Submission.blockPass = true := by
    decide +kernel
  rw [hissued, ok_bind, hassembled] at hpass
  obtain ⟨block, header, coinbase, hblock, -, hcoinbase, -, hfirst, -⟩ := hread hpass
  exact ⟨job, submission, block, coinbase, hissued, hassembled, hblock, hfirst, hcoinbase⟩

end QbitPrism
