import Mathlib
import QbitPrism.Lib.ByteReader
import QbitPrism.Payout.Types

/-!
# The transaction codec

The reader and the layout of `ctv.rs`. A compact size must be minimal and cannot exceed
the bytes that follow, output values must be at most the money supply, and nothing may
follow the lock time.
-/
namespace QbitPrism
open MachineInt Checked ByteReader List

def qbitMaxMoneySats : ℕ := 210000000 * 100000000

def invalidCtvManifest (reason : String) : PrismError := .invalidCtvFanoutManifest reason

def compactSize (size : ℕ) : List UInt8 :=
  if size < 253 then [UInt8.ofNat size]
  else if size ≤ 0xffff then 0xfd :: leBytes 2 size
  else if size ≤ 0xffffffff then 0xfe :: leBytes 4 size
  else 0xff :: leBytes 8 size

structure ParsedTxIn where
  prevTxidHex : String
  prevVout : U32
  scriptSig : List UInt8
  sequence : U32
  deriving DecidableEq

structure ParsedTxOut where
  amountSats : U64
  scriptPubkey : List UInt8
  deriving DecidableEq

def ParsedTxOut.serialize (output : ParsedTxOut) : List UInt8 :=
  leBytes 8 output.amountSats.val ++ (compactSize output.scriptPubkey.length ++ output.scriptPubkey)

structure ParsedTransaction where
  version : U32
  inputs : List ParsedTxIn
  outputs : List ParsedTxOut
  lockTime : U32
  witnessStacks : Option (List (List (List UInt8)))
  txWithoutWitness : List UInt8
  deriving DecidableEq

namespace TxReader

variable (fieldName : String)

def truncated : PrismError := invalidCtvManifest s!"{fieldName} transaction is truncated"

def nonCanonical : PrismError := invalidCtvManifest s!"{fieldName} has non-canonical compact size"

def readU32 : Reader PrismError U32 := do
  let value ← le (truncated fieldName) 4
  pure (.wrapping value)

/-- An output value: a signed 64-bit integer, not negative and at most the supply. -/
def readI64Nonnegative : Reader PrismError U64 := do
  let value ← le (truncated fieldName) 8
  if 2 ^ 63 ≤ value then
    fail (invalidCtvManifest s!"{fieldName} has negative transaction output value")
  else if qbitMaxMoneySats < value then
    fail (invalidCtvManifest s!"{fieldName} has transaction output value above MAX_MONEY")
  else pure (.wrapping value)

def readCompactSize : Reader PrismError ℕ := do
  let first ← byte (truncated fieldName)
  if first.toNat ≤ 0xfc then pure first.toNat
  else if first = 0xfd then do
    let value ← le (truncated fieldName) 2
    if value < 0xfd then fail (nonCanonical fieldName) else pure value
  else if first = 0xfe then do
    let value ← le (truncated fieldName) 4
    if value ≤ 0xffff then fail (nonCanonical fieldName) else pure value
  else do
    let value ← le (truncated fieldName) 8
    if value ≤ 0xffffffff then fail (nonCanonical fieldName) else pure value

def readCompactSizeAsUsize : Reader PrismError ℕ := do
  let value ← readCompactSize fieldName
  let left ← remaining
  if left < value then fail (truncated fieldName) else pure value

def readVarBytes : Reader PrismError (List UInt8) := do
  let len ← readCompactSizeAsUsize fieldName
  take (truncated fieldName) len

def readInput : Reader PrismError ParsedTxIn := do
  let prevTxidRaw ← take (truncated fieldName) 32
  let prevVout ← readU32 fieldName
  let scriptSig ← readVarBytes fieldName
  let sequence ← readU32 fieldName
  pure { prevTxidHex := Hex.encode prevTxidRaw.reverse, prevVout, scriptSig, sequence }

def readOutput : Reader PrismError ParsedTxOut := do
  let amountSats ← readI64Nonnegative fieldName
  let scriptPubkey ← readVarBytes fieldName
  pure { amountSats, scriptPubkey }

def readStack : Reader PrismError (List (List UInt8)) := do
  let itemCount ← readCompactSizeAsUsize fieldName
  many (readVarBytes fieldName) itemCount

def readMarker : Reader PrismError Bool := do
  let marker ← peek (truncated fieldName)
  if marker = 0 then do
    let _ ← byte (truncated fieldName)
    let flag ← byte (truncated fieldName)
    if flag = 0 then fail (invalidCtvManifest s!"{fieldName} has invalid witness flag 0")
    else pure true
  else pure false

def readInputs : Reader PrismError (List ParsedTxIn) := do
  let inputCount ← readCompactSizeAsUsize fieldName
  if inputCount = 0 then fail (invalidCtvManifest s!"{fieldName} has no inputs")
  else many (readInput fieldName) inputCount

def readOutputs : Reader PrismError (List ParsedTxOut) := do
  let outputCount ← readCompactSizeAsUsize fieldName
  many (readOutput fieldName) outputCount

def readStacks (hasWitness : Bool) (inputCount : ℕ) :
    Reader PrismError (Option (List (List (List UInt8)))) :=
  if hasWitness then do
    let witness ← many (readStack fieldName) inputCount
    pure (some witness)
  else pure none

def expectFinished : Reader PrismError Unit := do
  let left ← remaining
  if left ≠ 0 then fail (invalidCtvManifest s!"{fieldName} has trailing transaction bytes")
  else pure ()

end TxReader

def serializeInput (input : ParsedTxIn) : Except PrismError (List UInt8) := do
  let prevTxid ← okOr (Hex.decode input.prevTxidHex).toOption (.panicked "display txid hex")
  pure (prevTxid.reverse ++ (leBytes 4 input.prevVout.val ++
    (compactSize input.scriptSig.length ++ (input.scriptSig ++ leBytes 4 input.sequence.val))))

def serializeWithoutWitness (version : U32) (inputs : List ParsedTxIn) (outputs : List ParsedTxOut)
    (lockTime : U32) : Except PrismError (List UInt8) := do
  let inputBytes ← inputs.mapM serializeInput
  pure (leBytes 4 version.val ++ (compactSize inputs.length ++ (inputBytes.flatten ++
    (compactSize outputs.length ++ (outputs.flatMap ParsedTxOut.serialize ++
      leBytes 4 lockTime.val)))))

open TxReader in
def readTransaction (fieldName : String) : Reader PrismError ParsedTransaction := do
  let version ← readU32 fieldName
  let hasWitness ← readMarker fieldName
  let inputs ← readInputs fieldName
  let outputs ← readOutputs fieldName
  let witnessStacks ← readStacks fieldName hasWitness inputs.length
  let lockTime ← readU32 fieldName
  expectFinished fieldName
  let txWithoutWitness ← liftM (serializeWithoutWitness version inputs outputs lockTime)
  pure { version, inputs, outputs, lockTime, witnessStacks, txWithoutWitness }

def parseTransaction (bytes : List UInt8) (fieldName : String) :
    Except PrismError ParsedTransaction := do
  let (tx, _) ← readTransaction fieldName bytes
  pure tx

def parseTransactionHex (txHex fieldName : String) : Except PrismError ParsedTransaction :=
  match Hex.decode txHex with
  | .ok bytes => parseTransaction bytes fieldName
  | .error err => .error (invalidCtvManifest s!"{fieldName} is not valid hex: {err.text}")

/-- An input with its previous txid in the order of the wire. -/
structure TxInput where
  prevTxid : Bytes 32
  prevVout : U32
  scriptSig : List UInt8
  sequence : U32
  witnessStack : List (List UInt8)

namespace TxInput

def serialize (input : TxInput) : List UInt8 :=
  input.prevTxid.toList ++ (leBytes 4 input.prevVout.val ++
    ((compactSize input.scriptSig.length ++ input.scriptSig) ++ leBytes 4 input.sequence.val))

def serializeWitness (input : TxInput) : List UInt8 :=
  compactSize input.witnessStack.length ++
    (input.witnessStack.map fun item => compactSize item.length ++ item).flatten

def parsed (input : TxInput) : ParsedTxIn :=
  { prevTxidHex := Hex.encode input.prevTxid.toList.reverse
    prevVout := input.prevVout
    scriptSig := input.scriptSig
    sequence := input.sequence }

end TxInput

def serializeWithWitness (version : U32) (inputs : List TxInput) (outputs : List ParsedTxOut)
    (lockTime : U32) : List UInt8 :=
  leBytes 4 version.val ++ ([0, 1] ++
    ((compactSize inputs.length ++ (inputs.map TxInput.serialize).flatten) ++
      ((compactSize outputs.length ++ (outputs.map ParsedTxOut.serialize).flatten) ++
        ((inputs.map TxInput.serializeWitness).flatten ++ leBytes 4 lockTime.val))))

/-- Every count and length of the layout fits a compact size. -/
structure Sized (inputs : List TxInput) (outputs : List ParsedTxOut) : Prop where
  inputs_lt : inputs.length < 2 ^ 64
  outputs_lt : outputs.length < 2 ^ 64
  scriptSig_lt : ∀ input ∈ inputs, input.scriptSig.length < 2 ^ 64
  stack_lt : ∀ input ∈ inputs, input.witnessStack.length < 2 ^ 64
  item_lt : ∀ input ∈ inputs, ∀ item ∈ input.witnessStack, item.length < 2 ^ 64
  scriptPubkey_lt : ∀ output ∈ outputs, output.scriptPubkey.length < 2 ^ 64

theorem compactSize_ne_nil (size : ℕ) : compactSize size ≠ [] := by
  unfold compactSize
  split_ifs <;> exact cons_ne_nil _ _

theorem ParsedTxOut.serialize_ne_nil (output : ParsedTxOut) : output.serialize ≠ [] := by
  simp [serialize, compactSize_ne_nil]

variable {outputs : List ParsedTxOut} {inputs : List TxInput} {tx : ParsedTransaction}

namespace TxReader

variable (fieldName : String)

theorem reads_u32 (value : U32) : Reads True 0 (readU32 fieldName) (leBytes 4 value.val) value := by
  apply Reads.of_eq
  intro rest
  have hread := (Reads.le (truncated fieldName) (show value.val < 256 ^ 4 from value.isLt)).accepts
    trivial rest (Nat.zero_le _)
  rw [readU32, bind_apply, hread]
  show Except.ok ((Unsigned.wrapping value.val : U32), rest) = _
  rw [Unsigned.wrapping_self]

theorem reads_long {width size : ℕ} {tooSmall : ℕ → Prop} [DecidablePred tooSmall]
    (hfit : size < 256 ^ width) (hlarge : ¬ tooSmall size) :
    Reads True 0
      (do let value ← le (truncated fieldName) width
          if tooSmall value then fail (nonCanonical fieldName) else pure value)
      (leBytes width size) size := by
  have hpure : Reads True 0
      (if tooSmall size then fail (nonCanonical fieldName) else pure size : Reader PrismError ℕ) []
      size := by
    rw [if_neg hlarge]
    exact Reads.pure size
  have hbind : Reads (True ∧ True) 0
      (do let value ← le (truncated fieldName) width
          if tooSmall value then fail (nonCanonical fieldName) else pure value)
      (leBytes width size ++ []) size :=
    (Reads.le (truncated fieldName) hfit).bind hpure (Nat.zero_le _)
  rw [append_nil] at hbind
  exact hbind.mono (fun _ => ⟨trivial, trivial⟩) le_rfl

theorem reads_compactSize {size : ℕ} (h : size < 2 ^ 64) :
    Reads True 0 (readCompactSize fieldName) (compactSize size) size := by
  have hfirst : ∀ (b : UInt8) (bytes : List UInt8),
      Reads True 0
        (if b.toNat ≤ 0xfc then pure b.toNat
          else if b = 0xfd then do
            let value ← le (truncated fieldName) 2
            if value < 0xfd then fail (nonCanonical fieldName) else pure value
          else if b = 0xfe then do
            let value ← le (truncated fieldName) 4
            if value ≤ 0xffff then fail (nonCanonical fieldName) else pure value
          else do
            let value ← le (truncated fieldName) 8
            if value ≤ 0xffffffff then fail (nonCanonical fieldName) else pure value) bytes size →
      Reads True 0 (readCompactSize fieldName) (b :: bytes) size := by
    intro b bytes hrest
    exact ((Reads.byte (truncated fieldName) b).bind hrest (Nat.zero_le _)).mono
      (fun _ => ⟨trivial, trivial⟩) le_rfl
  unfold compactSize
  split_ifs with hshort hmid hlong
  · have hbyte : (UInt8.ofNat size).toNat = size :=
      UInt8.toNat_ofNat_of_lt (by simp [UInt8.size]; omega)
    apply hfirst
    rw [if_pos (by omega), hbyte]
    exact Reads.pure size
  · apply hfirst
    rw [if_neg (by decide), if_pos rfl]
    exact reads_long fieldName (by norm_num; omega) (by omega)
  · apply hfirst
    rw [if_neg (by decide), if_neg (by decide), if_pos rfl]
    exact reads_long fieldName (by norm_num; omega) (by omega)
  · apply hfirst
    rw [if_neg (by decide), if_neg (by decide), if_neg (by decide)]
    exact reads_long fieldName (by norm_num; omega) (by omega)

theorem reads_compactSizeAsUsize {size : ℕ} (h : size < 2 ^ 64) :
    Reads True size (readCompactSizeAsUsize fieldName) (compactSize size) size where
  only rest y rest' hread := by
    rw [readCompactSizeAsUsize, bind_apply, bind_eq_ok] at hread
    obtain ⟨⟨value, left⟩, hvalue, hread⟩ := hread
    obtain ⟨rfl, rfl⟩ := (reads_compactSize fieldName h).only _ _ _ hvalue
    rw [bind_apply, bind_eq_ok] at hread
    obtain ⟨⟨length, left'⟩, hlength, hread⟩ := hread
    cases hlength
    split_ifs at hread
    · cases hread
    · cases hread
      exact ⟨rfl, rfl⟩
  accepts _ rest hrest := by
    rw [readCompactSizeAsUsize, bind_apply, (reads_compactSize fieldName h).accepts trivial rest (Nat.zero_le _)]
    show (if rest.length < size then fail (truncated fieldName) else pure size :
      Reader PrismError ℕ) rest = _
    rw [if_neg (by omega)]
    rfl

theorem reads_varBytes {bytes : List UInt8} (h : bytes.length < 2 ^ 64) :
    Reads True 0 (readVarBytes fieldName) (compactSize bytes.length ++ bytes) bytes :=
  ((reads_compactSizeAsUsize fieldName h).bind (Reads.take (truncated fieldName) bytes)
    (by omega)).mono (fun _ => ⟨trivial, trivial⟩) le_rfl

theorem reads_counted {α : Type} (ok : α → Prop) (item : Reader PrismError α) {items : ℕ → Reader PrismError (List α)}
    {encodings : List (List UInt8)} {xs : List α} (hlen : xs.length < 2 ^ 64)
    (hitems : items xs.length = many item xs.length)
    (h : List.Forall₂ (fun bytes x => Reads (ok x) 0 item bytes x) encodings xs)
    (hne : ∀ bytes ∈ encodings, bytes ≠ []) :
    Reads (∀ x ∈ xs, ok x) 0
      (do let count ← readCompactSizeAsUsize fieldName
          items count)
      (compactSize xs.length ++ encodings.flatten) xs := by
  have hbytes := length_le_flatten hne
  have hread : Reads (∀ x ∈ xs, ok x) 0 (items xs.length) encodings.flatten xs := by
    rw [hitems]
    exact Reads.many h
  have hmany := (reads_compactSizeAsUsize fieldName hlen).bind hread (by
    rw [← h.length_eq]
    omega)
  exact hmany.mono (fun hok => ⟨trivial, hok⟩) le_rfl

theorem reads_amount (amount : U64) :
    Reads (amount.val ≤ qbitMaxMoneySats) 0 (readI64Nonnegative fieldName)
      (leBytes 8 amount.val) amount where
  only rest y rest' hread := by
    rw [readI64Nonnegative, bind_apply, bind_eq_ok] at hread
    obtain ⟨⟨value, left⟩, hvalue, hread⟩ := hread
    obtain ⟨rfl, rfl⟩ := (Reads.le (truncated fieldName)
      (show amount.val < 256 ^ 8 from amount.isLt)).only _ _ _ hvalue
    dsimp only at hread
    split_ifs at hread
    · cases hread
    · cases hread
    · cases hread
      exact ⟨Unsigned.wrapping_self amount, rfl⟩
  accepts hmax rest _ := by
    have hsupply : qbitMaxMoneySats < 2 ^ 63 := by norm_num [qbitMaxMoneySats]
    rw [readI64Nonnegative, bind_apply, (Reads.le (truncated fieldName)
      (show amount.val < 256 ^ 8 from amount.isLt)).accepts trivial rest (Nat.zero_le _)]
    show (if 2 ^ 63 ≤ amount.val then _ else if qbitMaxMoneySats < amount.val then _
      else pure (Unsigned.wrapping amount.val) : Reader PrismError U64) rest = _
    rw [if_neg (by omega), if_neg (by omega), Unsigned.wrapping_self]
    rfl

theorem reads_output (output : ParsedTxOut) (hscript : output.scriptPubkey.length < 2 ^ 64) :
    Reads (output.amountSats.val ≤ qbitMaxMoneySats) 0 (readOutput fieldName) output.serialize
      output := by
  have hscripts : Reads (True ∧ True) 0
      (do let scriptPubkey ← readVarBytes fieldName
          pure { amountSats := output.amountSats, scriptPubkey : ParsedTxOut })
      ((compactSize output.scriptPubkey.length ++ output.scriptPubkey) ++ []) output :=
    (reads_varBytes fieldName hscript).bind (Reads.pure output) (Nat.zero_le _)
  rw [append_nil] at hscripts
  exact ((reads_amount fieldName output.amountSats).bind hscripts (Nat.zero_le _)).mono
    (fun hok => ⟨hok, trivial, trivial⟩) le_rfl

theorem reads_outputs (hlen : outputs.length < 2 ^ 64)
    (hscript : ∀ output ∈ outputs, output.scriptPubkey.length < 2 ^ 64) :
    Reads (∀ output ∈ outputs, output.amountSats.val ≤ qbitMaxMoneySats) 0 (readOutputs fieldName)
      (compactSize outputs.length ++ (outputs.map ParsedTxOut.serialize).flatten) outputs := by
  apply reads_counted fieldName _ (readOutput fieldName) hlen rfl
  · rw [List.forall₂_map_left_iff, List.forall₂_same]
    exact fun output hmem => reads_output fieldName output (hscript output hmem)
  · intro bytes hmem
    obtain ⟨output, -, rfl⟩ := mem_map.mp hmem
    exact output.serialize_ne_nil

theorem reads_input (input : TxInput) (hscript : input.scriptSig.length < 2 ^ 64) :
    Reads True 0 (readInput fieldName) input.serialize input.parsed := by
  have hsequence : Reads (True ∧ True) 0
      (do let sequence ← readU32 fieldName
          pure { input.parsed with sequence })
      (leBytes 4 input.sequence.val ++ []) input.parsed :=
    (reads_u32 fieldName input.sequence).bind (Reads.pure input.parsed) (Nat.zero_le _)
  rw [append_nil] at hsequence
  have hprev : Reads True 0 (take (truncated fieldName) 32) input.prevTxid.toList
      input.prevTxid.toList := by
    have htake := Reads.take (truncated fieldName) input.prevTxid.toList
    rwa [List.Vector.toList_length] at htake
  have hread : Reads (True ∧ True ∧ True ∧ True ∧ True) 0 (readInput fieldName) input.serialize
      input.parsed :=
    hprev.bind ((reads_u32 fieldName input.prevVout).bind ((reads_varBytes fieldName hscript).bind
      hsequence (Nat.zero_le _)) (Nat.zero_le _)) (Nat.zero_le _)
  exact hread.mono (by simp) le_rfl

theorem reads_inputs (hne : inputs ≠ []) (hlen : inputs.length < 2 ^ 64)
    (hscript : ∀ input ∈ inputs, input.scriptSig.length < 2 ^ 64) :
    Reads True 0 (readInputs fieldName)
      (compactSize inputs.length ++ (inputs.map TxInput.serialize).flatten)
      (inputs.map TxInput.parsed) := by
  have hcount : (inputs.map TxInput.parsed).length = inputs.length := length_map _
  rw [← hcount] at hlen ⊢
  refine (reads_counted fieldName (fun _ => True) (readInput fieldName) hlen ?_ ?_ ?_).mono
    (by simp) le_rfl
  · rw [if_neg (by simpa using hne)]
  · rw [List.forall₂_map_left_iff, List.forall₂_map_right_iff, List.forall₂_same]
    exact fun input hmem => reads_input fieldName input (hscript input hmem)
  · intro bytes hmem
    obtain ⟨input, -, rfl⟩ := mem_map.mp hmem
    simp [TxInput.serialize, compactSize_ne_nil]

theorem reads_stack {stack : List (List UInt8)} (hlen : stack.length < 2 ^ 64)
    (hitem : ∀ item ∈ stack, item.length < 2 ^ 64) :
    Reads True 0 (readStack fieldName)
      (compactSize stack.length ++ (stack.map fun item => compactSize item.length ++ item).flatten)
      stack := by
  refine (reads_counted fieldName (fun _ => True) (readVarBytes fieldName) hlen rfl ?_ ?_).mono
    (by simp) le_rfl
  · rw [List.forall₂_map_left_iff, List.forall₂_same]
    exact fun item hmem => reads_varBytes fieldName (hitem item hmem)
  · intro bytes hmem
    obtain ⟨item, -, rfl⟩ := mem_map.mp hmem
    simp [compactSize_ne_nil]

theorem reads_stacks (hstack : ∀ input ∈ inputs, input.witnessStack.length < 2 ^ 64)
    (hitem : ∀ input ∈ inputs, ∀ item ∈ input.witnessStack, item.length < 2 ^ 64) :
    Reads True 0 (readStacks fieldName true (inputs.map TxInput.parsed).length)
      (inputs.map TxInput.serializeWitness).flatten (some (inputs.map TxInput.witnessStack)) := by
  have hmany : Reads (∀ stack ∈ inputs.map TxInput.witnessStack, True) 0
      (many (readStack fieldName) (inputs.map TxInput.witnessStack).length)
      (inputs.map TxInput.serializeWitness).flatten (inputs.map TxInput.witnessStack) := by
    apply Reads.many
    rw [List.forall₂_map_left_iff, List.forall₂_map_right_iff, List.forall₂_same]
    exact fun input hmem => reads_stack fieldName (hstack input hmem) (hitem input hmem)
  have hread : Reads ((∀ stack ∈ inputs.map TxInput.witnessStack, True) ∧ True) 0
      (do let witness ← many (readStack fieldName) (inputs.map TxInput.witnessStack).length
          pure (some witness))
      ((inputs.map TxInput.serializeWitness).flatten ++ [])
      (some (inputs.map TxInput.witnessStack)) :=
    hmany.bind (Reads.pure _) (Nat.zero_le _)
  rw [append_nil] at hread
  rw [length_map] at hread ⊢
  exact hread.mono (by simp) le_rfl

theorem reads_marker : Reads True 0 (readMarker fieldName) [0, 1] true := Reads.of_eq fun _ => rfl

end TxReader

open TxReader in
theorem parseTransaction_serializeWithWitness {version lockTime : U32} (hne : inputs ≠ [])
    (hsize : Sized inputs outputs) {fieldName : String}
    (h : parseTransaction (serializeWithWitness version inputs outputs lockTime) fieldName = .ok tx) :
    tx = { version
           inputs := inputs.map TxInput.parsed
           outputs
           lockTime
           witnessStacks := some (inputs.map TxInput.witnessStack)
           txWithoutWitness := tx.txWithoutWitness } := by
  simp only [parseTransaction, bind_eq_ok, pure_eq_ok] at h
  obtain ⟨⟨_, left⟩, h, rfl⟩ := h
  simp only [readTransaction, bind_apply, bind_eq_ok, serializeWithWitness] at h
  obtain ⟨⟨v, _⟩, hversion, ⟨marker, _⟩, hmarker, ⟨ins, _⟩, hins, ⟨outs, _⟩, houts,
    ⟨witness, _⟩, hwitness, ⟨lock, _⟩, hlock, ⟨_, _⟩, -, ⟨bytes, _⟩, -, h⟩ := h
  obtain ⟨rfl, rfl⟩ := (reads_u32 fieldName version).only _ _ _ hversion
  obtain ⟨rfl, rfl⟩ := (reads_marker fieldName).only _ _ _ hmarker
  obtain ⟨rfl, rfl⟩ := (reads_inputs fieldName hne hsize.inputs_lt hsize.scriptSig_lt).only _ _ _ hins
  obtain ⟨rfl, rfl⟩ :=
    (reads_outputs fieldName hsize.outputs_lt hsize.scriptPubkey_lt).only _ _ _ houts
  obtain ⟨rfl, rfl⟩ := (reads_stacks fieldName hsize.stack_lt hsize.item_lt).only _ _ _ hwitness
  rw [← append_nil (leBytes 4 lockTime.val)] at hlock
  obtain ⟨rfl, -⟩ := (reads_u32 fieldName lockTime).only _ _ _ hlock
  cases h
  rfl

namespace TxReader

variable (f f' : String)

theorem readU32_follows : Follows (readU32 f') (readU32 f) :=
  (Follows.le _ _ 4).bind fun _ => .refl _

theorem readI64Nonnegative_follows : Follows (readI64Nonnegative f') (readI64Nonnegative f) :=
  (Follows.le _ _ 8).bind fun _ => .ite (.fail _ _) (.ite (.fail _ _) (.refl _))

theorem readCompactSize_follows : Follows (readCompactSize f') (readCompactSize f) := by
  have hlong : ∀ (width : ℕ) (tooSmall : ℕ → Prop) [DecidablePred tooSmall],
      Follows (do let value ← le (truncated f') width
                  if tooSmall value then fail (nonCanonical f') else pure value)
        (do let value ← le (truncated f) width
            if tooSmall value then fail (nonCanonical f) else pure value) :=
    fun width _ _ => (Follows.le _ _ width).bind fun _ => .ite (.fail _ _) (.refl _)
  exact (Follows.byte _ _).bind fun _ => .ite (.refl _)
    (.ite (hlong 2 _) (.ite (hlong 4 _) (hlong 8 _)))

theorem readCompactSizeAsUsize_follows :
    Follows (readCompactSizeAsUsize f') (readCompactSizeAsUsize f) :=
  (readCompactSize_follows f f').bind fun _ => (Follows.refl _).bind fun _ =>
    .ite (.fail _ _) (.refl _)

theorem readVarBytes_follows : Follows (readVarBytes f') (readVarBytes f) :=
  (readCompactSizeAsUsize_follows f f').bind fun _ => .take _ _ _

theorem readInput_follows : Follows (readInput f') (readInput f) :=
  (Follows.take _ _ 32).bind fun _ => (readU32_follows f f').bind fun _ =>
    (readVarBytes_follows f f').bind fun _ => (readU32_follows f f').bind fun _ => .refl _

theorem readOutput_follows : Follows (readOutput f') (readOutput f) :=
  (readI64Nonnegative_follows f f').bind fun _ => (readVarBytes_follows f f').bind fun _ => .refl _

theorem readStack_follows : Follows (readStack f') (readStack f) :=
  (readCompactSizeAsUsize_follows f f').bind fun _ => (readVarBytes_follows f f').many _

theorem readMarker_follows : Follows (readMarker f') (readMarker f) :=
  (Follows.peek _ _).bind fun _ => .ite
    ((Follows.byte _ _).bind fun _ => (Follows.byte _ _).bind fun _ => .ite (.fail _ _) (.refl _))
    (.refl _)

theorem readInputs_follows : Follows (readInputs f') (readInputs f) :=
  (readCompactSizeAsUsize_follows f f').bind fun _ => .ite (.fail _ _) ((readInput_follows f f').many _)

theorem readOutputs_follows : Follows (readOutputs f') (readOutputs f) :=
  (readCompactSizeAsUsize_follows f f').bind fun _ => (readOutput_follows f f').many _

theorem readStacks_follows (hasWitness : Bool) (inputCount : ℕ) :
    Follows (readStacks f' hasWitness inputCount) (readStacks f hasWitness inputCount) :=
  .ite (((readStack_follows f f').many _).bind fun _ => .refl _) (.refl _)

theorem expectFinished_follows : Follows (expectFinished f') (expectFinished f) :=
  (Follows.refl _).bind fun _ => .ite (.fail _ _) (.refl _)

end TxReader

open TxReader in
theorem readTransaction_follows (f f' : String) : Follows (readTransaction f') (readTransaction f) :=
  (readU32_follows f f').bind fun _ => (readMarker_follows f f').bind fun _ =>
    (readInputs_follows f f').bind fun _ => (readOutputs_follows f f').bind fun _ =>
      (readStacks_follows f f' _ _).bind fun _ => (readU32_follows f f').bind fun _ =>
        (expectFinished_follows f f').bind fun _ => .refl _

theorem parseTransactionHex_field {txHex f : String} (h : parseTransactionHex txHex f = .ok tx) (f' : String) :
    parseTransactionHex txHex f' = .ok tx := by
  unfold parseTransactionHex at h ⊢
  split at h
  · simp only [parseTransaction, bind_eq_ok, pure_eq_ok, Prod.exists] at h ⊢
    obtain ⟨parsed, rest, hread, rfl⟩ := h
    exact ⟨parsed, rest, readTransaction_follows f f' _ _ hread, rfl⟩
  · cases h

end QbitPrism
