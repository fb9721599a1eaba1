import Mathlib
import QbitPrism.Tx.Codec

/-!
# The layout fanout transactions are written in

`serialize_tx_hex` of `ctv.rs`, and the two directions between it and `parse_transaction`:
what is written reads back as the same fields, and what is read is written back as the same
bytes, except that the reader takes any nonzero witness flag where the writer has one.
-/
namespace QbitPrism
open MachineInt Checked ByteReader List

structure TxInputSpec where
  prevTxidHex : String
  prevVout : U32
  scriptSig : List UInt8
  sequence : U32
  witnessStack : List (List UInt8)
  deriving DecidableEq

/-- `TxOutputSpec` has the fields of a parsed output. -/
abbrev TxOutputSpec := ParsedTxOut

namespace TxInputSpec

def serialize (input : TxInputSpec) : Except PrismError (List UInt8) := do
  let prevTxid ← (Hex.decode input.prevTxidHex).mapError fun err =>
    invalidCtvManifest s!"prev txid must be hex: {err.text}"
  require (prevTxid.length = 32) (invalidCtvManifest "prev txid must be 32 bytes")
  pure (prevTxid.reverse ++ (leBytes 4 input.prevVout.val ++
    ((compactSize input.scriptSig.length ++ input.scriptSig) ++ leBytes 4 input.sequence.val)))

theorem serialize_of_decode {input : TxInputSpec} {prevTxid : List UInt8}
    (h : Hex.decode input.prevTxidHex = .ok prevTxid) (hlen : prevTxid.length = 32) :
    input.serialize = .ok (prevTxid.reverse ++ (leBytes 4 input.prevVout.val ++
      ((compactSize input.scriptSig.length ++ input.scriptSig) ++ leBytes 4 input.sequence.val))) := by
  simp only [serialize, h, Except.mapError, ok_bind, require_of hlen]
  rfl

def serializeWitness (input : TxInputSpec) : List UInt8 :=
  compactSize input.witnessStack.length ++
    (input.witnessStack.map fun item => compactSize item.length ++ item).flatten

end TxInputSpec

def ParsedTxIn.withStack (input : ParsedTxIn) (witnessStack : List (List UInt8)) : TxInputSpec :=
  { input with witnessStack }

/-- The bytes `serialize_tx_hex` encodes. -/
def serializeTx (version : U32) (inputs : List TxInputSpec) (outputs : List TxOutputSpec)
    (lockTime : U32) (withWitness : Bool) : Except PrismError (List UInt8) := do
  let inputBytes ← inputs.mapM TxInputSpec.serialize
  pure (leBytes 4 version.val ++ ((if withWitness then [0, 1] else []) ++
    ((compactSize inputs.length ++ inputBytes.flatten) ++
      ((compactSize outputs.length ++ (outputs.map ParsedTxOut.serialize).flatten) ++
        ((if withWitness then (inputs.map TxInputSpec.serializeWitness).flatten else []) ++
          leBytes 4 lockTime.val)))))

def serializeTxHex (version : U32) (inputs : List TxInputSpec) (outputs : List TxOutputSpec)
    (lockTime : U32) (withWitness : Bool) : Except PrismError String := do
  let tx ← serializeTx version inputs outputs lockTime withWitness
  pure (Hex.encode tx)

namespace ParsedTransaction

/-- The parsed inputs with their witness stacks; a transaction without witness data has none. -/
def inputSpecs (tx : ParsedTransaction) : List TxInputSpec :=
  tx.inputs.zipWith ParsedTxIn.withStack (tx.witnessStacks.getD (tx.inputs.map fun _ => []))

/-- A parsed transaction written in the layout of `serialize_tx_hex`. -/
def reserialize (tx : ParsedTransaction) : Except PrismError String :=
  serializeTxHex tx.version tx.inputSpecs tx.outputs tx.lockTime tx.witnessStacks.isSome

end ParsedTransaction

variable {encodings : List (List UInt8)} {witness : List (List (List UInt8))} {bytes : List UInt8}
  {tx : ParsedTransaction}

namespace TxReader

variable {fieldName : String}

theorem readU32_writes : Writes (fun value bytes => bytes = leBytes 4 value.val) (readU32 fieldName) := by
  intro input value rest h
  rw [readU32, bind_apply, bind_eq_ok] at h
  obtain ⟨⟨raw, _⟩, hraw, h⟩ := h
  cases h
  obtain ⟨rfl, hlt⟩ := le_eq_ok hraw
  exact ⟨_, congrArg (leBytes 4) (Unsigned.wrapping_val hlt).symm, rfl⟩

theorem readI64Nonnegative_writes :
    Writes (fun value bytes => bytes = leBytes 8 value.val) (readI64Nonnegative fieldName) := by
  intro input value rest h
  rw [readI64Nonnegative, bind_apply, bind_eq_ok] at h
  obtain ⟨⟨raw, _⟩, hraw, h⟩ := h
  obtain ⟨rfl, hlt⟩ := le_eq_ok hraw
  dsimp only at h
  split_ifs at h
  · cases h
  · cases h
  · cases h
    exact ⟨_, congrArg (leBytes 8) (Unsigned.wrapping_val hlt).symm, rfl⟩

variable {input rest : List UInt8}

theorem long_eq_ok {width size : ℕ} {tooSmall : ℕ → Prop} [DecidablePred tooSmall]
    (h : (do let value ← le (truncated fieldName) width if tooSmall value then fail (nonCanonical fieldName) else pure value : Reader PrismError ℕ) input = .ok (size, rest)) :
    input = leBytes width size ++ rest ∧ size < 256 ^ width ∧ ¬ tooSmall size := by
  rw [bind_apply, bind_eq_ok] at h
  obtain ⟨⟨raw, _⟩, hraw, h⟩ := h
  obtain ⟨rfl, hlt⟩ := le_eq_ok hraw
  dsimp only at h
  split_ifs at h with hsmall
  · cases h
  · cases h
    exact ⟨rfl, hlt, hsmall⟩

theorem readCompactSize_writes :
    Writes (fun size bytes => bytes = compactSize size) (readCompactSize fieldName) := by
  intro input size rest h
  rw [readCompactSize, bind_apply, bind_eq_ok] at h
  obtain ⟨⟨first, _⟩, hfirst, h⟩ := h
  obtain rfl := byte_eq_ok hfirst
  have hbyte := first.toNat_lt
  dsimp only at h
  refine ⟨_, rfl, ?_⟩
  split_ifs at h with hshort hmid hlong
  · cases h
    rw [compactSize, if_pos (by omega), UInt8.ofNat_toNat]
    rfl
  · obtain ⟨rfl, hlt, hlarge⟩ := long_eq_ok h
    rw [compactSize, if_neg (by omega), if_pos (by omega), hmid]
    rfl
  · obtain ⟨rfl, hlt, hlarge⟩ := long_eq_ok h
    rw [compactSize, if_neg (by omega), if_neg (by omega), if_pos (by omega), hlong]
    rfl
  · obtain ⟨rfl, hlt, hlarge⟩ := long_eq_ok h
    have hlast : first = 0xff := by
      apply UInt8.toNat_inj.mp
      have hd : first.toNat ≠ 0xfd := fun hne => hmid (UInt8.toNat_inj.mp hne)
      have he : first.toNat ≠ 0xfe := fun hne => hlong (UInt8.toNat_inj.mp hne)
      show first.toNat = 255
      omega
    rw [compactSize, if_neg (by omega), if_neg (by omega), if_neg (by omega), hlast]
    rfl

theorem readCompactSizeAsUsize_writes :
    Writes (fun size bytes => bytes = compactSize size) (readCompactSizeAsUsize fieldName) := by
  intro input size rest h
  rw [readCompactSizeAsUsize, bind_apply, bind_eq_ok] at h
  obtain ⟨⟨value, _⟩, hvalue, h⟩ := h
  rw [bind_apply, bind_eq_ok] at h
  obtain ⟨⟨left, _⟩, hleft, h⟩ := h
  cases hleft
  dsimp only at h
  split_ifs at h
  · cases h
  · cases h
    exact readCompactSize_writes _ _ _ hvalue

theorem readVarBytes_writes :
    Writes (fun x bytes => bytes = compactSize x.length ++ x) (readVarBytes fieldName) := by
  intro input x rest h
  rw [readVarBytes, bind_apply, bind_eq_ok] at h
  obtain ⟨⟨len, _⟩, hlen, h⟩ := h
  obtain ⟨_, rfl, rfl⟩ := readCompactSizeAsUsize_writes _ _ _ hlen
  obtain ⟨rfl, rfl⟩ := take_eq_ok h
  exact ⟨_, rfl, by rw [append_assoc]⟩

theorem readInput_writes : Writes
    (fun input bytes => ∀ witnessStack,
      (input.withStack witnessStack).serialize = .ok bytes) (readInput fieldName) := by
  intro input x rest h
  simp only [readInput, bind_apply, bind_eq_ok] at h
  obtain ⟨⟨prevTxid, _⟩, hprev, ⟨prevVout, _⟩, hvout, ⟨scriptSig, _⟩, hscript, ⟨sequence, _⟩,
    hsequence, h⟩ := h
  cases h
  obtain ⟨rfl, hlen⟩ := take_eq_ok hprev
  obtain ⟨_, rfl, rfl⟩ := readU32_writes _ _ _ hvout
  obtain ⟨_, rfl, rfl⟩ := readVarBytes_writes _ _ _ hscript
  obtain ⟨_, rfl, rfl⟩ := readU32_writes _ _ _ hsequence
  refine ⟨prevTxid ++ (leBytes 4 prevVout.val ++
    ((compactSize scriptSig.length ++ scriptSig) ++ leBytes 4 sequence.val)), ?_, ?_⟩
  · intro witnessStack
    rw [TxInputSpec.serialize_of_decode (Hex.decode_encode prevTxid.reverse)
      (by rw [length_reverse, hlen]), reverse_reverse]
    rfl
  · simp only [append_assoc]

theorem readOutput_writes :
    Writes (fun output bytes => bytes = output.serialize) (readOutput fieldName) := by
  intro input x rest h
  simp only [readOutput, bind_apply, bind_eq_ok] at h
  obtain ⟨⟨amountSats, _⟩, hamount, ⟨scriptPubkey, _⟩, hscript, h⟩ := h
  cases h
  obtain ⟨_, rfl, rfl⟩ := readI64Nonnegative_writes _ _ _ hamount
  obtain ⟨_, rfl, rfl⟩ := readVarBytes_writes _ _ _ hscript
  exact ⟨_, rfl, by simp only [ParsedTxOut.serialize, append_assoc]⟩

theorem counted_eq_ok {α : Type} {Encodes : α → List UInt8 → Prop} {item : Reader PrismError α} {count : ℕ}
    {mid : List UInt8} {xs : List α} (hitem : Writes Encodes item)
    (hcount : readCompactSizeAsUsize fieldName input = .ok (count, mid))
    (hmany : many item count mid = .ok (xs, rest)) :
    ∃ encodings, List.Forall₂ Encodes xs encodings ∧
      input = (compactSize xs.length ++ encodings.flatten) ++ rest := by
  obtain ⟨_, rfl, rfl⟩ := readCompactSizeAsUsize_writes _ _ _ hcount
  obtain ⟨⟨encodings, hencodings, rfl⟩, rfl⟩ := many_eq_ok hitem hmany
  exact ⟨encodings, hencodings, by rw [append_assoc]⟩

theorem map_eq_of_forall₂ {α : Type} {enc : α → List UInt8} {xs : List α}
    (h : List.Forall₂ (fun x bytes => bytes = enc x) xs encodings) : encodings = xs.map enc := by
  induction h with
  | nil => rfl
  | cons hx _ ih => rw [hx, ih, map_cons]

theorem readInputs_writes : Writes
    (fun inputs bytes => ∃ encodings, List.Forall₂ (fun input bytes => ∀ witnessStack,
        (input.withStack witnessStack).serialize = .ok bytes) inputs encodings ∧
      bytes = compactSize inputs.length ++ encodings.flatten) (readInputs fieldName) := by
  intro input xs rest h
  simp only [readInputs, bind_apply, bind_eq_ok] at h
  obtain ⟨⟨count, _⟩, hcount, h⟩ := h
  split_ifs at h
  · cases h
  · obtain ⟨encodings, hencodings, rfl⟩ := counted_eq_ok readInput_writes hcount h
    exact ⟨_, ⟨encodings, hencodings, rfl⟩, rfl⟩

theorem readOutputs_writes : Writes
    (fun outputs bytes => bytes = compactSize outputs.length ++
      (outputs.map ParsedTxOut.serialize).flatten) (readOutputs fieldName) := by
  intro input xs rest h
  simp only [readOutputs, bind_apply, bind_eq_ok] at h
  obtain ⟨⟨count, _⟩, hcount, h⟩ := h
  obtain ⟨encodings, hencodings, rfl⟩ := counted_eq_ok readOutput_writes hcount h
  exact ⟨_, by rw [map_eq_of_forall₂ hencodings], rfl⟩

theorem readStack_writes : Writes
    (fun stack bytes => bytes = compactSize stack.length ++
      (stack.map fun item => compactSize item.length ++ item).flatten) (readStack fieldName) := by
  intro input xs rest h
  simp only [readStack, bind_apply, bind_eq_ok] at h
  obtain ⟨⟨count, _⟩, hcount, h⟩ := h
  obtain ⟨encodings, hencodings, rfl⟩ := counted_eq_ok readVarBytes_writes hcount h
  exact ⟨_, by rw [map_eq_of_forall₂ hencodings], rfl⟩

theorem readMarker_eq_ok {hasWitness : Bool} (h : readMarker fieldName input = .ok (hasWitness, rest)) :
    (hasWitness = true ∧ ∃ flag, flag ≠ 0 ∧ input = 0 :: flag :: rest) ∨
      (hasWitness = false ∧ rest = input ∧ ∃ first, first ≠ 0 ∧ input.head? = some first) := by
  simp only [readMarker, bind_apply, bind_eq_ok] at h
  obtain ⟨⟨marker, _⟩, hpeek, h⟩ := h
  obtain ⟨rfl, hhead⟩ := peek_eq_ok hpeek
  split_ifs at h with hmarker
  · simp only [bind_apply, bind_eq_ok] at h
    obtain ⟨⟨b, _⟩, hb, ⟨flag, _⟩, hflag, h⟩ := h
    obtain rfl := byte_eq_ok hb
    obtain rfl := byte_eq_ok hflag
    obtain rfl : b = 0 := Option.some.inj (hhead.trans (congrArg some hmarker))
    split_ifs at h with hzero
    · cases h
    · cases h
      exact .inl ⟨rfl, flag, hzero, rfl⟩
  · cases h
    exact .inr ⟨rfl, rfl, marker, hmarker, hhead⟩

theorem readStacks_eq_ok {inputCount : ℕ} {read : Option (List (List (List UInt8)))}
    (h : readStacks fieldName true inputCount input = .ok (read, rest)) :
    ∃ witness, read = some witness ∧ witness.length = inputCount ∧
      input = (witness.map fun stack => compactSize stack.length ++
        (stack.map fun item => compactSize item.length ++ item).flatten).flatten ++ rest := by
  rw [readStacks, if_pos rfl, bind_apply, bind_eq_ok] at h
  obtain ⟨⟨witness, _⟩, hmany, h⟩ := h
  cases h
  obtain ⟨⟨encodings, hencodings, rfl⟩, hlen⟩ := many_eq_ok readStack_writes hmany
  exact ⟨witness, rfl, hlen, by rw [map_eq_of_forall₂ hencodings]⟩

theorem expectFinished_eq_ok {u : Unit} (h : expectFinished fieldName input = .ok (u, rest)) : input = [] := by
  rw [expectFinished, bind_apply, bind_eq_ok] at h
  obtain ⟨⟨left, _⟩, hleft, h⟩ := h
  cases hleft
  dsimp only at h
  split_ifs at h with hzero
  · cases h
  · exact length_eq_zero_iff.mp (not_not.mp hzero)

end TxReader

theorem serialize_withStacks {inputs : List ParsedTxIn}
    (h : List.Forall₂ (fun input bytes => ∀ witnessStack, (input.withStack witnessStack).serialize = .ok bytes) inputs encodings)
    (hlen : witness.length = inputs.length) :
    (inputs.zipWith ParsedTxIn.withStack witness).mapM TxInputSpec.serialize = .ok encodings := by
  rw [mapM_eq_ok]
  induction h generalizing witness with
  | nil => exact .nil
  | cons hx _ ih =>
    cases witness with
    | nil => cases hlen
    | cons stack witness => exact .cons (hx stack) (ih (Nat.succ.inj hlen))

theorem serializeWitness_withStacks {inputs : List ParsedTxIn} (hlen : witness.length = inputs.length) :
    (inputs.zipWith ParsedTxIn.withStack witness).map TxInputSpec.serializeWitness =
      witness.map fun stack => compactSize stack.length ++
        (stack.map fun item => compactSize item.length ++ item).flatten := by
  induction inputs generalizing witness with
  | nil =>
    rw [length_nil, length_eq_zero_iff] at hlen
    rw [hlen]
    rfl
  | cons input inputs ih =>
    cases witness with
    | nil => cases hlen
    | cons stack witness =>
      rw [zipWith_cons_cons, map_cons, map_cons, ih (Nat.succ.inj hlen)]
      rfl

/-- What stands between the version and the input count. -/
def MarkerBytes (hasWitness : Bool) (marker tail : List UInt8) : Prop :=
  (hasWitness = true ∧ ∃ flag, flag ≠ 0 ∧ marker = [0, flag]) ∨
    (hasWitness = false ∧ marker = [] ∧ ∃ first, first ≠ 0 ∧ tail.head? = some first)

open TxReader in
theorem parseTransaction_eq_ok {fieldName : String} (h : parseTransaction bytes fieldName = .ok tx) :
    ∃ marker tail, MarkerBytes tx.witnessStacks.isSome marker tail ∧
      bytes = leBytes 4 tx.version.val ++ (marker ++ tail) ∧
      serializeTx tx.version tx.inputSpecs tx.outputs tx.lockTime tx.witnessStacks.isSome =
        .ok (leBytes 4 tx.version.val ++
          ((if tx.witnessStacks.isSome then [0, 1] else []) ++ tail)) := by
  simp only [parseTransaction, bind_eq_ok, pure_eq_ok] at h
  obtain ⟨⟨_, left⟩, h, rfl⟩ := h
  simp only [readTransaction, bind_apply, bind_eq_ok] at h
  obtain ⟨⟨version, _⟩, hversion, ⟨hasWitness, _⟩, hmarker, ⟨inputs, _⟩, hinputs, ⟨outputs, _⟩,
    houtputs, ⟨witness, _⟩, hwitness, ⟨lockTime, _⟩, hlock, ⟨_, _⟩, hfinished, ⟨without, _⟩, -, h⟩ := h
  cases h
  obtain ⟨_, rfl, rfl⟩ := readU32_writes _ _ _ hversion
  obtain ⟨_, ⟨encodings, hencodings, rfl⟩, rfl⟩ := readInputs_writes _ _ _ hinputs
  obtain ⟨_, rfl, rfl⟩ := readOutputs_writes _ _ _ houtputs
  obtain ⟨_, rfl, rfl⟩ := readU32_writes _ _ _ hlock
  obtain rfl := expectFinished_eq_ok hfinished
  obtain ⟨rfl, flag, hflag, rfl⟩ | ⟨rfl, rfl, first, hfirst, hhead⟩ := readMarker_eq_ok hmarker
  · obtain ⟨witness, rfl, hlen, rfl⟩ := readStacks_eq_ok hwitness
    refine ⟨[0, flag], _, .inl ⟨rfl, flag, hflag, rfl⟩, rfl, ?_⟩
    simp only [serializeTx, ParsedTransaction.inputSpecs, Option.getD_some, Option.isSome_some,
      serialize_withStacks hencodings hlen, serializeWitness_withStacks hlen, ok_bind, if_true,
      length_zipWith, hlen, min_self, append_nil]
    rfl
  · cases hwitness
    refine ⟨[], _, .inr ⟨rfl, rfl, first, hfirst, hhead⟩, rfl, ?_⟩
    have hlen : (inputs.map fun _ => ([] : List (List UInt8))).length = inputs.length :=
      length_map _
    simp only [serializeTx, ParsedTransaction.inputSpecs, Option.getD_none, Option.isSome_none,
      serialize_withStacks hencodings hlen, ok_bind, length_zipWith, hlen, min_self]
    rfl

namespace TxInputSpec

def HasTxid (input : TxInputSpec) : Prop :=
  ∃ prevTxid : Bytes 32, Hex.decode input.prevTxidHex = .ok prevTxid.toList

def wire (input : TxInputSpec) : TxInput :=
  { input with
    prevTxid := (do
      let prevTxid ← (Hex.decode input.prevTxidHex).toOption
      Bytes.ofList? 32 prevTxid.reverse).getD (List.Vector.replicate 32 0) }

/-- The input as it is read back; the reader writes hex in lower case. -/
def parsed (input : TxInputSpec) : ParsedTxIn :=
  { input with prevTxidHex := input.prevTxidHex.toLower }

theorem HasTxid.decode {input : TxInputSpec} (h : input.HasTxid) :
    Hex.decode input.prevTxidHex = .ok input.wire.prevTxid.toList.reverse := by
  obtain ⟨prevTxid, hprev⟩ := h
  have hwire : Bytes.ofList? 32 prevTxid.toList.reverse =
      some ⟨prevTxid.toList.reverse, by simp⟩ := Bytes.ofList?_eq_some.mpr rfl
  simp only [wire, hprev, Except.toOption, Option.bind_eq_bind, Option.bind_some, hwire]
  exact congrArg Except.ok (reverse_reverse prevTxid.toList).symm

theorem HasTxid.parsed_eq {input : TxInputSpec} (h : input.HasTxid) :
    input.parsed = input.wire.parsed := by
  simp only [parsed, TxInput.parsed, Hex.toLower_of_decode h.decode]
  rfl

theorem HasTxid.serialize_eq {input : TxInputSpec} (h : input.HasTxid) :
    input.serialize = .ok input.wire.serialize := by
  rw [serialize_of_decode h.decode (by simp), reverse_reverse]
  rfl

end TxInputSpec

theorem TxInput.serializeInput_parsed (input : TxInput) :
    serializeInput input.parsed = .ok input.serialize := by
  simp only [serializeInput, parsed, Hex.decode_encode, Except.toOption, okOr_some, ok_bind,
    reverse_reverse, serialize, append_assoc]
  rfl

theorem mapM_of_forall {α β : Type} {f : α → Except PrismError β} {g : α → β} {xs : List α}
    (h : ∀ x ∈ xs, f x = .ok (g x)) : xs.mapM f = .ok (xs.map g) := by
  rw [mapM_eq_ok, List.forall₂_map_right_iff, List.forall₂_same]
  exact h

def unmarked (inputs : List TxInput) (outputs : List ParsedTxOut) (lockTime : U32)
    (withWitness : Bool) : List UInt8 :=
  (compactSize inputs.length ++ (inputs.map TxInput.serialize).flatten) ++
    ((compactSize outputs.length ++ (outputs.map ParsedTxOut.serialize).flatten) ++
      ((if withWitness then (inputs.map TxInput.serializeWitness).flatten else []) ++
        leBytes 4 lockTime.val))

theorem serializeTx_eq {version lockTime : U32} {inputs : List TxInputSpec}
    {outputs : List TxOutputSpec} (htxid : ∀ input ∈ inputs, input.HasTxid) (withWitness : Bool) :
    serializeTx version inputs outputs lockTime withWitness =
      .ok (leBytes 4 version.val ++ ((if withWitness then [0, 1] else []) ++
        unmarked (inputs.map TxInputSpec.wire) outputs lockTime withWitness)) := by
  rw [serializeTx, mapM_of_forall fun input hinput => (htxid input hinput).serialize_eq]
  simp only [ok_bind, unmarked, length_map, map_map]
  rfl

section Written

variable {version lockTime : U32} {inputs : List TxInput} {outputs : List ParsedTxOut}

theorem serializeWithoutWitness_parsed :
    serializeWithoutWitness version (inputs.map TxInput.parsed) outputs lockTime =
      .ok (leBytes 4 version.val ++ unmarked inputs outputs lockTime false) := by
  have hinputs : (inputs.map TxInput.parsed).mapM serializeInput =
      .ok (inputs.map TxInput.serialize) := by
    rw [mapM_eq_ok, List.forall₂_map_left_iff, List.forall₂_map_right_iff, List.forall₂_same]
    exact fun input _ => input.serializeInput_parsed
  simp only [serializeWithoutWitness, hinputs, ok_bind, length_map, flatMap_def, unmarked,
    append_assoc]
  rfl

theorem head_compactSize {size : ℕ} (h : size ≠ 0) (rest : List UInt8) :
    ∃ first, first ≠ 0 ∧ (compactSize size ++ rest).head? = some first := by
  unfold compactSize
  split_ifs with hshort
  · refine ⟨UInt8.ofNat size, ?_, rfl⟩
    intro hzero
    have hbyte : (UInt8.ofNat size).toNat = size :=
      UInt8.toNat_ofNat_of_lt (by simp [UInt8.size]; omega)
    exact h (hbyte.symm.trans (congrArg UInt8.toNat hzero))
  · exact ⟨_, by decide, rfl⟩
  · exact ⟨_, by decide, rfl⟩
  · exact ⟨_, by decide, rfl⟩

namespace TxReader

variable (fieldName : String) (withWitness : Bool)

theorem readMarker_accepts {tail : List UInt8} (h : ∃ first, first ≠ 0 ∧ tail.head? = some first) :
    readMarker fieldName ((if withWitness then [0, 1] else []) ++ tail) = .ok (withWitness, tail) := by
  obtain ⟨first, hfirst, hhead⟩ := h
  cases withWitness with
  | true => exact (reads_marker fieldName).accepts trivial tail (Nat.zero_le _)
  | false =>
    cases tail with
    | nil => cases hhead
    | cons b tail =>
      obtain rfl := Option.some.inj hhead
      show (if b = 0 then _ else pure false : Reader PrismError Bool) (b :: tail) = _
      rw [if_neg hfirst]
      rfl

theorem readStacks_accepts (hsize : Sized inputs outputs) (rest : List UInt8) :
    readStacks fieldName withWitness (inputs.map TxInput.parsed).length
      ((if withWitness then (inputs.map TxInput.serializeWitness).flatten else []) ++ rest) =
        .ok (if withWitness then some (inputs.map TxInput.witnessStack) else none, rest) := by
  cases withWitness with
  | true =>
    exact (reads_stacks fieldName hsize.stack_lt hsize.item_lt).accepts trivial rest (Nat.zero_le _)
  | false => rfl

end TxReader

open TxReader in
theorem parseTransaction_unmarked (fieldName : String) (version lockTime : U32)
    (withWitness : Bool) (hne : inputs ≠ [])
    (hamount : ∀ output ∈ outputs, output.amountSats.val ≤ qbitMaxMoneySats)
    (hsize : Sized inputs outputs) :
    parseTransaction (leBytes 4 version.val ++ ((if withWitness then [0, 1] else []) ++
        unmarked inputs outputs lockTime withWitness)) fieldName = .ok {
      version
      inputs := inputs.map TxInput.parsed
      outputs
      lockTime
      witnessStacks := if withWitness then some (inputs.map TxInput.witnessStack) else none
      txWithoutWitness := leBytes 4 version.val ++ unmarked inputs outputs lockTime false } := by
  have hversion := (reads_u32 fieldName version).accepts trivial
  have hinputs := (reads_inputs fieldName hne hsize.inputs_lt hsize.scriptSig_lt).accepts trivial
  have houtputs := (reads_outputs fieldName hsize.outputs_lt hsize.scriptPubkey_lt).accepts hamount
  have hlock := (reads_u32 fieldName lockTime).accepts trivial [] (Nat.zero_le _)
  rw [append_nil] at hlock
  have hcount : inputs.length ≠ 0 := fun hzero => hne (length_eq_zero_iff.mp hzero)
  simp only [parseTransaction, readTransaction, bind_apply, bind_eq_ok, pure_eq_ok]
  refine ⟨⟨_, []⟩, ⟨⟨version, _⟩, hversion _ (Nat.zero_le _), ⟨withWitness, _⟩,
    readMarker_accepts fieldName withWitness ?_, ⟨_, _⟩, hinputs _ (Nat.zero_le _), ⟨outputs, _⟩,
    houtputs _ (Nat.zero_le _), ⟨_, _⟩, readStacks_accepts fieldName withWitness hsize _,
    ⟨lockTime, []⟩, hlock, ⟨(), []⟩, rfl, ⟨_, []⟩, ?_, rfl⟩, rfl⟩
  · rw [unmarked, append_assoc]
    exact head_compactSize hcount _
  · show (liftM (serializeWithoutWitness version (inputs.map TxInput.parsed) outputs lockTime) :
      Reader PrismError (List UInt8)) [] = _
    rw [serializeWithoutWitness_parsed]
    rfl

end Written

theorem parseTransactionHex_encode (bytes : List UInt8) (fieldName : String) :
    parseTransactionHex (Hex.encode bytes) fieldName = parseTransaction bytes fieldName := by
  rw [parseTransactionHex, Hex.decode_encode]

theorem parseTransaction_without {fieldName : String} (h : parseTransaction bytes fieldName = .ok tx) :
    serializeWithoutWitness tx.version tx.inputs tx.outputs tx.lockTime = .ok tx.txWithoutWitness := by
  simp only [parseTransaction, bind_eq_ok, pure_eq_ok] at h
  obtain ⟨⟨_, left⟩, h, rfl⟩ := h
  simp only [readTransaction, bind_apply, bind_eq_ok] at h
  obtain ⟨⟨version, _⟩, -, ⟨_, _⟩, -, ⟨inputs, _⟩, -, ⟨outputs, _⟩, -, ⟨_, _⟩, -, ⟨lockTime, _⟩, -, ⟨_, _⟩,
    -, ⟨bytes, _⟩, hbytes, h⟩ := h
  cases h
  obtain ⟨written, hwritten, heq⟩ := bind_eq_ok.mp hbytes
  cases heq
  exact hwritten

open TxReader in
theorem parseTransaction_amounts {fieldName : String} (h : parseTransaction bytes fieldName = .ok tx) :
    ∀ output ∈ tx.outputs, output.amountSats.val ≤ qbitMaxMoneySats := by
  have houtput : ∀ input output rest, readOutput fieldName input = .ok (output, rest) →
      output.amountSats.val ≤ qbitMaxMoneySats := by
    intro input output rest hread
    simp only [readOutput, readI64Nonnegative, bind_apply, bind_eq_ok] at hread
    obtain ⟨⟨amount, _⟩, ⟨⟨value, _⟩, hvalue, hamount⟩, ⟨script, _⟩, -, hread⟩ := hread
    cases hread
    dsimp only at hamount
    split_ifs at hamount with hnegative hsupply
    · cases hamount
    · cases hamount
    · cases hamount
      rw [Unsigned.wrapping_val (by omega)]
      omega
  simp only [parseTransaction, bind_eq_ok, pure_eq_ok] at h
  obtain ⟨⟨_, left⟩, h, rfl⟩ := h
  simp only [readTransaction, bind_apply, bind_eq_ok] at h
  obtain ⟨⟨_, _⟩, -, ⟨_, _⟩, -, ⟨_, _⟩, -, ⟨outputs, _⟩, houtputs, ⟨_, _⟩, -, ⟨_, _⟩, -, ⟨_, _⟩, -, ⟨_, _⟩,
    -, h⟩ := h
  cases h
  simp only [readOutputs, bind_apply, bind_eq_ok] at houtputs
  obtain ⟨⟨count, _⟩, -, hmany⟩ := houtputs
  exact many_forall houtput hmany

/-- A transaction with witness data has the flag the writer gives it. -/
def FlagIsOne (bytes : List UInt8) : Prop := bytes[4]? = some 0 → bytes[5]? = some 1

instance (bytes : List UInt8) : Decidable (FlagIsOne bytes) := by
  unfold FlagIsOne
  infer_instance

theorem reserialize_iff {fieldName : String} (h : parseTransaction bytes fieldName = .ok tx) :
    tx.reserialize = .ok (Hex.encode bytes) ↔ FlagIsOne bytes := by
  obtain ⟨marker, tail, hmarker, rfl, hserialize⟩ := parseTransaction_eq_ok h
  have hbytes : tx.reserialize = .ok (Hex.encode (leBytes 4 tx.version.val ++ (marker ++ tail))) ↔
      (if tx.witnessStacks.isSome then [0, 1] else []) = marker := by
    rw [ParsedTransaction.reserialize, serializeTxHex, hserialize, ok_bind, pure_eq_ok]
    constructor
    · intro hhex
      exact append_cancel_right (append_cancel_left (Hex.encode_injective hhex))
    · rintro rfl
      rfl
  have hget : ∀ i, (leBytes 4 tx.version.val ++ (marker ++ tail))[4 + i]? = (marker ++ tail)[i]? := by
    intro i
    rw [List.getElem?_append_right (by simp), length_leBytes, Nat.add_sub_cancel_left]
  rw [hbytes, FlagIsOne, hget 0, hget 1]
  obtain ⟨hwitness, flag, -, rfl⟩ | ⟨hwitness, rfl, first, hfirst, hhead⟩ := hmarker
  · rw [hwitness]
    simp [eq_comm]
  · have hzero : tail[0]? ≠ some 0 := by
      rw [← List.head?_eq_getElem?, hhead]
      exact fun heq => hfirst (Option.some.inj heq)
    rw [hwitness]
    simp [hzero]

/-- The codec of fanout transactions. What the reader accepts is written back as the same bytes
exactly when its witness flag is one, and what the writer wrote is read back as the same fields. -/
theorem transactionCodec_canonical (fieldName : String) (bytes : List UInt8) :
    (∀ tx, parseTransaction bytes fieldName = .ok tx →
      (tx.reserialize = .ok (Hex.encode bytes) ↔ FlagIsOne bytes)) ∧
    ∀ (version lockTime : U32) (inputs : List TxInputSpec) (outputs : List TxOutputSpec)
      (withWitness : Bool), inputs ≠ [] → (∀ input ∈ inputs, input.HasTxid) →
      (∀ output ∈ outputs, output.amountSats.val ≤ qbitMaxMoneySats) →
      Sized (inputs.map TxInputSpec.wire) outputs →
      ∃ txHex withoutHex tx,
        serializeTxHex version inputs outputs lockTime withWitness = .ok txHex ∧
        serializeTxHex version inputs outputs lockTime false = .ok withoutHex ∧
        parseTransactionHex txHex fieldName = .ok tx ∧
        tx.version = version ∧ tx.inputs = inputs.map TxInputSpec.parsed ∧ tx.outputs = outputs ∧
        tx.lockTime = lockTime ∧
        tx.witnessStacks =
          (if withWitness then some (inputs.map TxInputSpec.witnessStack) else none) ∧
        Hex.encode tx.txWithoutWitness = withoutHex := by
  refine ⟨fun tx => reserialize_iff, ?_⟩
  intro version lockTime inputs outputs withWitness hne htxid hamount hsize
  have hwrite : ∀ withWitness, serializeTxHex version inputs outputs lockTime withWitness =
      .ok (Hex.encode (leBytes 4 version.val ++ ((if withWitness then [0, 1] else []) ++
        unmarked (inputs.map TxInputSpec.wire) outputs lockTime withWitness))) := by
    intro withWitness
    rw [serializeTxHex, serializeTx_eq htxid]
    rfl
  have hread := parseTransaction_unmarked fieldName version lockTime withWitness
    (by simpa using hne) hamount hsize
  have hparsed : (inputs.map TxInputSpec.wire).map TxInput.parsed = inputs.map TxInputSpec.parsed := by
    rw [map_map]
    exact map_congr_left fun input hinput => (htxid input hinput).parsed_eq.symm
  rw [hparsed, map_map] at hread
  exact ⟨_, _, _, hwrite withWitness, hwrite false, (parseTransactionHex_encode _ _).trans hread,
    rfl, rfl, rfl, rfl, rfl, rfl⟩

/-- A transaction with one empty input and no outputs, whose witness flag is two. -/
def flagTwoBytes : List UInt8 :=
  leBytes 4 3 ++ ([0, 2] ++ ([1] ++ (List.replicate 36 0 ++ ([0] ++ (leBytes 4 0 ++
    ([0] ++ ([0] ++ leBytes 4 0)))))))

/-- The reader accepts the flag two, which the writer never writes. -/
theorem parseTransaction_accepts_flag_two :
    ∃ tx, parseTransaction flagTwoBytes "fanout" = .ok tx ∧
      tx.reserialize ≠ .ok (Hex.encode flagTwoBytes) := by
  have hok : (parseTransaction flagTwoBytes "fanout").isOk = true := by decide +kernel
  obtain ⟨tx, htx⟩ := exists_of_isOk hok
  refine ⟨tx, htx, ?_⟩
  rw [Ne, reserialize_iff htx]
  decide

/-- An input spending output 0 of the zero txid, with one witness item. -/
def sampleInput : TxInputSpec where
  prevTxidHex := Hex.encode (List.replicate 32 0)
  prevVout := 0
  scriptSig := []
  sequence := 0
  witnessStack := [[0x51]]

theorem transactionCodec_canonical_one_input :
    (∃ tx, parseTransaction (flagTwoBytes.set 5 1) "fanout" = .ok tx ∧
      tx.reserialize = .ok (Hex.encode (flagTwoBytes.set 5 1))) ∧
    ∃ txHex tx, serializeTxHex 3 [sampleInput] [] 0 true = .ok txHex ∧
      parseTransactionHex txHex "fanout" = .ok tx ∧ tx.witnessStacks = some [[[0x51]]] := by
  obtain ⟨hreads, hwrites⟩ := transactionCodec_canonical "fanout" (flagTwoBytes.set 5 1)
  constructor
  · have hok : (parseTransaction (flagTwoBytes.set 5 1) "fanout").isOk = true := by decide +kernel
    obtain ⟨tx, htx⟩ := exists_of_isOk hok
    exact ⟨tx, htx, (hreads tx htx).mpr (by decide)⟩
  · have htxid : ∀ input ∈ [sampleInput], input.HasTxid := by
      simp only [mem_singleton, forall_eq]
      exact ⟨List.Vector.replicate 32 0, Hex.decode_encode _⟩
    obtain ⟨txHex, _, tx, hhex, -, hparse, -, -, -, -, hstack, -⟩ :=
      hwrites 3 0 [sampleInput] [] true (by simp) htxid (by simp)
        ⟨by simp, by simp, by simp [TxInputSpec.wire, sampleInput], by simp [TxInputSpec.wire, sampleInput],
          by simp [TxInputSpec.wire, sampleInput], by simp⟩
    exact ⟨txHex, tx, hhex, hparse, hstack⟩

end QbitPrism
