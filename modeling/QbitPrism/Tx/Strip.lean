import Mathlib
import QbitPrism.Tx.Serialize

/-!
# The Stratum codec's view of a transaction

`walk_transaction` and `strip_witness_transaction` of `codec.rs`. They keep offsets into the
whole byte string and copy the witness-free parts out of it, where the reader of `ctv.rs`
parses fields and writes them again.
-/
namespace QbitPrism
open MachineInt Checked ByteReader List

/-- A computation that moves an offset through a byte string. -/
abbrev Cursor (α : Type) := StateT ℕ (Except String) α

namespace Cursor

variable (bytes : List UInt8)

def take (len : ℕ) : Cursor (List UInt8) := fun offset =>
  if 2 ^ 64 ≤ offset + len then .error "transaction length overflow"
  else if offset + len ≤ bytes.length then .ok ((bytes.drop offset).take len, offset + len)
  else .error "truncated transaction"

def ensure (condition : Prop) [Decidable condition] (error : String) : Cursor Unit := fun offset =>
  if condition then .ok ((), offset) else .error error

def countWidth (first : UInt8) : ℕ :=
  if first = 253 then 2 else if first = 254 then 4 else if first = 255 then 8 else 0

def isCanonical (first : UInt8) (value : ℕ) : Prop :=
  if first = 253 then 253 ≤ value
  else if first = 254 then 0xffff < value
  else if first = 255 then 0xffffffff < value
  else True

instance (first : UInt8) (value : ℕ) : Decidable (isCanonical first value) := by
  unfold isCanonical
  infer_instance

def count : Cursor ℕ := do
  let firstByte ← take bytes 1
  let first := firstByte.headD 0
  let raw ← take bytes (countWidth first)
  let value := if countWidth first = 0 then first.toNat else ofLeBytes raw
  ensure (isCanonical first value) "noncanonical compact size"
  ensure (value ≤ bytes.length) "transaction count exceeds input size"
  pure value

def skipVarBytes : Cursor Unit := do
  let n ← count bytes
  let _ ← take bytes n
  pure ()

def times (item : Cursor Unit) : ℕ → Cursor Unit
  | 0 => pure ()
  | n + 1 => do
    item
    times item n

def skipInput : Cursor Unit := do
  let _ ← take bytes 36
  skipVarBytes bytes
  let _ ← take bytes 4
  pure ()

def skipOutput : Cursor Unit := do
  let _ ← take bytes 8
  skipVarBytes bytes

def skipStack : Cursor Unit := do
  let items ← count bytes
  times (skipVarBytes bytes) items

def offset : Cursor ℕ := fun offset => .ok (offset, offset)

end Cursor

/-- Where a transaction's parts are in the bytes it starts at. -/
structure TransactionLayout where
  bodyStart : ℕ
  bodyEnd : ℕ
  locktimeStart : ℕ
  len : ℕ

open Cursor in
def walkParts (bytes : List UInt8) (witness : Bool) : Cursor TransactionLayout := do
  if witness then do
    ensure (bytes[5]? = some 1) "unsupported witness transaction flags"
    let _ ← take bytes 2
  let bodyStart ← offset
  let inputs ← count bytes
  ensure (0 < inputs) "transaction has no inputs"
  times (skipInput bytes) inputs
  let outputs ← count bytes
  times (skipOutput bytes) outputs
  let bodyEnd ← offset
  if witness then times (skipStack bytes) inputs
  let locktimeStart ← offset
  let _ ← take bytes 4
  let len ← offset
  pure { bodyStart, bodyEnd, locktimeStart, len }

def walkTransaction (bytes : List UInt8) : Except String TransactionLayout := do
  require (10 ≤ bytes.length) "transaction is too short"
  let (layout, _) ← walkParts bytes (bytes[4]? = some 0 ∧ bytes[5]? ≠ some 0) 4
  pure layout

def slice (bytes : List UInt8) (first last : ℕ) : List UInt8 := (bytes.take last).drop first

def stripWitnessTransaction (tx : List UInt8) : Except String (List UInt8) := do
  let layout ← walkTransaction tx
  require (layout.len = tx.length) "transaction has trailing bytes"
  pure (slice tx 0 4 ++ (slice tx layout.bodyStart layout.bodyEnd ++
    slice tx layout.locktimeStart layout.len))

/-- At any offset where `enc` stands, `r` moves past it and returns `x`. -/
def Walks {α : Type} (bytes : List UInt8) (r : Cursor α) (enc : List UInt8) (x : α) : Prop :=
  ∀ pre rest, bytes = pre ++ (enc ++ rest) → r pre.length = .ok (x, (pre ++ enc).length)

namespace Walks

variable {α β : Type} {bytes : List UInt8}

theorem pure (x : α) : Walks bytes (Pure.pure x : Cursor α) [] x := by
  intro pre rest _
  rw [append_nil]
  rfl

theorem bind {r : Cursor α} {f : α → Cursor β} {enc enc' : List UInt8} {x : α} {y : β}
    (hr : Walks bytes r enc x) (hf : Walks bytes (f x) enc' y) :
    Walks bytes (r >>= f) (enc ++ enc') y := by
  intro pre rest h
  have hfirst := hr pre (enc' ++ rest) (by rw [h, append_assoc])
  have hnext := hf (pre ++ enc) rest (by rw [h]; simp only [append_assoc])
  show (r pre.length >>= fun p => f p.1 p.2) = _
  rw [hfirst, ok_bind, hnext, append_assoc]

theorem take (hfit : bytes.length < 2 ^ 64) (enc : List UInt8) :
    Walks bytes (Cursor.take bytes enc.length) enc enc := by
  intro pre rest h
  have hlen : pre.length + enc.length ≤ bytes.length := by
    rw [h, length_append, length_append]
    omega
  have hdrop : (bytes.drop pre.length).take enc.length = enc := by
    rw [h, drop_left, take_left]
  rw [Cursor.take, if_neg (by omega), if_pos hlen, hdrop, length_append]

theorem ensure {condition : Prop} [Decidable condition] (h : condition) (error : String) :
    Walks bytes (Cursor.ensure condition error) [] () := by
  intro pre rest _
  rw [Cursor.ensure, if_pos h, append_nil]

section
variable (hfit : bytes.length < 2 ^ 64)
include hfit

theorem count_of {first : UInt8} {raw : List UInt8} {size : ℕ} (hwidth : Cursor.countWidth first = raw.length)
    (hvalue : (if Cursor.countWidth first = 0 then first.toNat else ofLeBytes raw) = size)
    (hcanonical : Cursor.isCanonical first size) (hsize : size ≤ bytes.length) :
    Walks bytes (Cursor.count bytes) (first :: raw) size := by
  have htake : Walks bytes (Cursor.take bytes (Cursor.countWidth first)) raw raw := by
    rw [hwidth]
    exact take hfit raw
  subst hvalue
  have hrest : Walks bytes (do
      let raw ← Cursor.take bytes (Cursor.countWidth first)
      let value := if Cursor.countWidth first = 0 then first.toNat else ofLeBytes raw
      Cursor.ensure (Cursor.isCanonical first value) "noncanonical compact size"
      Cursor.ensure (value ≤ bytes.length) "transaction count exceeds input size"
      Pure.pure value) (raw ++ ([] ++ ([] ++ []))) _ :=
    htake.bind ((ensure hcanonical _).bind ((ensure hsize _).bind (pure _)))
  have hcount : Walks bytes (Cursor.count bytes) ([first] ++ (raw ++ ([] ++ ([] ++ [])))) _ :=
    (take hfit [first]).bind hrest
  simpa using hcount

theorem count {size : ℕ} (hsize : size ≤ bytes.length) :
    Walks bytes (Cursor.count bytes) (compactSize size) size := by
  unfold compactSize
  split_ifs with hshort hmid hlong
  · have hbyte : (UInt8.ofNat size).toNat = size :=
      UInt8.toNat_ofNat_of_lt (by simp [UInt8.size]; omega)
    have hne : ∀ b : UInt8, 253 ≤ b.toNat → UInt8.ofNat size ≠ b := by
      rintro b hb rfl
      omega
    have hwidth : Cursor.countWidth (UInt8.ofNat size) = 0 := by
      rw [Cursor.countWidth, if_neg (hne 253 (by decide)), if_neg (hne 254 (by decide)), if_neg (hne 255 (by decide))]
    refine count_of hfit (by rw [hwidth]; rfl) (by rw [hwidth, if_pos rfl, hbyte]) ?_ hsize
    rw [Cursor.isCanonical, if_neg (hne 253 (by decide)), if_neg (hne 254 (by decide)), if_neg (hne 255 (by decide))]
    trivial
  · exact count_of hfit (by rw [length_leBytes]; rfl)
      (ofLeBytes_leBytes (show size < 256 ^ 2 by norm_num; omega)) (by simp [Cursor.isCanonical]; omega)
      hsize
  · exact count_of hfit (by rw [length_leBytes]; rfl)
      (ofLeBytes_leBytes (show size < 256 ^ 4 by norm_num; omega)) (by simp [Cursor.isCanonical]; omega)
      hsize
  · exact count_of hfit (by rw [length_leBytes]; rfl)
      (ofLeBytes_leBytes (show size < 256 ^ 8 by norm_num; omega)) (by simp [Cursor.isCanonical]; omega)
      hsize

theorem skipVarBytes (field : List UInt8) :
    Walks bytes (Cursor.skipVarBytes bytes) (compactSize field.length ++ field) () := by
  intro pre rest h
  have hsize : field.length ≤ bytes.length := by
    simp only [h, length_append]
    omega
  have hskip : Walks bytes (Cursor.skipVarBytes bytes) (compactSize field.length ++ (field ++ [])) () :=
    (count hfit hsize).bind ((take hfit field).bind (pure ()))
  rw [append_nil] at hskip
  exact hskip pre rest h

end

theorem times {item : Cursor Unit} {encodings : List (List UInt8)} (h : ∀ enc ∈ encodings, Walks bytes item enc ()) :
    Walks bytes (Cursor.times item encodings.length) encodings.flatten () := by
  induction encodings with
  | nil => exact pure ()
  | cons enc encodings ih =>
    exact (h enc mem_cons_self).bind
      (ih fun other hmem => h other (mem_cons_of_mem _ hmem))

section
variable (hfit : bytes.length < 2 ^ 64)
include hfit

theorem skipStack (stack : List (List UInt8)) :
    Walks bytes (Cursor.skipStack bytes)
      (compactSize stack.length ++ (stack.map fun item => compactSize item.length ++ item).flatten)
      () := by
  have hitems : Walks bytes (Cursor.times (Cursor.skipVarBytes bytes) stack.length)
      (stack.map fun item => compactSize item.length ++ item).flatten () := by
    rw [← length_map (f := fun item => compactSize item.length ++ item)]
    exact times (forall_mem_map.mpr fun item _ => skipVarBytes hfit item)
  intro pre rest h
  have hsize : stack.length ≤ bytes.length := by
    have hne : ∀ enc ∈ stack.map fun item => compactSize item.length ++ item, enc ≠ [] :=
      forall_mem_map.mpr fun item _ => by simp [compactSize_ne_nil]
    have hle := length_le_flatten hne
    rw [length_map] at hle
    simp only [h, length_append]
    omega
  exact ((count hfit hsize).bind hitems) pre rest h

theorem skipInput (input : TxInput) :
    Walks bytes (Cursor.skipInput bytes) input.serialize () := by
  have hpoint := take hfit (input.prevTxid.toList ++ leBytes 4 input.prevVout.val)
  rw [length_append, length_leBytes, List.Vector.toList_length] at hpoint
  have hsequence : Walks bytes (do
      let _ ← Cursor.take bytes 4
      Pure.pure ()) (leBytes 4 input.sequence.val ++ []) () := by
    have htake := take hfit (leBytes 4 input.sequence.val)
    rw [length_leBytes] at htake
    exact htake.bind (pure ())
  have hinput : Walks bytes (Cursor.skipInput bytes)
      ((input.prevTxid.toList ++ leBytes 4 input.prevVout.val) ++
        ((compactSize input.scriptSig.length ++ input.scriptSig) ++
          (leBytes 4 input.sequence.val ++ []))) () :=
    hpoint.bind ((skipVarBytes hfit input.scriptSig).bind hsequence)
  rw [append_nil, append_assoc] at hinput
  exact hinput

theorem skipOutput (output : ParsedTxOut) :
    Walks bytes (Cursor.skipOutput bytes) output.serialize () := by
  have hamount := take hfit (leBytes 8 output.amountSats.val)
  rw [length_leBytes] at hamount
  exact hamount.bind (skipVarBytes hfit output.scriptPubkey)

end

end Walks

theorem Cursor.bind_apply {α β : Type} (r : Cursor α) (f : α → Cursor β) (start : ℕ) :
    (r >>= f) start = (r start) >>= fun p => f p.1 p.2 := rfl

theorem slice_part (bytes pre part rest : List UInt8)
    (h : bytes = pre ++ (part ++ rest)) : slice bytes pre.length (pre ++ part).length = part := by
  rw [h, slice, ← append_assoc, take_left, drop_left]

section Written

variable {version lockTime : U32} {inputs : List TxInput} {outputs : List ParsedTxOut}

def bodyBytes (inputs : List TxInput) (outputs : List ParsedTxOut) : List UInt8 :=
  (compactSize inputs.length ++ (inputs.map TxInput.serialize).flatten) ++
    (compactSize outputs.length ++ (outputs.map ParsedTxOut.serialize).flatten)

theorem serializeWithWitness_eq : serializeWithWitness version inputs outputs lockTime =
    leBytes 4 version.val ++ ([0, 1] ++ (bodyBytes inputs outputs ++
      ((inputs.map TxInput.serializeWitness).flatten ++ leBytes 4 lockTime.val))) := by
  simp only [serializeWithWitness, bodyBytes, append_assoc]

theorem walkParts_serializeWithWitness {bytes : List UInt8} (hne : inputs ≠ [])
    (hbytes : bytes = serializeWithWitness version inputs outputs lockTime) (hfit : bytes.length < 2 ^ 64) :
    walkParts bytes true 4 = .ok ({
      bodyStart := (leBytes 4 version.val ++ [0, 1]).length
      bodyEnd := ((leBytes 4 version.val ++ [0, 1]) ++ bodyBytes inputs outputs).length
      locktimeStart := (((leBytes 4 version.val ++ [0, 1]) ++ bodyBytes inputs outputs) ++
        (inputs.map TxInput.serializeWitness).flatten).length
      len := bytes.length }, bytes.length) := by
  rw [serializeWithWitness_eq] at hbytes
  have hinputCount : inputs.length ≤ bytes.length := by
    have hle : (inputs.map TxInput.serialize).length ≤ _ := length_le_flatten
      (forall_mem_map.mpr fun input _ => by simp [TxInput.serialize, compactSize_ne_nil])
    rw [length_map] at hle
    simp only [hbytes, bodyBytes, length_append]
    omega
  have houtputCount : outputs.length ≤ bytes.length := by
    have hle : (outputs.map ParsedTxOut.serialize).length ≤ _ := length_le_flatten
      (forall_mem_map.mpr fun output _ => output.serialize_ne_nil)
    rw [length_map] at hle
    simp only [hbytes, bodyBytes, length_append]
    omega
  have hinputs : Walks bytes (Cursor.times (Cursor.skipInput bytes) inputs.length)
      (inputs.map TxInput.serialize).flatten () := by
    rw [← length_map (f := TxInput.serialize)]
    exact Walks.times (forall_mem_map.mpr fun input _ => Walks.skipInput hfit input)
  have houtputs : Walks bytes (Cursor.times (Cursor.skipOutput bytes) outputs.length)
      (outputs.map ParsedTxOut.serialize).flatten () := by
    rw [← length_map (f := ParsedTxOut.serialize)]
    exact Walks.times (forall_mem_map.mpr fun output _ => Walks.skipOutput hfit output)
  have hstacks : Walks bytes (Cursor.times (Cursor.skipStack bytes) inputs.length)
      (inputs.map TxInput.serializeWitness).flatten () := by
    rw [← length_map (f := TxInput.serializeWitness)]
    exact Walks.times (forall_mem_map.mpr fun input _ => Walks.skipStack hfit input.witnessStack)
  have hlocktime := Walks.take hfit (leBytes 4 lockTime.val)
  rw [length_leBytes] at hlocktime
  have hflag : bytes[5]? = some 1 := by
    rw [hbytes]
    rfl
  -- The offsets at which the walk stands, as the lengths of the parts behind it.
  simp only [walkParts, if_true, Cursor.bind_apply, bind_eq_ok]
  have hparts : ∀ {pre part rest : List UInt8}, leBytes 4 version.val ++ ([0, 1] ++
      (compactSize inputs.length ++ ((inputs.map TxInput.serialize).flatten ++
        (compactSize outputs.length ++ ((outputs.map ParsedTxOut.serialize).flatten ++
          ((inputs.map TxInput.serializeWitness).flatten ++ leBytes 4 lockTime.val)))))) =
      pre ++ (part ++ rest) → bytes = pre ++ (part ++ rest) := by
    intro pre part rest h
    rw [hbytes, bodyBytes, ← h]
    simp only [append_assoc]
  refine ⟨⟨(), (leBytes 4 version.val).length⟩, if_pos hflag,
    ⟨[0, 1], _⟩, Walks.take hfit [0, 1] _ _ hbytes, ⟨_, _⟩, rfl,
    ⟨inputs.length, _⟩, Walks.count hfit hinputCount _ _ (hparts (by rw [append_assoc])),
    ⟨(), _⟩, if_pos (length_pos_iff.mpr hne),
    ⟨(), _⟩, hinputs _ _ (hparts (by simp only [append_assoc]; rfl)),
    ⟨outputs.length, _⟩,
    Walks.count hfit houtputCount _ _ (hparts (by simp only [append_assoc]; rfl)),
    ⟨(), _⟩, houtputs _ _ (hparts (by simp only [append_assoc]; rfl)), ⟨_, _⟩, rfl,
    ⟨(), _⟩, hstacks _ _ (hparts (by simp only [append_assoc]; rfl)), ⟨_, _⟩, rfl,
    ⟨leBytes 4 lockTime.val, _⟩,
    hlocktime _ [] (hparts (by simp only [append_assoc, append_nil])), ⟨_, _⟩, rfl, ?_⟩
  simp only [hbytes, bodyBytes, append_assoc]
  rfl

theorem stripWitnessTransaction_serializeWithWitness {bytes : List UInt8} (hne : inputs ≠ [])
    (hbytes : bytes = serializeWithWitness version inputs outputs lockTime) (hfit : bytes.length < 2 ^ 64) :
    stripWitnessTransaction bytes =
      .ok (leBytes 4 version.val ++ unmarked inputs outputs lockTime false) := by
  have hwalk := walkParts_serializeWithWitness hne hbytes hfit
  rw [serializeWithWitness_eq] at hbytes
  have hlong : 10 ≤ bytes.length := by
    simp only [hbytes, length_append, length_leBytes, length_cons, length_nil]
    omega
  have hmarker : decide (bytes[4]? = some 0 ∧ bytes[5]? ≠ some 0) = true := by
    rw [hbytes]
    rfl
  have hversion : slice bytes 0 4 = leBytes 4 version.val := 
    slice_part bytes [] (leBytes 4 version.val) _ hbytes
  have hbody := slice_part bytes (leBytes 4 version.val ++ [0, 1]) (bodyBytes inputs outputs)
    _ (by rw [hbytes, append_assoc])
  have hlocktime := slice_part bytes ((leBytes 4 version.val ++ [0, 1]) ++
    bodyBytes inputs outputs ++ (inputs.map TxInput.serializeWitness).flatten) (leBytes 4 lockTime.val)
    [] (by rw [hbytes]; simp only [append_assoc, append_nil])
  have hlen : (leBytes 4 version.val ++ [0, 1] ++ bodyBytes inputs outputs ++
      (inputs.map TxInput.serializeWitness).flatten ++ leBytes 4 lockTime.val).length =
      bytes.length := by
    rw [hbytes]
    simp only [append_assoc]
  rw [hlen] at hlocktime
  simp only [stripWitnessTransaction, walkTransaction, require_of hlong, hmarker, hwalk, ok_bind,
    pure_eq_ok, bind_eq_ok, require_eq_ok]
  refine ⟨_, rfl, (), rfl, ?_⟩
  rw [hversion, hbody, hlocktime]
  simp only [bodyBytes, unmarked, append_assoc]
  rfl

end Written

end QbitPrism
