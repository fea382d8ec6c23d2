import AlgodRust.Ledger.Types
/-!
# Canonical — the canonical encoding of transactions

A record is a map from short names to values, sorted by name, in which zero and empty values are left out.  Since an
encoding is uniquely readable, equal encodings have the same value under every name (`canonicalMap_inj`); what is lost
is the difference between a field that is absent and one that holds zeros.
-/
namespace Algod
namespace Codec

open Msgpack Ledger

/-! ## Fields -/

def utf8 (s : String) : Bytes := s.toUTF8.data.toList

def addU64 (n : Nat) : Option Value := if n ≠ 0 then some (.uint n) else none
def addBool (b : Bool) : Option Value := if b then some (.bool true) else none
def addString (s : String) : Option Value := if s.isEmpty then none else some (.str (utf8 s))

/-- Bytes of a fixed length, left out where all are zero. -/
def addBytes {w : Nat} (b : BitVec w) : Option Value := if b ≠ 0 then some (.bin (beBytes (w / 8) b.toNat)) else none

/-- Bytes of any length, left out where there are none. -/
def addVarBytes (bs : Bytes) : Option Value := if bs ≠ [] then some (.bin bs) else none

def addStrBytes (bs : Bytes) : Option Value := if bs ≠ [] then some (.str bs) else none
def addAddress (a : Address) : Option Value := addBytes a.bytes

/-- A nested map, left out where it is empty. -/
def addMap : Value → Option Value
  | .map [] => none
  | v => some v

def addOptionAddress (a : Option Address) : Option Value := a.bind addAddress
def addOptionBytes (bs : Option Bytes) : Option Value := bs.bind addVarBytes
def addOptionFixedBytes {w : Nat} (b : Option (BitVec w)) : Option Value := b.bind addBytes
def addOptionMap (v : Option Value) : Option Value := v.bind addMap

/-- A string that is not UTF-8 counts as empty. -/
def isRmpvEmpty : Value → Bool
  | .nil => true
  | .map kvs => kvs.isEmpty
  | .array vs => vs.isEmpty
  | .bin bs => bs.isEmpty
  | .str bs => (String.fromUTF8? ⟨bs.toArray⟩).all String.isEmpty
  | _ => false

def addOptionRmpv (v : Option Value) : Option Value := v.bind (fun v => if isRmpvEmpty v then none else some v)

/-- An array, left out where it is empty. -/
def addOptionVec {α : Type} (item : α → Value) (xs : Option (List α)) : Option Value :=
  xs.bind (fun xs => if xs.isEmpty then none else some (.array (xs.map item)))

def addOptionVecBytes (xs : Option (List (Option Bytes))) : Option Value :=
  addOptionVec (fun x => (x.map Value.bin).getD .nil) xs

def addOptionVecAddress (xs : Option (List Address)) : Option Value :=
  addOptionVec (fun a => .bin (beBytes 32 a.bytes.toNat)) xs

def addOptionVecU64 (xs : Option (List Nat)) : Option Value := addOptionVec Value.uint xs

section Inj

variable {w : Nat}

theorem addU64_inj {a b : Nat} (h : addU64 a = addU64 b) : a = b := by
  unfold addU64 at h
  split at h <;> split at h <;> simp_all

theorem addBool_inj {a b : Bool} (h : addBool a = addBool b) : a = b := by
  unfold addBool at h
  split at h <;> split at h <;> simp_all

theorem addStrBytes_inj {a b : Bytes} (h : addStrBytes a = addStrBytes b) : a = b := by
  unfold addStrBytes at h
  split at h <;> split at h <;> simp_all

theorem utf8_inj {a b : String} (h : utf8 a = utf8 b) : a = b := by
  unfold utf8 at h
  exact String.toByteArray_inj.1 (ByteArray.ext (Array.toList_inj.1 h))

theorem addString_inj {a b : String} (h : addString a = addString b) : a = b := by
  unfold addString at h
  split at h <;> split at h
  · simp_all
  · cases h
  · cases h
  · exact utf8_inj (Value.str.inj (Option.some.inj h))

theorem toNat_lt_pow (hw : 8 * (w / 8) = w) (a : BitVec w) : a.toNat < 256 ^ (w / 8) := by
  have hpow : 256 ^ (w / 8) = 2 ^ w := by
    rw [show (256 : Nat) = 2 ^ 8 from rfl, ← Nat.pow_mul, hw]
  rw [hpow]
  exact a.isLt

theorem addBytes_inj (hw : 8 * (w / 8) = w) {a b : BitVec w} (h : addBytes a = addBytes b) : a = b := by
  unfold addBytes at h
  split at h <;> split at h
  · have hb := Value.bin.inj (Option.some.inj h)
    exact BitVec.eq_of_toNat_eq (beBytes_inj (toNat_lt_pow hw a) (toNat_lt_pow hw b) hb)
  · cases h
  · cases h
  · simp_all

theorem addBytes_zero : addBytes (0 : BitVec w) = none := if_neg (not_not.2 rfl)

/-- An optional field of fixed length determines its value, read as zeros where it is absent. -/
theorem addOptionFixedBytes_inj (hw : 8 * (w / 8) = w) {a b : Option (BitVec w)}
    (h : addOptionFixedBytes a = addOptionFixedBytes b) : a.getD 0 = b.getD 0 := by
  have key : ∀ o : Option (BitVec w), addOptionFixedBytes o = addBytes (o.getD 0) := by
    intro o
    cases o with
    | none => exact addBytes_zero.symm
    | some x => rfl
  rw [key, key] at h
  exact addBytes_inj hw h

theorem addAddress_inj {a b : Address} (h : addAddress a = addAddress b) : a = b := by
  obtain ⟨a⟩ := a
  obtain ⟨b⟩ := b
  exact congrArg Address.mk (addBytes_inj rfl h)

theorem addOptionAddress_inj {a b : Option Address} (h : addOptionAddress a = addOptionAddress b) :
    a.getD Address.zero = b.getD Address.zero := by
  have key : ∀ o : Option Address, addOptionAddress o = addAddress (o.getD Address.zero) := by
    intro o
    cases o with
    | none => exact addBytes_zero.symm
    | some x => rfl
  rw [key, key] at h
  exact addAddress_inj h

theorem addMap_inj {v v' : Value} (h : addMap v = addMap v') : v = v' := by
  unfold addMap at h
  split at h <;> split at h <;> simp_all

theorem addOptionMap_inj {v v' : Option Value} (h : addOptionMap v = addOptionMap v') :
    v.getD (.map []) = v'.getD (.map []) := by
  have key : ∀ o : Option Value, addOptionMap o = addMap (o.getD (.map [])) := by
    intro o
    cases o <;> rfl
  rw [key, key] at h
  exact addMap_inj h

theorem addOptionVec_inj {α : Type} {item : α → Value} (hitem : Function.Injective item) {xs ys : Option (List α)}
    (h : addOptionVec item xs = addOptionVec item ys) : xs.getD [] = ys.getD [] := by
  have key : ∀ o : Option (List α), addOptionVec item o =
      if (o.getD []).isEmpty then none else some (.array ((o.getD []).map item)) := by
    intro o
    cases o <;> rfl
  rw [key, key] at h
  split at h <;> split at h
  · simp_all
  · cases h
  · cases h
  · exact hitem.list_map (Value.array.inj (Option.some.inj h))

theorem addOptionVecAddress_inj {xs ys : Option (List Address)} (h : addOptionVecAddress xs = addOptionVecAddress ys) :
    xs.getD [] = ys.getD [] := by
  refine addOptionVec_inj ?_ h
  intro a b hab
  obtain ⟨a⟩ := a
  obtain ⟨b⟩ := b
  exact congrArg Address.mk (BitVec.eq_of_toNat_eq (beBytes_inj a.isLt b.isLt (Value.bin.inj hab)))

end Inj

/-! ## Maps -/

/-- A name with the value under it, if it is not left out. -/
abbrev Field := String × Option Value

def presentFields (fields : List Field) : List (String × Value) :=
  fields.filterMap (fun f => f.2.map (fun v => (f.1, v)))

def sortFields (fields : List (String × Value)) : List (String × Value) :=
  fields.mergeSort (fun a b => (compare (utf8 a.1) (utf8 b.1)).isLE)

theorem sortFields_perm (fields : List (String × Value)) : (sortFields fields).Perm fields := List.mergeSort_perm _ _

def canonicalMap (fields : List Field) : Value :=
  .map ((sortFields (presentFields fields)).flatMap (fun kv => [.str (utf8 kv.1), kv.2]))

variable {fields : List Field}

theorem canonicalMap_eq_empty (h : presentFields fields = []) : canonicalMap fields = .map [] := by
  unfold canonicalMap sortFields
  rw [h, List.mergeSort_nil]
  rfl

/-- Fields that are listed in order stay in that order. -/
theorem canonicalMap_of_sorted
    (h : (presentFields fields).Pairwise (fun a b => (compare (utf8 a.1) (utf8 b.1)).isLE = true)) :
    canonicalMap fields = .map ((presentFields fields).flatMap (fun kv => [.str (utf8 kv.1), kv.2])) := by
  unfold canonicalMap sortFields
  rw [List.mergeSort_of_pairwise h]

/-- A map of short names and valid values is valid, in whatever order its fields are written. -/
theorem canonicalMap_valid (hlen : (presentFields fields).length < 2 ^ 32)
    (h : (presentFields fields).all (fun kv => decide ((utf8 kv.1).length < 2 ^ 32) && kv.2.valid) = true) :
    (canonicalMap fields).valid = true := by
  have hperm := sortFields_perm (presentFields fields)
  have hflat : ∀ l : List (String × Value), (l.flatMap (fun kv => [Value.str (utf8 kv.1), kv.2])).length = 2 * l.length := by
    intro l
    induction l with
    | nil => rfl
    | cons kv l ih =>
      simp only [List.flatMap_cons, List.length_append, List.length_cons, List.length_nil, ih]
      omega
  simp only [canonicalMap, Value.valid, Bool.and_eq_true, decide_eq_true_eq, hflat, hperm.length_eq, Value.allValid_iff]
  refine ⟨⟨by omega, by omega⟩, ?_⟩
  intro v hv
  obtain ⟨kv, hkv, hv⟩ := List.mem_flatMap.1 hv
  have hvalid := List.all_eq_true.1 h kv (hperm.mem_iff.1 hkv)
  simp only [Bool.and_eq_true, decide_eq_true_eq] at hvalid
  simp only [List.mem_cons, List.not_mem_nil, or_false] at hv
  rcases hv with rfl | rfl
  · exact decide_eq_true hvalid.1
  · exact hvalid.2

theorem flatMap_pairs_inj : ∀ {l m : List (String × Value)},
    l.flatMap (fun kv => [Value.str (utf8 kv.1), kv.2]) = m.flatMap (fun kv => [Value.str (utf8 kv.1), kv.2]) → l = m
  | [], [], _ => rfl
  | [], _ :: _, h => by cases h
  | _ :: _, [], h => by cases h
  | (k, v) :: l, (k', v') :: m, h => by
    simp only [List.flatMap_cons, List.cons_append, List.nil_append, List.cons.injEq, Value.str.injEq] at h
    obtain ⟨hk, rfl, hrest⟩ := h
    rw [utf8_inj hk, flatMap_pairs_inj hrest]

theorem mem_presentFields {k : String} {v : Value} :
    (k, v) ∈ presentFields fields ↔ (k, some v) ∈ fields := by
  unfold presentFields
  rw [List.mem_filterMap]
  constructor
  · rintro ⟨⟨k', o⟩, hmem, ho⟩
    obtain ⟨v', rfl, hv⟩ := Option.map_eq_some_iff.1 ho
    cases hv
    exact hmem
  · intro hmem
    exact ⟨(k, some v), hmem, rfl⟩

/-- A name occurs once, so the value under it is determined by the map. -/
theorem field_eq_of_mem_iff : ∀ {f g : List Field}, f.map Prod.fst = g.map Prod.fst → (f.map Prod.fst).Nodup →
    (∀ k v, (k, some v) ∈ f ↔ (k, some v) ∈ g) → f = g
  | [], [], _, _, _ => rfl
  | (k, o) :: f, (k', o') :: g, hk, hn, h => by
    simp only [List.map_cons, List.cons.injEq, List.nodup_cons] at hk hn
    obtain ⟨rfl, hkeys⟩ := hk
    have hfresh : ∀ v, (k, v) ∉ f := fun v hm => hn.1 (List.mem_map_of_mem hm)
    have hfresh' : ∀ v, (k, v) ∉ g := by
      intro v hm
      apply hn.1
      rw [hkeys]
      exact List.mem_map_of_mem hm
    have ho : o = o' := by
      apply Option.ext
      intro v
      have hv := h k v
      simp only [List.mem_cons, Prod.mk.injEq, true_and, hfresh (some v), hfresh' (some v), or_false] at hv
      rw [eq_comm, hv, eq_comm]
    have hrest : ∀ j v, (j, some v) ∈ f ↔ (j, some v) ∈ g := by
      intro j v
      have hv := h j v
      by_cases hj : j = k
      · subst hj
        exact iff_of_false (hfresh _) (hfresh' _)
      · simpa only [List.mem_cons, Prod.mk.injEq, hj, false_and, false_or] using hv
    rw [ho, field_eq_of_mem_iff hkeys hn.2 hrest]

/-- **Equal maps have equal fields.** -/
theorem canonicalMap_inj {f g : List Field} (hk : f.map Prod.fst = g.map Prod.fst) (hn : (f.map Prod.fst).Nodup)
    (h : canonicalMap f = canonicalMap g) : f = g := by
  have hsorted : sortFields (presentFields f) = sortFields (presentFields g) := flatMap_pairs_inj (Value.map.inj h)
  have hperm : (presentFields f).Perm (presentFields g) := by
    refine (sortFields_perm _).symm.trans ?_
    rw [hsorted]
    exact sortFields_perm _
  refine field_eq_of_mem_iff hk hn (fun k v => ?_)
  rw [← mem_presentFields, ← mem_presentFields]
  exact hperm.mem_iff

/-! ## Transactions -/

def canonicalStateSchema (schema : StateSchema) : Value :=
  canonicalMap [("nbs", addU64 schema.numByteSlice), ("nui", addU64 schema.numUint)]

def canonicalBoxRef (b : BoxRef) : Value :=
  canonicalMap [("i", addU64 b.index), ("n", addOptionBytes b.name)]

def assetParamsFields (p : AssetParams) : List Field :=
  [("am", addOptionFixedBytes p.metadataHash),
   ("an", addStrBytes p.assetName),
   ("au", addStrBytes p.url),
   ("c", addOptionAddress p.clawback),
   ("dc", addU64 p.decimals),
   ("df", addBool p.defaultFrozen),
   ("f", addOptionAddress p.freeze),
   ("m", addOptionAddress p.manager),
   ("r", addOptionAddress p.reserve),
   ("t", addU64 p.total),
   ("un", addStrBytes p.unitName)]

def canonicalAssetParams (p : AssetParams) : Value := canonicalMap (assetParamsFields p)

def heartbeatFields (hb : HeartbeatTxnFields) : List Field :=
  [("a", addAddress hb.address),
   ("c", addBool hb.hbChallengeDiscount),
   ("kd", addU64 hb.keyDilution),
   ("prf", addOptionMap hb.proof),
   ("sd", addBytes hb.seed),
   ("vid", addBytes hb.voteId)]

def canonicalHeartbeat (hb : HeartbeatTxnFields) : Value := canonicalMap (heartbeatFields hb)

/-- The fields of a transaction, with the genesis fields and the group taken from elsewhere. -/
def transactionFields (tx : Transaction) (genesisId : String) (genesisHash group : Bytes32) : List Field :=
  [("aamt", addU64 tx.assetAmount),
   ("al", addOptionVec id tx.access),
   ("aclose", addOptionAddress tx.assetCloseTo),
   ("afrz", addBool tx.assetFrozen),
   ("amt", addU64 tx.amount),
   ("apaa", addOptionVecBytes tx.appArguments),
   ("apan", addU64 tx.onCompletion),
   ("apap", addOptionBytes tx.approvalProgram),
   ("apas", addOptionVecU64 tx.foreignAssets),
   ("apat", addOptionVecAddress tx.accounts),
   ("apbx", addOptionVec canonicalBoxRef tx.boxes),
   ("apep", addU64 tx.extraProgramPages),
   ("apfa", addOptionVecU64 tx.foreignApps),
   ("apgs", addOptionMap (tx.globalStateSchema.map canonicalStateSchema)),
   ("apid", addU64 tx.applicationId),
   ("apls", addOptionMap (tx.localStateSchema.map canonicalStateSchema)),
   ("aprv", addU64 tx.rejectVersion),
   ("apsu", addOptionBytes tx.clearStateProgram),
   ("apar", addOptionMap (tx.assetParams.map canonicalAssetParams)),
   ("arcv", addOptionAddress tx.assetReceiver),
   ("asnd", addOptionAddress tx.assetSender),
   ("caid", addU64 tx.configAsset),
   ("close", addAddress tx.closeRemainderTo),
   ("fadd", addOptionAddress tx.freezeAccount),
   ("faid", addU64 tx.freezeAsset),
   ("fee", addU64 tx.fee),
   ("fv", addU64 tx.firstValid),
   ("gen", addString genesisId),
   ("gh", addBytes genesisHash),
   ("grp", addBytes group),
   ("hb", addOptionMap (tx.heartbeat.map canonicalHeartbeat)),
   ("lv", addU64 tx.lastValid),
   ("lx", addBytes tx.lease),
   ("nonpart", addBool tx.nonParticipation),
   ("note", addVarBytes tx.note),
   ("rcv", addAddress tx.receiver),
   ("rekey", addOptionAddress tx.rekeyTo),
   ("selkey", addOptionFixedBytes tx.selectionPk),
   ("snd", addAddress tx.sender),
   ("sp", addOptionMap tx.stateProof),
   ("spmsg", addOptionMap tx.stateProofMessage),
   ("sptype", addU64 tx.stateProofType),
   ("sprfkey", addOptionFixedBytes tx.stateProofPk),
   ("type", addString tx.txnType.asStr),
   ("votefst", addU64 tx.voteFirst),
   ("votekey", addOptionFixedBytes tx.votePk),
   ("votekd", addU64 tx.voteKeyDilution),
   ("votelst", addU64 tx.voteLast),
   ("xaid", addU64 tx.xaid)]

/-- A transaction as a value to be encoded. -/
def canonicalTransaction (tx : Transaction) : Value :=
  canonicalMap (transactionFields tx tx.genesisId tx.genesisHash tx.group)

def canonicalEncodeTransaction (tx : Transaction) : Bytes := (canonicalTransaction tx).encode

/-- The fields of a transaction as a block's payset holds it, with what its execution recorded. -/
def signedTxnInBlockFields (stx : SignedTransaction) : List Field :=
  [("aca", addU64 stx.assetClosingAmount),
   ("apid", addU64 stx.applyDataApplicationId),
   ("ca", addU64 stx.closingAmount),
   ("caid", addU64 stx.applyDataConfigAsset),
   ("dt", addOptionRmpv stx.evalDelta),
   ("hgh", addBool stx.hasGenesisHash),
   ("hgi", addBool stx.hasGenesisId),
   ("lsig", stx.lsig),
   ("msig", stx.msig),
   ("pqsig", addOptionMap stx.pqsig),
   ("rc", addU64 stx.closeRewards),
   ("rr", addU64 stx.receiverRewards),
   ("rs", addU64 stx.senderRewards),
   ("sig", addBytes stx.sig),
   ("sgnr", addOptionAddress stx.authAddr),
   ("txn", addMap (canonicalTransaction stx.txn))]

def canonicalEncodeSignedTxnInBlock (stx : SignedTransaction) : Bytes :=
  (canonicalMap (signedTxnInBlockFields stx)).encode

/-- The integers of a transaction are 64-bit, and its strings and lists are shorter than `2 ^ 32`. -/
def Encodable (tx : Transaction) : Prop := (canonicalTransaction tx).valid = true

/-- The names of a transaction's fields are distinct. -/
theorem transactionFields_nodup (tx : Transaction) (genesisId : String) (genesisHash group : Bytes32) :
    ((transactionFields tx genesisId genesisHash group).map Prod.fst).Nodup := by
  simp only [transactionFields, List.map_cons, List.map_nil]
  decide

/-- **Equal encodings come from equal fields.** -/
theorem transactionFields_eq {t t' : Transaction} (hv : Encodable t) (hv' : Encodable t')
    (h : canonicalEncodeTransaction t = canonicalEncodeTransaction t') :
    transactionFields t t.genesisId t.genesisHash t.group = transactionFields t' t'.genesisId t'.genesisHash t'.group :=
  canonicalMap_inj rfl (transactionFields_nodup _ _ _ _) (Value.encode_inj hv hv' h)

end Codec
end Algod
