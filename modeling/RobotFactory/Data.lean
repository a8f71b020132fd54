import Mathlib.Data.Finmap
import RobotFactory.RecordStream
import RobotFactory.ReplayLog

/-!
# Data structures of the robot factory

The structures of `RobotFactory.h` and the operations of the standard containers
that hold them. Fields of `map_op`, `robot_inf` and `wal_smr_entry` are 32-bit
words, since the log file stores their bytes. Log indices and factory ids are
the mathematical values of the `int` members, with the sentinel `-1` of the source;
`intSucc` is the increment of such a member. A factory record keeps the id of the
factory in place of its address.
-/
namespace RobotFactory
open RecordStream ReplayLog

/-- State machine log entry. -/
structure MapOp where
  opcode : Int32
  arg1 : Int32
  arg2 : Int32
  deriving DecidableEq, Repr

/-- A request of a client: an order for `requestType` 1, a read for 2. -/
structure OrderInf where
  customerId : Int32
  orderNumber : Int32
  requestType : Int32
  deriving DecidableEq, Repr

/-- The reply to a read; `lastOrder` is -1 for a customer without a record. -/
structure CRec where
  customerId : Int32
  lastOrder : Int32
  deriving DecidableEq, Repr

/-- A robot, or the commit marker when `customerId` is -1. -/
structure RobotInf where
  customerId : Int32
  orderNumber : Int32
  requestType : Int32
  engineerId : Int32
  adminId : Int32
  deriving DecidableEq, Repr

/-- Replication request. -/
structure ReplReq where
  factoryId : ℤ
  committedIndex : ℤ
  lastIndex : ℤ
  mapopRecord : MapOp
  deriving DecidableEq, Repr

/-- `lastIndex` is the last index of the log that has data, `committedIndex` the
last index whose entry is applied to the customer record. -/
structure SmrLcommit where
  lastIndex : ℤ
  committedIndex : ℤ
  primaryId : ℤ
  factoryId : ℤ
  deriving DecidableEq, Repr

/-- A peer and the socket on which it is reached, negative when there is none. -/
structure FactoryRec where
  factoryId : ℤ
  socket : ℤ
  deriving DecidableEq, Repr

/-- Record of the commit log file. -/
structure WalSmrEntry where
  index : Int32
  length : UInt32
  data : MapOp
  cksum : UInt32
  deriving DecidableEq, Repr

def mapOpCodec : Codec UInt8 MapOp :=
  (int32Codec.pair (int32Codec.pair int32Codec)).retract
    (fun op => (op.opcode, op.arg1, op.arg2)) (fun x => ⟨x.1, x.2.1, x.2.2⟩) (fun _ => rfl)

/-- The members of a `wal_smr_entry` in memory; the layout has no padding. -/
def walSmrEntryCodec : Codec UInt8 WalSmrEntry :=
  (int32Codec.pair (uint32Codec.pair (mapOpCodec.pair uint32Codec))).retract
    (fun e => (e.index, e.length, e.data, e.cksum)) (fun x => ⟨x.1, x.2.1, x.2.2.1, x.2.2.2⟩)
    (fun _ => rfl)

@[simp] theorem mapOpCodec_size : mapOpCodec.size = 12 := rfl

@[simp] theorem walSmrEntryCodec_size : walSmrEntryCodec.size = 24 := rfl

/-- `std::map<int, int>` from customers to their last committed order. -/
abbrev CustomerRecord := Finmap (fun _ : Int32 => Int32)

def CustomerRecord.apply (record : CustomerRecord) (op : MapOp) : CustomerRecord :=
  record.insert op.arg1 op.arg2

theorem CustomerRecord.apply_idempotent : IdempotentApply CustomerRecord.apply := by
  intro record op
  exact Finmap.insert_insert record

def replayRecord (log : List MapOp) : CustomerRecord := replay CustomerRecord.apply ∅ log

/-- Ways in which a thread of the server leaves the defined behaviour of C++:
`at` throws `std::out_of_range`, an `insert` position lies behind the end of the
vector, an array is allocated with a negative length, or an `int` overflows. -/
inductive Fault where
  | outOfRange
  | badInsertPosition
  | badArrayLength
  | intOverflow
  deriving DecidableEq, Repr

def intMax : ℤ := 2147483647

def intSucc (i : ℤ) : Except Fault ℤ := if i < intMax then .ok (i + 1) else .error .intOverflow

theorem intSucc_of_lt {i : ℤ} (h : i < intMax) : intSucc i = .ok (i + 1) := if_pos h

theorem intSucc_eq_ok_iff {i j : ℤ} : intSucc i = .ok j ↔ i < intMax ∧ i + 1 = j := by
  unfold intSucc
  split_ifs with h <;> simp [h]

@[simp] theorem ok_bind {ε α β : Type} (x : α) (f : α → Except ε β) : (.ok x >>= f) = f x := rfl

theorem bind_eq_ok {ε α β : Type} {x : Except ε α} {f : α → Except ε β} {y : β} :
    x >>= f = .ok y ↔ ∃ a, x = .ok a ∧ f a = .ok y := by
  cases x with
  | error e => simp [bind, Except.bind]
  | ok a => simp

/-- `v.insert(v.begin() + i, x)`. -/
def vectorInsert {α : Type*} (v : List α) (i : ℤ) (x : α) : Except Fault (List α) :=
  if 0 ≤ i ∧ i ≤ v.length then .ok (v.insertIdx i.toNat x) else .error .badInsertPosition

/-- `v.at(i)`. -/
def vectorAt {α : Type*} (v : List α) (i : ℤ) : Except Fault α :=
  if i < 0 then .error .outOfRange
  else match v[i.toNat]? with
    | some x => .ok x
    | none => .error .outOfRange

theorem vectorInsert_of_le {α : Type*} {v : List α} {i : ℤ} (x : α) (h0 : 0 ≤ i)
    (hle : i ≤ v.length) : vectorInsert v i x = .ok (v.insertIdx i.toNat x) :=
  if_pos ⟨h0, hle⟩

theorem vectorInsert_eq_ok_iff {α : Type*} {v w : List α} {i : ℤ} {x : α} :
    vectorInsert v i x = .ok w ↔ (0 ≤ i ∧ i ≤ v.length) ∧ v.insertIdx i.toNat x = w := by
  unfold vectorInsert
  split_ifs with h <;> simp [h]

theorem vectorAt_eq_ok_iff {α : Type*} {v : List α} {i : ℤ} {x : α} :
    vectorAt v i = .ok x ↔ 0 ≤ i ∧ v[i.toNat]? = some x := by
  unfold vectorAt
  split_ifs with h
  · simp
    omega
  · have h0 : 0 ≤ i := by omega
    cases v[i.toNat]? <;> simp [h0]

theorem vectorAt_of_lt {α : Type*} {v : List α} {i : ℤ} (h0 : 0 ≤ i) (hlt : i.toNat < v.length) :
    vectorAt v i = .ok v[i.toNat] :=
  vectorAt_eq_ok_iff.mpr ⟨h0, List.getElem?_eq_getElem hlt⟩

end RobotFactory
