import RobotFactory.Fragmentation
import RobotFactory.RecordStream

/-!
# Marshalled messages

The classes of `load_balancer/Messages.cpp`, their encoding in network byte order,
and the calls of the stubs that exchange them over a `Socket`. The loops of `Send` and
`Recv` go on until the whole object is transferred, and close the socket when a call
fails or the stream ends.
-/
namespace RobotFactory.Marshalling
open RecordStream Fragmentation

@[simp] theorem int32Codec_size : int32Codec.size = 4 := rfl

/-- The bytes of the word the other way round: the host is little-endian. -/
def htonl (x : Int32) : Int32 := int32Codec.decode (int32Codec.encode x).reverse

def ntohl (x : Int32) : Int32 := int32Codec.decode (int32Codec.encode x).reverse

theorem encode_htonl (x : Int32) : int32Codec.encode (htonl x) = (int32Codec.encode x).reverse :=
  int32Codec_onto _ (by rw [List.length_reverse, int32Codec.length_encode])

theorem ntohl_htonl (x : Int32) : ntohl (htonl x) = x := by
  rw [ntohl, encode_htonl, List.reverse_reverse, int32Codec.decode_encode]

/-- A word in network byte order. -/
def netInt32Codec : Codec UInt8 Int32 := int32Codec.retract htonl ntohl ntohl_htonl

/-- `memcpy(buffer + offset, &net, sizeof(net))` -/
def storeInt (buffer : List UInt8) (offset : ℕ) (net : Int32) : List UInt8 :=
  overwrite buffer offset (int32Codec.encode net)

/-- `memcpy(&net, buffer + offset, sizeof(net))` -/
def loadInt (buffer : List UInt8) (offset : ℕ) : Int32 :=
  int32Codec.decode ((buffer.drop offset).take int32Codec.size)

structure CustomerRequest where
  customerId : Int32
  orderNumber : Int32
  requestType : Int32
  deriving DecidableEq, Repr

structure RobotInfo where
  customerId : Int32
  orderNumber : Int32
  requestType : Int32
  engineerId : Int32
  adminId : Int32
  deriving DecidableEq, Repr

structure CustomerRecord where
  customerId : Int32
  lastOrder : Int32
  deriving DecidableEq, Repr

namespace CustomerRequest

def new : CustomerRequest := ⟨-1, -1, -1⟩

def size : ℕ := int32Codec.size + int32Codec.size + int32Codec.size

def marshal (request : CustomerRequest) (buffer : List UInt8) : List UInt8 :=
  let netCustomerId := htonl request.customerId
  let netOrderNumber := htonl request.orderNumber
  let netRequestType := htonl request.requestType
  let offset := 0
  let buffer := storeInt buffer offset netCustomerId
  let offset := offset + int32Codec.size
  let buffer := storeInt buffer offset netOrderNumber
  let offset := offset + int32Codec.size
  storeInt buffer offset netRequestType

def unmarshal (buffer : List UInt8) : CustomerRequest :=
  let offset := 0
  let netCustomerId := loadInt buffer offset
  let offset := offset + int32Codec.size
  let netOrderNumber := loadInt buffer offset
  let offset := offset + int32Codec.size
  let netRequestType := loadInt buffer offset
  ⟨ntohl netCustomerId, ntohl netOrderNumber, ntohl netRequestType⟩

end CustomerRequest

namespace RobotInfo

def new : RobotInfo := ⟨-1, -1, -1, -1, -1⟩

def size : ℕ :=
  int32Codec.size + int32Codec.size + int32Codec.size + int32Codec.size + int32Codec.size

def marshal (info : RobotInfo) (buffer : List UInt8) : List UInt8 :=
  let netCustomerId := htonl info.customerId
  let netOrderNumber := htonl info.orderNumber
  let netRequestType := htonl info.requestType
  let netEngineerId := htonl info.engineerId
  let netAdminId := htonl info.adminId
  let offset := 0
  let buffer := storeInt buffer offset netCustomerId
  let offset := offset + int32Codec.size
  let buffer := storeInt buffer offset netOrderNumber
  let offset := offset + int32Codec.size
  let buffer := storeInt buffer offset netRequestType
  let offset := offset + int32Codec.size
  let buffer := storeInt buffer offset netEngineerId
  let offset := offset + int32Codec.size
  storeInt buffer offset netAdminId

def unmarshal (buffer : List UInt8) : RobotInfo :=
  let offset := 0
  let netCustomerId := loadInt buffer offset
  let offset := offset + int32Codec.size
  let netOrderNumber := loadInt buffer offset
  let offset := offset + int32Codec.size
  let netRequestType := loadInt buffer offset
  let offset := offset + int32Codec.size
  let netEngineerId := loadInt buffer offset
  let offset := offset + int32Codec.size
  let netAdminId := loadInt buffer offset
  ⟨ntohl netCustomerId, ntohl netOrderNumber, ntohl netRequestType, ntohl netEngineerId,
    ntohl netAdminId⟩

end RobotInfo

namespace CustomerRecord

def new : CustomerRecord := ⟨-1, -1⟩

def size : ℕ := int32Codec.size + int32Codec.size

def marshal (cr : CustomerRecord) (buffer : List UInt8) : List UInt8 :=
  let netCustomerId := htonl cr.customerId
  let netLastOrder := htonl cr.lastOrder
  let offset := 0
  let buffer := storeInt buffer offset netCustomerId
  let offset := offset + int32Codec.size
  storeInt buffer offset netLastOrder

def unmarshal (buffer : List UInt8) : CustomerRecord :=
  let offset := 0
  let netCustomerId := loadInt buffer offset
  let offset := offset + int32Codec.size
  let netLastOrder := loadInt buffer offset
  ⟨ntohl netCustomerId, ntohl netLastOrder⟩

end CustomerRecord

def customerRequestCodec : Codec UInt8 CustomerRequest :=
  (netInt32Codec.pair (netInt32Codec.pair netInt32Codec)).retract
    (fun x => (x.customerId, x.orderNumber, x.requestType)) (fun x => ⟨x.1, x.2.1, x.2.2⟩)
    (fun _ => rfl)

def robotInfoCodec : Codec UInt8 RobotInfo :=
  (netInt32Codec.pair (netInt32Codec.pair (netInt32Codec.pair
    (netInt32Codec.pair netInt32Codec)))).retract
    (fun x => (x.customerId, x.orderNumber, x.requestType, x.engineerId, x.adminId))
    (fun x => ⟨x.1, x.2.1, x.2.2.1, x.2.2.2.1, x.2.2.2.2⟩) (fun _ => rfl)

def customerRecordCodec : Codec UInt8 CustomerRecord :=
  (netInt32Codec.pair netInt32Codec).retract (fun x => (x.customerId, x.lastOrder))
    (fun x => ⟨x.1, x.2⟩) (fun _ => rfl)

theorem storeInt_zero (buffer : List UInt8) (net : Int32) :
    storeInt buffer 0 net = overwrite buffer 0 (int32Codec.encode net) := rfl

theorem storeInt_overwrite (buffer p : List UInt8) {offset : ℕ} (h : p.length = offset)
    (net : Int32) : storeInt (overwrite buffer 0 p) offset net =
      overwrite buffer 0 (p ++ int32Codec.encode net) := by
  rw [storeInt, ← h, ← overwrite_overwrite p _ (Nat.zero_le _), Nat.zero_add]

/-- A class of messages: its objects are marshalled to the front of a buffer of 32 bytes,
as a codec encodes them, and unmarshalled from there. -/
structure MessageClass (α : Type) where
  new : α
  size : ℕ
  marshal : α → List UInt8 → List UInt8
  unmarshal : List UInt8 → α
  codec : Codec UInt8 α
  size_eq : codec.size = size
  size_le : size ≤ 32
  marshal_eq : ∀ x buffer, marshal x buffer = overwrite buffer 0 (codec.encode x)
  unmarshal_eq : ∀ buffer, unmarshal buffer = codec.decode (buffer.take size)

namespace MessageClass

variable {α : Type} (C : MessageClass α)

theorem size_pos : 0 < C.size := C.size_eq ▸ C.codec.size_pos

theorem length_encode (x : α) : (C.codec.encode x).length = C.size :=
  (C.codec.length_encode x).trans C.size_eq

/-- Marshalling does not write past a buffer of 32 bytes. -/
theorem length_marshal (x : α) {buffer : List UInt8} (h : buffer.length = 32) :
    (C.marshal x buffer).length = 32 := by
  have hle := C.size_le
  rw [C.marshal_eq, length_overwrite, C.length_encode]
  omega

theorem take_overwrite (x : α) (buffer : List UInt8) :
    (overwrite buffer 0 (C.codec.encode x)).take C.size = C.codec.encode x := by
  rw [overwrite, List.take_zero, List.nil_append, List.take_left' (C.length_encode x)]

/-- The bytes to send are those of the object. -/
theorem take_marshal (x : α) (buffer : List UInt8) :
    (C.marshal x buffer).take C.size = C.codec.encode x := by
  rw [C.marshal_eq, C.take_overwrite]

/-- An object that has been received is unmarshalled as it was marshalled. -/
theorem unmarshal_overwrite (x : α) (buffer : List UInt8) :
    C.unmarshal (overwrite buffer 0 (C.codec.encode x)) = x := by
  rw [C.unmarshal_eq, C.take_overwrite, C.codec.decode_encode]

end MessageClass

def customerRequestClass : MessageClass CustomerRequest where
  new := .new
  size := CustomerRequest.size
  marshal := CustomerRequest.marshal
  unmarshal := CustomerRequest.unmarshal
  codec := customerRequestCodec
  size_eq := rfl
  size_le := by decide
  marshal_eq x buffer := by
    simp only [CustomerRequest.marshal, storeInt_zero]
    rw [storeInt_overwrite _ _ (by simp [int32Codec.length_encode]),
      storeInt_overwrite _ _ (by simp [int32Codec.length_encode]), List.append_assoc]
    rfl
  unmarshal_eq buffer := by
    simp [CustomerRequest.unmarshal, CustomerRequest.size, customerRequestCodec, netInt32Codec,
      Codec.retract, Codec.pair, loadInt, List.take_take, List.drop_take]

def robotInfoClass : MessageClass RobotInfo where
  new := .new
  size := RobotInfo.size
  marshal := RobotInfo.marshal
  unmarshal := RobotInfo.unmarshal
  codec := robotInfoCodec
  size_eq := rfl
  size_le := by decide
  marshal_eq x buffer := by
    simp only [RobotInfo.marshal, storeInt_zero]
    rw [storeInt_overwrite _ _ (by simp [int32Codec.length_encode]),
      storeInt_overwrite _ _ (by simp [int32Codec.length_encode]),
      storeInt_overwrite _ _ (by simp [int32Codec.length_encode]),
      storeInt_overwrite _ _ (by simp [int32Codec.length_encode])]
    simp only [List.append_assoc]
    rfl
  unmarshal_eq buffer := by
    simp [RobotInfo.unmarshal, RobotInfo.size, robotInfoCodec, netInt32Codec, Codec.retract,
      Codec.pair, loadInt, List.take_take, List.drop_take]

def customerRecordClass : MessageClass CustomerRecord where
  new := .new
  size := CustomerRecord.size
  marshal := CustomerRecord.marshal
  unmarshal := CustomerRecord.unmarshal
  codec := customerRecordCodec
  size_eq := rfl
  size_le := by decide
  marshal_eq x buffer := by
    simp only [CustomerRecord.marshal, storeInt_zero]
    rw [storeInt_overwrite _ _ (by simp [int32Codec.length_encode])]
    rfl
  unmarshal_eq buffer := by
    simp [CustomerRecord.unmarshal, CustomerRecord.size, customerRecordCodec, netInt32Codec,
      Codec.retract, Codec.pair, loadInt, List.take_take, List.drop_take]

end RobotFactory.Marshalling
