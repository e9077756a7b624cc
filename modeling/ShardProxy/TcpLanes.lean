/-
The TCP lanes: a connection's bytes are cut into items, and each item is handed
to the forwarder.  The framed loop cuts by the declared payload length, the
record loops by the grammar of their class through the object reader of another
repository.  Each of them bounds what it reads, and the bounds are not the same.
-/
import ShardProxy.Dispatch
import ShardProxy.Lib.StreamLoop

namespace ShardProxy

open ByteField

/-- The classes of objects a stream may carry. -/
inductive ObjClass where
  | tx
  | beef
  | subtree
  | block
deriving DecidableEq

/-- Why the object reader stopped: an object over its maximum, or anything else. -/
inductive ReadError where
  | tooLarge
  | other
deriving DecidableEq

def headerSizeLegacy : Nat := 44
def subtreeGroupAnnounceSize : Nat := 64
/-- `objfmt.DefaultMaxObject` -/
def defaultMaxObject : Nat := 64 * 2 ^ 20
/-- `DefaultMaxObjectBytes` of the push lanes -/
def defaultMaxObjectBytes : Nat := 256 * 2 ^ 20
/-- `objfmt.BEEFRecordMaxEnvelope`: four bytes, fifteen topics and a length. -/
def beefRecordMaxEnvelope : Nat := 4 + 15 * 65 + 4

/-- What the lanes call and do not define: the object reader under a maximum, the
reframing of a push object, and the message type of a group announce, which is no
frame version. -/
structure Objfmt where
  next : ObjClass → Int → Bytes → Except ReadError (Bytes × Bytes)
  multicastBytes : ObjClass → Bytes → Option Bytes
  msgTypeSubtreeGroupAnnounce : UInt8
  announce_ne : ∀ version ∈ [frameVerV1, frameVerV2, frameVerV4, frameVerV5, frameVerV6,
    frameVerV9], version ≠ msgTypeSubtreeGroupAnnounce

/-- What the forwarder is handed: a datagram to route under a class, a control
datagram, or a bare transaction. -/
inductive Handed where
  | dispatchClass (raw : Bytes) (cls : IngressClass)
  | forwardControl (raw : Bytes)
  | dispatchBareTx (tx : Bytes)
deriving DecidableEq

def Handed.raw : Handed → Bytes
  | .dispatchClass raw _ => raw
  | .forwardControl raw => raw
  | .dispatchBareTx tx => tx

/-- Why a connection is closed. -/
inductive Close where
  | detect
  | header
  | badMagic
  | announce
  | headerExtension
  | version
  | streamCeiling
  | beefBound
  | payload
  | read (error : ReadError)
  | reframe
deriving DecidableEq

section Lanes

variable (fmt : Objfmt) (fw : Forwarder) (remote : NetAddr)

/-- How many bytes a reader may buffer for one record from a source; zero for no
bound. -/
def beefRecordBound (src : Option NetAddr) : Int :=
  if beefObjectBoundFor fw src ≤ 0 then 0 else beefObjectBoundFor fw src + beefRecordMaxEnvelope

/-- Header size and declared payload length of a frame version, from a header that
is there. -/
def frameSizes (stream : Bytes) : Except Close (Nat × Nat) :=
  if byteAt stream 6 = frameVerV1 then .ok (headerSizeLegacy, (uint32At stream 40).toNat)
  else if byteAt stream 6 ∈ [frameVerV2, frameVerV4, frameVerV5, frameVerV6, frameVerV9] then
    if stream.length < headerSize then .error .headerExtension
    else .ok (headerSize, (uint32At stream 88).toNat)
  else .error .version

/-- Read a frame of a header and a declared payload, within the stream ceiling and,
for a BEEF frame, the configured object bound. -/
def readFrame (cls : IngressClass) (stream : Bytes) : Except Close (Handed × Bytes) :=
  match frameSizes stream with
  | .error close => .error close
  | .ok (hdrSize, payLen) =>
      if defaultMaxObject < payLen then .error .streamCeiling
      else if byteAt stream 6 = frameVerV9 ∧ 0 < fw.beefMaxObject ∧
          fw.beefMaxObject < (payLen : Int) then .error .beefBound
      else if stream.length < hdrSize + payLen then .error .payload
      else .ok (.dispatchClass (stream.take (hdrSize + payLen)) cls,
        stream.drop (hdrSize + payLen))

/-- One round of the framed loop. -/
def framedNext (cls : IngressClass) (stream : Bytes) : Except Close (Handed × Bytes) :=
  if stream.length < headerSizeLegacy then .error .header
  else if uint32At stream 0 ≠ magicBSV then .error .badMagic
  else if byteAt stream 6 = fmt.msgTypeSubtreeGroupAnnounce then
    if stream.length < subtreeGroupAnnounceSize then .error .announce
    else .ok (.forwardControl (stream.take subtreeGroupAnnounceSize),
      stream.drop subtreeGroupAnnounceSize)
  else readFrame fw cls stream

/-- One round of `handleBEEFConn`. -/
def beefNext (cls : IngressClass) (stream : Bytes) : Except Close (Handed × Bytes) :=
  let bound := beefRecordBound fw (some remote)
  match fmt.next .beef (if 0 < bound then bound else defaultMaxObject) stream with
  | .error error => .error (.read error)
  | .ok (rec, rest) => .ok (.dispatchClass rec cls, rest)

/-- One round of `handleBareConn`. -/
def bareNext (stream : Bytes) : Except Close (Handed × Bytes) :=
  match fmt.next .tx defaultMaxObject stream with
  | .error error => .error (.read error)
  | .ok (tx, rest) => .ok (.dispatchBareTx tx, rest)

/-- `TCPIngress.handleConn`: the first bytes settle the grammar. -/
def tcpHandleConn (cls : IngressClass) (fuel : Nat) (stream : Bytes) :
    List Handed × Option Close :=
  if stream.length < 4 then ([], some .detect)
  else if uint16At stream 0 = beefRecordTag then
    StreamLoop.loop (beefNext fmt fw remote cls) fuel stream
  else if uint32At stream 0 = magicBSV then
    StreamLoop.loop (framedNext fmt fw cls) fuel stream
  else StreamLoop.loop (bareNext fmt) fuel stream

/-- One round of `ObjectIngress.handleConn` for a lane of a class and maximum. -/
def objectNext (cls : ObjClass) (maxObject : Int) (stream : Bytes) :
    Except Close (Handed × Bytes) :=
  let bound := beefRecordBound fw (some remote)
  match fmt.next cls (if cls = .beef ∧ 0 < bound then bound else maxObject) stream with
  | .error error => .error (.read error)
  | .ok (object, rest) =>
      if cls = .beef then .ok (.dispatchClass object .beef, rest)
      else
        match fmt.multicastBytes cls object with
        | none => .error .reframe
        | some raw => .ok (.dispatchClass raw .privileged, rest)

/-- `ObjectIngress.handleConn` -/
def objectHandleConn (cls : ObjClass) (maxObject : Int) (fuel : Nat) (stream : Bytes) :
    List Handed × Option Close :=
  StreamLoop.loop (objectNext fmt fw remote cls maxObject) fuel stream

end Lanes

section Frames

/-- The header size of a frame version, and where its payload length stands. -/
def frameShape (version : UInt8) : Option (Nat × Nat) :=
  if version = frameVerV1 then some (headerSizeLegacy, 40)
  else if version ∈ [frameVerV2, frameVerV4, frameVerV5, frameVerV6, frameVerV9] then
    some (headerSize, 88)
  else none

variable {fmt : Objfmt} {fw : Forwarder} {cls : IngressClass}

/-- A length field ends the header it stands in. -/
theorem frameShape_sizes {version : UInt8} {hdrSize lenAt : Nat}
    (hshape : frameShape version = some (hdrSize, lenAt)) :
    headerSizeLegacy ≤ hdrSize ∧ lenAt + 4 = hdrSize := by
  rw [frameShape] at hshape
  split_ifs at hshape
  · cases hshape
    decide
  · cases hshape
    decide

/-- No frame version is the message type of an announce. -/
theorem frameShape_ne_announce {version : UInt8} {shape : Nat × Nat}
    (hshape : frameShape version = some shape) : version ≠ fmt.msgTypeSubtreeGroupAnnounce := by
  apply fmt.announce_ne
  rw [frameShape] at hshape
  split_ifs at hshape with hlegacy hversion
  · rw [hlegacy]
    exact List.mem_cons_self
  · exact List.mem_cons_of_mem _ hversion

theorem frameSizes_ok_iff {stream : Bytes} (hheader : headerSizeLegacy ≤ stream.length)
    {hdrSize payLen : Nat} :
    frameSizes stream = .ok (hdrSize, payLen) ↔ ∃ lenAt,
      frameShape (byteAt stream 6) = some (hdrSize, lenAt) ∧ hdrSize ≤ stream.length ∧
        payLen = (uint32At stream lenAt).toNat := by
  rw [frameSizes, frameShape]
  split_ifs with hlegacy hversion hshort
  · constructor
    · intro hsizes
      cases hsizes
      exact ⟨40, rfl, hheader, rfl⟩
    · rintro ⟨lenAt, hshape, _, rfl⟩
      cases hshape
      rfl
  · constructor
    · intro hsizes
      cases hsizes
    · rintro ⟨lenAt, hshape, hlength, _⟩
      cases hshape
      omega
  · constructor
    · intro hsizes
      cases hsizes
      exact ⟨88, rfl, Nat.not_lt.mp hshort, rfl⟩
    · rintro ⟨lenAt, hshape, _, rfl⟩
      cases hshape
      rfl
  · constructor
    · intro hsizes
      cases hsizes
    · rintro ⟨lenAt, hshape, _, _⟩
      cases hshape

/-- A frame whose header declares the payload behind it is taken off the stream, or
closes it at the bound of the object plane. -/
theorem framedNext_frame {raw : Bytes} {hdrSize lenAt : Nat} (hmagic : uint32At raw 0 = magicBSV)
    (hshape : frameShape (byteAt raw 6) = some (hdrSize, lenAt))
    (hsize : raw.length = hdrSize + (uint32At raw lenAt).toNat)
    (hceiling : (uint32At raw lenAt).toNat ≤ defaultMaxObject) (rest : Bytes) :
    framedNext fmt fw cls (raw ++ rest) =
      if byteAt raw 6 = frameVerV9 ∧ 0 < fw.beefMaxObject ∧
          fw.beefMaxObject < ((uint32At raw lenAt).toNat : Int) then .error .beefBound
      else .ok (.dispatchClass raw cls, rest) := by
  obtain ⟨hlegacy, hfield⟩ := frameShape_sizes hshape
  have hlow : headerSizeLegacy = 44 := rfl
  have hlength : (raw ++ rest).length = raw.length + rest.length := List.length_append
  have hversion : byteAt (raw ++ rest) 6 = byteAt raw 6 := byteAt_append_left (by omega) rest
  have hpayload : uint32At (raw ++ rest) lenAt = uint32At raw lenAt :=
    uint32At_append_left (by omega) rest
  have hfirst : uint32At (raw ++ rest) 0 = magicBSV := by
    rw [uint32At_append_left (by omega) rest]
    exact hmagic
  have hsizes : frameSizes (raw ++ rest) = .ok (hdrSize, (uint32At raw lenAt).toNat) := by
    rw [frameSizes_ok_iff (by omega), hversion]
    exact ⟨lenAt, hshape, by omega, by rw [hpayload]⟩
  have hannounce : byteAt raw 6 ≠ fmt.msgTypeSubtreeGroupAnnounce := frameShape_ne_announce hshape
  have hfits : ¬ (raw ++ rest).length < hdrSize + (uint32At raw lenAt).toNat := by omega
  rw [framedNext, if_neg (by omega), if_neg (not_not_intro hfirst), hversion, if_neg hannounce,
    readFrame, hsizes]
  simp only [Nat.not_lt.mpr hceiling, hversion, hfits, ↓reduceIte]
  rw [← hsize, List.take_left, List.drop_left]

end Frames

end ShardProxy
