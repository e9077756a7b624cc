/-
The datagrams of the proxy: frame classes, their fixed header offsets, and the
functions the forwarder calls and does not define.  The wire codecs, the
transaction grammar and the hashes live in another repository, so they enter
here as the fields of one environment; what a result assumes of them is a
named structure of laws.
-/
import ShardProxy.Lib.ByteField

namespace ShardProxy

open ByteField

abbrev Hash32 := FixedBytes 32
abbrev IPv6 := FixedBytes 16

/-- The all-zero 32-byte ingredient and identifier. -/
def zeroHash : Hash32 := FixedBytes.zero 32

section Constants

def magicBSV : UInt32 := 0xE3E1F3E8

def frameVerV1 : UInt8 := 1
def frameVerV2 : UInt8 := 2
def frameVerV3 : UInt8 := 3
def frameVerV4 : UInt8 := 4
def frameVerV5 : UInt8 := 5
def frameVerV6 : UInt8 := 6
def frameVerV8 : UInt8 := 8
def frameVerV9 : UInt8 := 9

/-- Header of the V2, V4, V5, V6 and V9 frames. -/
def headerSize : Nat := 92
/-- Header of a BRC-130 fragment. -/
def headerSizeV3 : Nat := 104
/-- Header of a BRC-142 bundle. -/
def bundleHeaderSize : Nat := 66

def blockMsgAnnounce : UInt8 := 1
def blockMsgCoinbase : UInt8 := 2
def subtreeMsgFullNodes : UInt8 := 2
def subtreeNodeHashSize : Nat := 32
def subtreeNodeFullSize : Nat := 48
def beefRecordTag : UInt16 := 0xBEEF
def bundleMaxMembers : Nat := 65535
def flagTxIDsPresent : UInt8 := 1

/-- IPv6 and UDP headers below every datagram. -/
def ipv6UDPHeaderSize : Nat := 40 + 8
def ipv6UDPOverhead : Nat := ipv6UDPHeaderSize + headerSizeV3
def defaultCoalesceMaxBytes : Nat := 1500

/-- The control-plane group indices, and the virtual ones that only name flows. -/
def groupCoinbaseFlow : UInt16 := 0xFFF8
def groupAnchorFlow : UInt16 := 0xFFF9
def groupSubtreeDataAnnounce : UInt16 := 0xFFFB
def groupBlockBroadcast : UInt16 := 0xFFFE

end Constants

/-- A decoded transaction frame: BRC-12, BRC-124/128 or a BRC-134 anchor. -/
structure Frame where
  version : UInt8
  txID : Hash32
  seqNum : UInt64
  subtreeID : Hash32
  payload : Bytes
deriving DecidableEq

/-- A decoded BRC-131 block control frame. -/
structure BlockFrame where
  msgType : UInt8
  contentID : Hash32
  payload : Bytes
deriving DecidableEq

/-- A decoded BRC-132 subtree data frame. -/
structure SubtreeDataFrame where
  msgType : UInt8
  subtreeID : Hash32
  payload : Bytes
deriving DecidableEq

/-- A decoded BRC-148 BEEF object frame. -/
structure BEEFFrame where
  contentID : Hash32
  topicID : Hash32
  deliverCount : UInt8
  payload : Bytes
deriving DecidableEq

/-- A decoded BEEF submission record: its topics and its object. -/
structure BEEFRecord where
  topics : List Bytes
  object : Bytes
deriving DecidableEq

/-- The arguments of one `EncodeFragment` call after its buffer. -/
structure FragmentArgs where
  txID : Hash32
  subtreeID : Hash32
  hashKey : UInt64
  seqNum : UInt64
  origPayloadLen : UInt32
  fragIndex : UInt16
  fragTotal : UInt16
  origFrameVer : UInt8
  fragData : Bytes
deriving DecidableEq

/-- A decoded fragment: the arguments it was encoded from and its byte 7. -/
structure FragmentFrame where
  args : FragmentArgs
  msgType : UInt8
deriving DecidableEq

/-- A transaction of a bundle. -/
structure Member where
  txID : Hash32
  tx : Bytes
deriving DecidableEq

/-- A BRC-142 bundle before it is encoded. -/
structure Bundle where
  groupIdx : UInt16
  shardBits : UInt8
  subtreeID : Hash32
  flags : UInt8
  hashKey : UInt64
  seqNum : UInt64
  members : List Member
deriving DecidableEq

/-- A source address, as far as the forwarder tells addresses apart.  The
IP is a byte slice of any length, or nil. -/
inductive NetAddr where
  | udp (ip : Option Bytes) (port : Nat) (zone : String)
  | tcp (ip : Option Bytes) (port : Nat) (zone : String)
  | ip (ip : Option Bytes) (zone : String)
  | other (text : String)
deriving DecidableEq

/-- The multicast address of a group index. -/
structure GroupAddr where
  mcPrefix : UInt16
  mcGroupID : UInt16
  idx : UInt16
deriving DecidableEq

structure UDPAddr where
  ip : GroupAddr
  port : Nat
deriving DecidableEq

/-- What the forwarder calls and does not define: shard-common's codecs, ids
and hashes, and the parts of the Go runtime whose answers are not fixed. -/
structure Env where
  decode : Bytes → Option Frame
  decodeBlock : Bytes → Option BlockFrame
  decodeAnchor : Bytes → Option Frame
  decodeSubtreeData : Bytes → Option SubtreeDataFrame
  decodeBEEF : Bytes → Option BEEFFrame
  /-- Write a fragment into a buffer: the buffer after it, and the bytes used. -/
  encodeFragment : Bytes → FragmentArgs → Option (Bytes × Nat)
  /-- The datagram a fragment's arguments spell. -/
  fragmentBytes : FragmentArgs → Bytes
  decodeFragment : Bytes → Option FragmentFrame
  encodeBundle : Bundle → Option Bytes
  memberOverhead : Bool → Nat
  /-- `seqhash.Hash` -/
  seqHash : IPv6 → UInt32 → Hash32 → UInt64
  txSize : Bytes → Option Nat
  isEF : Bytes → Bool
  txID : Bytes → Option Hash32
  /-- `MulticastBytes(ClassTx, tx)` -/
  multicastBytes : Bytes → Option Bytes
  decodeBEEFRecord : Bytes → Option (BEEFRecord × Nat)
  splitBEEFPayload : Bytes → Option (Bytes × Option (List Bytes))
  isBEEFObject : Bytes → Bool
  beefMulticastRecord : Bytes → Nat → Option Bytes
  topicID : Bytes → Hash32
  contentID : Bytes → Hash32
  sha256 : Bytes → Hash32
  powHeaderSize : Nat
  powCheckHeader : Bytes → Option Nat → Bool
  subtreeDataPayloadHeaderSize : Nat
  /-- The text of an IP address. -/
  ipString : Bytes → String
  /-- `SplitHostPort` then `ParseIP` on the text of an address. -/
  parseAddr : String → Option Bytes
  /-- The order a map is walked in, given its keys. -/
  mapOrder : List String → List String
  /-- What a recycled fragment buffer of a size holds when it is drawn. -/
  poolBuffer : Nat → Nat → Bytes
  /-- `GOMAXPROCS` -/
  maxProcs : Nat
  mapOrder_perm : ∀ keys, (mapOrder keys).Perm keys
  length_poolBuffer : ∀ size draw, (poolBuffer size draw).length = size

/-- What the frame decoders promise: `Decode` takes only the two transaction
versions, a frame has its whole header, its payload length is a 32-bit field,
and byte 7 holds the message type or the DeliverCount. -/
structure DecodeLaws (env : Env) : Prop where
  decode_version : ∀ {raw f}, env.decode raw = some f →
    f.version = frameVerV1 ∨ f.version = frameVerV2
  decode_size : ∀ {raw f}, env.decode raw = some f → f.version = frameVerV2 →
    headerSize ≤ raw.length ∧ f.payload.length < 2 ^ 32
  decodeBlock_size : ∀ {raw bf}, env.decodeBlock raw = some bf →
    headerSize ≤ raw.length ∧ bf.payload.length < 2 ^ 32
  decodeAnchor_size : ∀ {raw f}, env.decodeAnchor raw = some f → headerSize ≤ raw.length
  decodeSubtreeData_size : ∀ {raw sf}, env.decodeSubtreeData raw = some sf →
    headerSize ≤ raw.length ∧ sf.payload.length < 2 ^ 32
  decodeBEEF_size : ∀ {raw bf}, env.decodeBEEF raw = some bf →
    headerSize ≤ raw.length ∧ bf.payload.length < 2 ^ 32
  decodeBlock_msgType : ∀ {raw bf}, env.decodeBlock raw = some bf →
    bf.msgType = byteAt raw 7
  decodeSubtreeData_msgType : ∀ {raw sf}, env.decodeSubtreeData raw = some sf →
    sf.msgType = byteAt raw 7
  decodeBEEF_deliverCount : ∀ {raw bf}, env.decodeBEEF raw = some bf →
    bf.deliverCount = byteAt raw 7

/-- The version byte tells V1 frames from the others, and those carry HashKey in
bytes 40 to 47: nothing else that is decoded depends on them. -/
structure HashKeyLaws (env : Env) : Prop where
  decode_byte6 : ∀ {raw f}, env.decode raw = some f → byteAt raw 6 = f.version
  decode : ∀ {raw}, 48 ≤ raw.length → byteAt raw 6 ≠ frameVerV1 → ∀ key,
    env.decode (putUint64 raw 40 key) = env.decode raw
  decodeAnchor : ∀ {raw}, 48 ≤ raw.length → ∀ key,
    env.decodeAnchor (putUint64 raw 40 key) = env.decodeAnchor raw
  decodeBEEF : ∀ {raw}, 48 ≤ raw.length → ∀ key,
    env.decodeBEEF (putUint64 raw 40 key) = env.decodeBEEF raw

/-- What `MulticastBytes` promises of a bare transaction it takes: the frame is
an unstamped V2 frame of that one transaction under its canonical id. -/
structure SubmissionLaws (env : Env) : Prop where
  reframe : ∀ {tx framed}, env.txSize tx = some tx.length →
    env.multicastBytes tx = some framed →
      ∃ id, env.txID tx = some id ∧
        env.decode framed = some ⟨frameVerV2, id, 0, zeroHash, tx⟩

/-- What the record codec promises.  A payload that is a record splits into the
topics, one to fifteen, and the object it decodes to; `BEEFMulticastRecord` frames
a whole record under its ContentID and first topic with the DeliverCount in byte
7; and nothing else of a BEEF frame depends on that byte. -/
structure RecordLaws (env : Env) : Prop where
  topics : ∀ {rec record n}, env.decodeBEEFRecord rec = some (record, n) →
    1 ≤ record.topics.length ∧ record.topics.length ≤ 15
  split : ∀ {rec record}, env.decodeBEEFRecord rec = some (record, rec.length) →
    env.splitBEEFPayload rec = some (record.object, some record.topics)
  framed : ∀ {rec deliver frame}, env.beefMulticastRecord rec deliver = some frame →
    ∃ record first rest, env.decodeBEEFRecord rec = some (record, rec.length) ∧
      record.topics = first :: rest ∧
      env.decodeBEEF frame =
        some ⟨env.contentID rec, env.topicID first, UInt8.ofNat deliver, rec⟩
  redeliver : ∀ {rec deliver frame record n}, env.beefMulticastRecord rec deliver = some frame →
    env.decodeBEEFRecord rec = some (record, n) → ∀ {other}, 1 ≤ other →
      other ≤ record.topics.length →
        env.beefMulticastRecord rec other = some (frame.set 7 (UInt8.ofNat other))
  byte7 : ∀ {raw bf}, env.decodeBEEF raw = some bf → ∀ deliver,
    env.decodeBEEF (raw.set 7 deliver) = some { bf with deliverCount := deliver }

/-- `BEEFMulticastRecord` leaves SeqNum zero, for the proxy to write. -/
structure UnstampedRecords (env : Env) : Prop where
  seqNum : ∀ {rec deliver frame}, env.beefMulticastRecord rec deliver = some frame →
    uint64At frame 48 = 0

/-- `SplitBEEFPayload` finds one to fifteen topics where it finds a record. -/
structure SplitLaws (env : Env) : Prop where
  topics : ∀ {payload object topics}, env.splitBEEFPayload payload = some (object, some topics) →
    1 ≤ topics.length ∧ topics.length ≤ 15

/-- A fragment as it leaves: the encoded bytes with byte 7 put in where the
fragmenter has one. -/
def withByte7 (byte7 : Option UInt8) (datagram : Bytes) : Bytes :=
  match byte7 with
  | none => datagram
  | some byte => datagram.set 7 byte

/-- Fragment arguments a reassembler can place: an index below the total, and
some data. -/
structure FragmentArgs.Placed (args : FragmentArgs) : Prop where
  index : args.fragIndex < args.fragTotal
  data : args.fragData ≠ []

/-- What `EncodeFragment` promises: given room it writes a 104-byte header and
the data over whatever the buffer held, with HashKey and SeqNum at their usual
offsets and byte 7 left zero, and decoding gives back the arguments and byte 7. -/
structure FragmentLaws (env : Env) : Prop where
  encode : ∀ {args : FragmentArgs}, args.Placed → ∀ {buf : Bytes},
    headerSizeV3 + args.fragData.length ≤ buf.length →
      env.encodeFragment buf args =
        some (env.fragmentBytes args ++ buf.drop (headerSizeV3 + args.fragData.length),
          headerSizeV3 + args.fragData.length)
  length : ∀ args, (env.fragmentBytes args).length = headerSizeV3 + args.fragData.length
  hashKey : ∀ args, uint64At (env.fragmentBytes args) 40 = args.hashKey
  seqNum : ∀ args, uint64At (env.fragmentBytes args) 48 = args.seqNum
  decode : ∀ {args : FragmentArgs}, args.Placed → ∀ byte7,
    env.decodeFragment (withByte7 byte7 (env.fragmentBytes args)) =
      some ⟨args, byte7.getD 0⟩

/-- Where headers keep the sequence number: bytes 48 to 55 of a V2 frame and of a
fragment hold it, and nothing else of either depends on them.  Byte 6 tells
fragments and BEEF frames from transactions. -/
structure SeqNumLaws (env : Env) : Prop where
  decode_seqNum : ∀ {raw f}, env.decode raw = some f → f.version = frameVerV2 →
    f.seqNum = uint64At raw 48
  decode : ∀ {raw}, headerSize ≤ raw.length → byteAt raw 6 ≠ frameVerV1 → ∀ seqNum,
    env.decode (putUint64 raw 48 seqNum) =
      (env.decode raw).map fun f => { f with seqNum := seqNum }
  decodeBEEF_version : ∀ {raw bf}, env.decodeBEEF raw = some bf → byteAt raw 6 = frameVerV9
  fragment_version : ∀ args, byteAt (env.fragmentBytes args) 6 = frameVerV3
  fragment_seqNum : ∀ args seqNum,
    env.fragmentBytes { args with seqNum := seqNum } =
      putUint64 (env.fragmentBytes args) 48 seqNum

/-- What `bundle.Encode` promises: it takes any member count and lengths that
fit their 16-bit fields, and stamps HashKey and SeqNum at the usual offsets. -/
structure BundleLaws (env : Env) : Prop where
  encode : ∀ bundle : Bundle, bundle.members.length ≤ bundleMaxMembers →
    (∀ member ∈ bundle.members, member.tx.length < 2 ^ 16) →
      ∃ datagram, env.encodeBundle bundle = some datagram
  stamped : ∀ {bundle datagram}, env.encodeBundle bundle = some datagram →
    uint64At datagram 40 = bundle.hashKey ∧ uint64At datagram 48 = bundle.seqNum

/-- Byte 6 of a bundle tells it from the other frames. -/
structure BundleVersion (env : Env) : Prop where
  version : ∀ {bundle datagram}, env.encodeBundle bundle = some datagram →
    byteAt datagram 6 = frameVerV8

/-- Whether the members of a bundle travel with their TxIDs. -/
def Bundle.carriesTxIDs (bundle : Bundle) : Bool :=
  bundle.flags &&& flagTxIDsPresent != 0

/-- What of a bundle is on the wire: the TxIDs only under their flag. -/
def Bundle.onWire (bundle : Bundle) : Bundle :=
  if bundle.carriesTxIDs then bundle
  else { bundle with members := bundle.members.map fun member => ⟨zeroHash, member.tx⟩ }

/-- What `bundle.Encode` and `bundle.Decode` promise of each other: a bundle is
as long as its header and its members with their overheads, and decodes to what
went on the wire. -/
structure BundleCodec (env : Env) (decodeBundle : Bytes → Option Bundle) : Prop where
  length : ∀ {bundle datagram}, env.encodeBundle bundle = some datagram →
    datagram.length = bundleHeaderSize +
      (bundle.members.map fun member =>
        env.memberOverhead bundle.carriesTxIDs + member.tx.length).sum
  decode : ∀ {bundle datagram}, env.encodeBundle bundle = some datagram →
    decodeBundle datagram = some bundle.onWire

end ShardProxy
