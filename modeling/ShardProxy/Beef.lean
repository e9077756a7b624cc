/-
The BEEF object plane: preparing a submission record, checking and claiming a
FrameVer 0x09 frame, sending it in line, and the off-line path that reserves
SeqNums on admission and fragments later.
-/
import ShardProxy.Forwarder

namespace ShardProxy

open ByteField Chunks Dispenser

/-- `srcIPOf`: the IP of a UDP or TCP source. -/
def srcIPOf : Option NetAddr → Option Bytes
  | some (.udp ip _ _) => ip
  | some (.tcp ip _ _) => ip
  | _ => none

/-- A submission record checked and framed, or the reason it was refused. -/
structure PreparedBEEF where
  frame : Option Bytes
  result : BEEFResult
  topics : Nat
  deliver : Nat
deriving DecidableEq

def PreparedBEEF.refused (result : BEEFResult) : PreparedBEEF :=
  ⟨none, result, 0, 0⟩

/-- A frame that passed `checkBEEF`: its decoding, its group, and its bytes
with the DeliverCount the ingress wrote. -/
structure CheckedBEEF where
  bf : BEEFFrame
  groupIdx : UInt32
  raw : Bytes

/-- A record admitted for the caller to fragment, with its SeqNums reserved;
`k` is zero for a frame that leaves whole. -/
structure BEEFAdmission where
  raw : Bytes
  bf : BEEFFrame
  ip : IPv6
  groupIdx : UInt32
  dst : UDPAddr
  hashKey : UInt64
  firstSeq : UInt64
  k : Nat

/-- Why `FragmentBEEFInto` built nothing. -/
inductive FragmentIntoError where
  | alloc
  | encode
deriving DecidableEq

section Plane

variable (env : Env) (fw : Forwarder)

def beefClaimKey (contentID topicID : Hash32) : Hash32 :=
  env.sha256 (contentID.bytes ++ topicID.bytes)

/-- The object bound of a submitter: the policy's when that is above the
operator's. -/
def beefObjectBoundFor (src : Option NetAddr) : Int :=
  match fw.beefPolicy with
  | none => fw.beefMaxObject
  | some policy =>
      let lifted := policy.maxObjectBytes (srcIPOf src)
      if fw.beefMaxObject < lifted then lifted else fw.beefMaxObject

/-- How many of a record's `n` leading topics a source may deliver. -/
def beefDeliverCount (src : Option NetAddr) (n : Nat) : Nat :=
  let deliver : Int :=
    match fw.beefPolicy, srcIPOf src with
    | some policy, some ip => policy.deliverCount ip n
    | _, _ => 1
  let deliver := if deliver < 1 then 1 else deliver
  (if (n : Int) < deliver then (n : Int) else deliver).toNat

/-- Check a record and frame it; a policy bound of zero or less is no bound. -/
def prepareBEEF (rec : Bytes) (src : Option NetAddr) : PreparedBEEF :=
  if fw.beefEngine.isNone then .refused .disabled
  else
    match env.decodeBEEFRecord rec with
    | none => .refused .malformed
    | some (r, n) =>
        if n ≠ rec.length then .refused .malformed
        else
          let maxObj := beefObjectBoundFor fw src
          if 0 < maxObj ∧ maxObj < (r.object.length : Int) then .refused .oversize
          else if env.isBEEFObject r.object = false then .refused .badMarker
          else
            let deliver := beefDeliverCount fw src r.topics.length
            match env.beefMulticastRecord rec deliver with
            | none => .refused .malformed
            | some frame => ⟨some frame, .ok, r.topics.length, deliver⟩

/-- A pre-framed record must put its first topic in the header. -/
def topicMismatch (bf : BEEFFrame) (topics : Option (List Bytes)) : Prop :=
  match topics with
  | some (first :: _) => bf.topicID ≠ env.topicID first
  | _ => False

instance (bf : BEEFFrame) (topics : Option (List Bytes)) :
    Decidable (topicMismatch env bf topics) :=
  match topics with
  | some (first :: _) => inferInstanceAs (Decidable (bf.topicID ≠ env.topicID first))
  | some [] => inferInstanceAs (Decidable False)
  | none => inferInstanceAs (Decidable False)

/-- The conformance checks of a frame: the plane's engine, the decoded frame and
its topic count. -/
def beefGates (raw : Bytes) (src : Option NetAddr) :
    Except Drop (PlaneEngine × BEEFFrame × Nat) :=
  match fw.beefEngine with
  | none => .error (.packet .beefDisabled)
  | some engine =>
      match env.decodeBEEF raw with
      | none => .error (.packet .decodeError)
      | some bf =>
          match env.splitBEEFPayload bf.payload with
          | none => .error (.packet .beefBadRecord)
          | some (object, topics) =>
              if 0 < fw.beefMaxObject ∧ fw.beefMaxObject < (object.length : Int) ∧
                  beefObjectBoundFor fw src < (object.length : Int) then
                .error (.packet .beefOversize)
              else if bf.topicID = zeroHash then .error (.packet .beefNoTopic)
              else if topicMismatch env bf topics then .error (.packet .beefTopicMismatch)
              else if env.isBEEFObject object = false then .error (.packet .beefBadMarker)
              else .ok (engine, bf, topics.elim 1 List.length)

/-- Byte 7 is the ingress's to set for a frame that entered here; a relayed
frame keeps the door's value. -/
def setDeliverCount (bf : BEEFFrame) (raw : Bytes) (src : Option NetAddr) (topics : Nat) :
    BEEFFrame × Bytes :=
  match src with
  | none => (bf, raw)
  | some _ =>
      let deliver := UInt8.ofNat (beefDeliverCount fw src topics)
      ({ bf with deliverCount := deliver }, raw.set 7 deliver)

def chargeBudget (src : Option NetAddr) (n : Nat) (now : Time) : Fw Unit := fun st =>
  let (decision, limiter) := st.beefLimit.allow env src n now
  let st := { st with beefLimit := limiter }
  match decision with
  | .allow => (.ok (), st)
  | .denySource => (.error (.packet .beefRateSource), st)
  | .denyPlane => (.error (.packet .beefRatePlane), st)

/-- A pre-framed submission must carry the ContentID of its payload. -/
def contentGate (bf : BEEFFrame) (src : Option NetAddr) (checkContentID : Bool) :
    Except Drop Unit :=
  if checkContentID ∧ src.isSome ∧ bf.contentID ≠ env.contentID bf.payload then
    .error (.packet .beefBadContentID)
  else .ok ()

/-- The admission half of `processBEEF`. -/
def checkBEEF (raw : Bytes) (src : Option NetAddr) (now : Time) (checkContentID : Bool) :
    Fw CheckedBEEF := do
  let (engine, bf, topics) ← Fw.gate (beefGates env fw raw src)
  let (bf, raw) := setDeliverCount fw bf raw src topics
  chargeBudget env src raw.length now
  Fw.gate (contentGate env bf src checkContentID)
  claimBEEFIngress fw (beefClaimKey env bf.contentID bf.topicID) "brc148"
  pure ⟨bf, engine.groupIndex bf.topicID, raw⟩

def emitBEEF (checked : CheckedBEEF) (src : Option NetAddr) : Fw Unit :=
  let req (raw : Bytes) := enqueueData raw (fw.addrFor checked.groupIdx) checked.groupIdx
  match src with
  | none => enqueue [req checked.raw]
  | some src =>
      let ip := addrToIPv6 src
      if fw.fragments checked.bf.payload then
        fragmentBEEF env fw checked.bf ip checked.groupIdx
      else do
        let raw ← Fw.emit (stampInPlace env fw checked.raw ⟨ip, checked.groupIdx, zeroHash⟩)
        enqueue [req raw]

/-- `processBEEF`; `checkContentID` is false for a frame built here. -/
def processBEEF (raw : Bytes) (src : Option NetAddr) (now : Time) (checkContentID : Bool) :
    Fw Unit := do
  let checked ← checkBEEF env fw raw src now checkContentID
  emitBEEF env fw checked src

/-- `ProcessBEEF` -/
def processBEEFFrame (raw : Bytes) (src : Option NetAddr) (now : Time) : Fw Unit :=
  processBEEF env fw raw src now true

def dispatchBEEF (p : PreparedBEEF) (src : Option NetAddr) (now : Time) : Fw Unit :=
  match p.frame with
  | none => Fw.fail (.submission p.result)
  | some frame => processBEEF env fw frame src now false

def submitBEEF (rec : Bytes) (src : Option NetAddr) (now : Time) : Fw Unit :=
  dispatchBEEF env fw (prepareBEEF env fw rec src) src now

/-- Reserve the SeqNums of a record that will be split, or stamp its frame. -/
def reserveAdmission (checked : CheckedBEEF) (src : NetAddr) : Emit BEEFAdmission :=
  let ip := addrToIPv6 src
  let flow : ChainKey := ⟨ip, checked.groupIdx, zeroHash⟩
  let dst := fw.addrFor checked.groupIdx
  let k := fw.fragTotal checked.bf.payload
  if fw.fragments checked.bf.payload then do
    let (hashKey, firstSeq) ← reserveSeq env flow k
    pure ⟨checked.raw, checked.bf, ip, checked.groupIdx, dst, hashKey, firstSeq, k⟩
  else do
    let raw ← stampInPlace env fw checked.raw flow
    pure ⟨raw, checked.bf, ip, checked.groupIdx, dst, uint64At raw 40, uint64At raw 48, 0⟩

/-- `AdmitBEEF`: check and claim, then reserve the SeqNums or stamp the frame.
A record with too many fragments is dropped here, after its claim. -/
def admitBEEF (p : PreparedBEEF) (src : Option NetAddr) (now : Time) : Fw BEEFAdmission :=
  match p.frame with
  | none => Fw.fail (.submission p.result)
  | some frame => do
      let checked ← checkBEEF env fw frame src now false
      match src with
      | none =>
          pure ⟨checked.raw, checked.bf, FixedBytes.zero 16, checked.groupIdx,
            fw.addrFor checked.groupIdx, 0, 0, 0⟩
      | some src =>
          if fw.fragments checked.bf.payload ∧ 65535 < fw.fragTotal checked.bf.payload then
            Fw.fail (.packet .fragOverflow)
          else Fw.emit (reserveAdmission env fw checked src)

/-- `Datagrams`: how many datagrams the admission makes. -/
def BEEFAdmission.datagrams (a : BEEFAdmission) : Nat :=
  if 0 < a.k then a.k else 1

/-- `Bytes`: how long they are together. -/
def BEEFAdmission.bytes (a : BEEFAdmission) : Nat :=
  if 0 < a.k then a.k * headerSizeV3 + a.bf.payload.length else a.raw.length

/-- Build fragment `i` in memory from the allocator. -/
def fragmentInto (a : BEEFAdmission) (alloc : Nat → Nat → Bytes) (i : Nat) :
    Except FragmentIntoError Bytes :=
  let size := headerSizeV3 + min fw.fragDataSize (a.bf.payload.length - i * fw.fragDataSize)
  let buf := alloc i size
  if buf.length ≠ size then .error .alloc
  else
    match encodePlanned env fw (fragmentBEEFPlan fw a.bf a.ip a.groupIdx) buf i a.k a.hashKey
        (a.firstSeq + UInt64.ofNat i) with
    | none => .error .encode
    | some datagram => .ok datagram

/-- `FragmentBEEFInto`: the admitted record's datagrams in emission order.  The
allocator is asked once a datagram; `alloc i n` is its answer to call `i`. -/
def fragmentBEEFInto (a : BEEFAdmission) (alloc : Nat → Nat → Bytes) :
    Except FragmentIntoError (List Bytes) :=
  if a.k = 0 then
    if (alloc 0 a.raw.length).length ≠ a.raw.length then .error .alloc else .ok [a.raw]
  else (List.range a.k).mapM (fragmentInto env fw a alloc)

end Plane

end ShardProxy
