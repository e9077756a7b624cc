/-
Routing of one ingress datagram by its magic, its frame-version byte and the
class of the socket it arrived on.
-/
import ShardProxy.Beef

namespace ShardProxy

open ByteField

/-- The frame set a socket accepts. -/
inductive IngressClass where
  | privileged
  | transaction
  | beef
deriving DecidableEq

/-- The label a miner-tier frame is rejected under on an open socket. -/
def privilegedFrameType (raw : Bytes) : String :=
  if 6 < raw.length ∧ byteAt raw 6 = frameVerV4 then
    if 7 < raw.length ∧ byteAt raw 7 = blockMsgCoinbase then "brc133" else "brc131"
  else "brc132"

def rejectPrivileged (raw : Bytes) : Fw Unit :=
  Fw.fail (.privileged (privilegedFrameType raw))

def rejectOnBEEFLane : Fw Unit :=
  Fw.fail (.packet .nonBEEFOnBEEFLane)

/-- Whether a datagram starts with the network magic. -/
def framed (raw : Bytes) : Prop :=
  4 ≤ raw.length ∧ uint32At raw 0 = magicBSV

instance (raw : Bytes) : Decidable (framed raw) :=
  inferInstanceAs (Decidable (_ ∧ _))

/-- The frame-version byte, when the datagram reaches it. -/
def versionByte (raw : Bytes) : Option UInt8 :=
  if 6 < raw.length then some (byteAt raw 6) else none

section Dispatch

variable (env : Env) (fw : Forwarder)

/-- `DispatchClass` -/
def dispatchClass (raw : Bytes) (src : Option NetAddr) (now : Time) (cls : IngressClass) :
    Fw Unit :=
  if ¬ framed raw then
    if 2 ≤ raw.length ∧ uint16At raw 0 = beefRecordTag then submitBEEF env fw raw src now
    else if cls = .beef then rejectOnBEEFLane
    else dispatchBareTx env fw raw src
  else if versionByte raw = some frameVerV4 then
    if cls ≠ .privileged then rejectPrivileged raw else processBlock env fw raw src
  else if versionByte raw = some frameVerV5 then
    if cls ≠ .privileged then rejectPrivileged raw else processSubtreeData env fw raw src
  else if versionByte raw = some frameVerV6 then
    if cls = .beef then rejectOnBEEFLane else processAnchor env fw raw src
  else if versionByte raw = some frameVerV9 then processBEEFFrame env fw raw src now
  else if versionByte raw = some frameVerV8 then
    if cls = .beef then rejectOnBEEFLane else processBundle fw raw
  else if cls = .beef then rejectOnBEEFLane
  else processFrame env fw raw src

end Dispatch

end ShardProxy
