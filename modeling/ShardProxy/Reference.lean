/-
The environment with its functions filled in.  The codecs follow the header
layouts the forwarder itself reads and writes, ids and flow keys are computed
with real digests, and the laws the results assume are proved of them, so the
results speak about an environment that exists.  A small engine, a source and a
transaction are at hand for concrete runs.
-/
import ShardProxy.Dispatch
import ShardProxy.Lib.Digest

namespace ShardProxy.Reference

open ByteField Digest

section Frames

/-- Network magic, protocol version, frame version and byte 7. -/
def leading (version byte7 : UInt8) : Bytes :=
  [0xE3, 0xE1, 0xF3, 0xE8, 0x02, 0xBF, version, byte7]

/-- The fields of a 92-byte header and the payload after it. -/
structure Fields where
  byte7 : UInt8
  id : Hash32
  hashKey : UInt64
  seqNum : UInt64
  second : Hash32
  payload : Bytes

def encodeFields (version : UInt8) (fields : Fields) : Bytes :=
  [leading version fields.byte7, fields.id.bytes, spellNat 8 fields.hashKey.toNat,
    spellNat 8 fields.seqNum.toNat, fields.second.bytes, spellNat 4 fields.payload.length,
    fields.payload].flatten

theorem length_encodeFields (version : UInt8) (fields : Fields) :
    (encodeFields version fields).length = headerSize + fields.payload.length := by
  simp [encodeFields, leading, fields.id.size, fields.second.size, headerSize]
  omega

theorem encodeFields_seqNum (version : UInt8) (fields : Fields) :
    uint64At (encodeFields version fields) 48 = fields.seqNum :=
  uint64At_flatten 3 rfl (by simp [leading, fields.id.size])

/-- Bytes after the payload are ignored. -/
def decodeFields (version : UInt8) (raw : Bytes) : Option Fields :=
  if headerSize ≤ raw.length ∧ uint32At raw 0 = magicBSV ∧ byteAt raw 6 = version ∧
      headerSize + (uint32At raw 88).toNat ≤ raw.length then
    some ⟨byteAt raw 7, FixedBytes.copy 32 (field raw 8 32), uint64At raw 40, uint64At raw 48,
      FixedBytes.copy 32 (field raw 56 32), field raw headerSize (uint32At raw 88).toNat⟩
  else none

theorem decodeFields_eq_some {version : UInt8} {raw : Bytes} {fields : Fields}
    (hdecode : decodeFields version raw = some fields) :
    headerSize ≤ raw.length ∧ fields.payload.length < 2 ^ 32 ∧
      fields.byte7 = byteAt raw 7 := by
  rw [decodeFields] at hdecode
  split at hdecode
  · rename_i hchecks
    obtain rfl := Option.some.inj hdecode
    refine ⟨hchecks.1, ?_, rfl⟩
    have hlength : (field raw headerSize (uint32At raw 88).toNat).length ≤
        (uint32At raw 88).toNat := by
      rw [field, List.length_take]
      exact Nat.min_le_left _ _
    exact Nat.lt_of_le_of_lt hlength (uint32At raw 88).toNat_lt
  · cases hdecode

theorem decodeFields_version {version : UInt8} {raw : Bytes} {fields : Fields}
    (hdecode : decodeFields version raw = some fields) : byteAt raw 6 = version := by
  rw [decodeFields] at hdecode
  split at hdecode
  · rename_i hchecks
    exact hchecks.2.2.1
  · cases hdecode

theorem encodeFields_payLen (version : UInt8) (fields : Fields)
    (hpayload : fields.payload.length < 2 ^ 32) :
    (uint32At (encodeFields version fields) 88).toNat = fields.payload.length := by
  have hread : readNat (field (encodeFields version fields) 88 4) =
      fields.payload.length % 256 ^ 4 :=
    readNat_flatten 5 rfl (by simp [leading, fields.id.size, fields.second.size])
  have hlt : fields.payload.length < 256 ^ 4 := hpayload
  rw [uint32At, hread, Nat.mod_eq_of_lt hlt, UInt32.toNat_ofNat_of_lt' hpayload]

theorem decodeFields_encodeFields (version : UInt8) (fields : Fields)
    (hpayload : fields.payload.length < 2 ^ 32) :
    decodeFields version (encodeFields version fields) = some fields := by
  have hlength := length_encodeFields version fields
  have hid : field (encodeFields version fields) 8 32 = fields.id.bytes :=
    field_flatten 1 rfl rfl fields.id.size
  have hhashKey : uint64At (encodeFields version fields) 40 = fields.hashKey :=
    uint64At_flatten 2 rfl (by simp [leading, fields.id.size])
  have hsecond : field (encodeFields version fields) 56 32 = fields.second.bytes :=
    field_flatten 4 rfl (by simp [leading, fields.id.size]) fields.second.size
  have hlen := encodeFields_payLen version fields hpayload
  have hpay : field (encodeFields version fields) headerSize fields.payload.length =
      fields.payload :=
    field_flatten 6 rfl
      (by simp [leading, fields.id.size, fields.second.size, headerSize]) rfl
  have hmagic : uint32At (encodeFields version fields) 0 = magicBSV := rfl
  have hversion : byteAt (encodeFields version fields) 6 = version := rfl
  have hbyte7 : byteAt (encodeFields version fields) 7 = fields.byte7 := rfl
  rw [decodeFields, hlen, if_pos]
  · rw [hid, hhashKey, encodeFields_seqNum, hsecond, hpay, hbyte7, FixedBytes.copy_bytes,
      FixedBytes.copy_bytes]
  · exact ⟨by omega, hmagic, hversion, by omega⟩

/-- The 44-byte header of the first frame version has no sequence fields. -/
def headerSizeLegacy : Nat := 44

def decodeLegacy (raw : Bytes) : Option Frame :=
  if headerSizeLegacy ≤ raw.length ∧ uint32At raw 0 = magicBSV ∧ byteAt raw 6 = frameVerV1 ∧
      headerSizeLegacy + (uint32At raw 40).toNat ≤ raw.length then
    some ⟨frameVerV1, FixedBytes.copy 32 (field raw 8 32), 0, zeroHash,
      field raw headerSizeLegacy (uint32At raw 40).toNat⟩
  else none

def Fields.toFrame (version : UInt8) (fields : Fields) : Frame :=
  ⟨version, fields.id, fields.seqNum, fields.second, fields.payload⟩

def decode (raw : Bytes) : Option Frame :=
  if byteAt raw 6 = frameVerV1 then decodeLegacy raw
  else (decodeFields frameVerV2 raw).map (Fields.toFrame frameVerV2)

/-- A frame of the current version is one with the whole header. -/
theorem decode_eq_toFrame {raw : Bytes} {f : Frame} (hdecode : decode raw = some f)
    (hversion : f.version = frameVerV2) :
    ∃ fields, decodeFields frameVerV2 raw = some fields ∧ f = fields.toFrame frameVerV2 := by
  rw [decode] at hdecode
  split at hdecode
  · rw [decodeLegacy] at hdecode
    split at hdecode
    · rw [← Option.some.inj hdecode] at hversion
      cases hversion
    · cases hdecode
  · obtain ⟨fields, hfields, rfl⟩ := Option.map_eq_some_iff.mp hdecode
    exact ⟨fields, hfields, rfl⟩

/-- Whatever a codec reads in an encoded frame are the fields it was made of. -/
theorem eq_of_decodeFields_encodeFields {version other : UInt8} {fields found : Fields}
    (hpayload : fields.payload.length < 2 ^ 32)
    (hdecode : decodeFields other (encodeFields version fields) = some found) :
    found = fields := by
  by_cases hother : other = version
  · rw [hother, decodeFields_encodeFields _ _ hpayload] at hdecode
    exact (Option.some.inj hdecode).symm
  · rw [decodeFields, if_neg] at hdecode
    · cases hdecode
    · rintro ⟨_, _, hversion, _⟩
      exact hother hversion.symm

theorem framed_encodeFields (version : UInt8) (fields : Fields) :
    framed (encodeFields version fields) := by
  refine ⟨?_, rfl⟩
  rw [length_encodeFields]
  exact Nat.le_add_right_of_le (by decide)

theorem versionByte_encodeFields (version : UInt8) (fields : Fields) :
    versionByte (encodeFields version fields) = some version := by
  rw [versionByte, if_pos]
  · rfl
  · rw [length_encodeFields]
    exact Nat.lt_add_right _ (by decide)

theorem decode_encodeFields (fields : Fields) (hpayload : fields.payload.length < 2 ^ 32) :
    decode (encodeFields frameVerV2 fields) = some (fields.toFrame frameVerV2) := by
  have hversion : byteAt (encodeFields frameVerV2 fields) 6 = frameVerV2 := rfl
  rw [decode, hversion, if_neg (by decide), decodeFields_encodeFields _ _ hpayload]
  rfl

def decodeAnchor (raw : Bytes) : Option Frame :=
  (decodeFields frameVerV6 raw).map (Fields.toFrame frameVerV6)

theorem decodeAnchor_encodeFields (fields : Fields) (hpayload : fields.payload.length < 2 ^ 32) :
    decodeAnchor (encodeFields frameVerV6 fields) = some (fields.toFrame frameVerV6) := by
  have hfields := decodeFields_encodeFields frameVerV6 fields hpayload
  exact congrArg (Option.map (Fields.toFrame frameVerV6)) hfields

/-- A frame whose fields pass a check was decoded from its fields. -/
theorem fields_of_guarded {A : Type} {version : UInt8} {raw : Bytes} {passes : Fields → Prop}
    [DecidablePred passes] {make : Fields → A} {made : A}
    (hdecode : ((decodeFields version raw).bind fun fields =>
      if passes fields then some (make fields) else none) = some made) :
    ∃ fields, decodeFields version raw = some fields ∧ make fields = made := by
  obtain ⟨fields, hfields, hmade⟩ := Option.bind_eq_some_iff.mp hdecode
  split at hmade
  · exact ⟨fields, hfields, Option.some.inj hmade⟩
  · cases hmade

def decodeBlock (raw : Bytes) : Option BlockFrame :=
  (decodeFields frameVerV4 raw).bind fun fields =>
    if fields.byte7 = blockMsgAnnounce ∨ fields.byte7 = blockMsgCoinbase then
      some ⟨fields.byte7, fields.id, fields.payload⟩
    else none

def subtreeMsgHashesOnly : UInt8 := 1

def decodeSubtreeData (raw : Bytes) : Option SubtreeDataFrame :=
  (decodeFields frameVerV5 raw).bind fun fields =>
    if fields.byte7 = subtreeMsgHashesOnly ∨ fields.byte7 = subtreeMsgFullNodes then
      some ⟨fields.byte7, fields.id, fields.payload⟩
    else none

def decodeBEEF (raw : Bytes) : Option BEEFFrame :=
  (decodeFields frameVerV9 raw).map fun fields =>
    ⟨fields.id, fields.second, fields.byte7, fields.payload⟩

theorem decodeBEEF_encodeFields (fields : Fields) (hpayload : fields.payload.length < 2 ^ 32) :
    decodeBEEF (encodeFields frameVerV9 fields) =
      some ⟨fields.id, fields.second, fields.byte7, fields.payload⟩ := by
  rw [decodeBEEF, decodeFields_encodeFields _ _ hpayload, Option.map_some]

end Frames

section Fragments

/-- The 104-byte fragment header and its data. -/
def fragmentLayout (byte7 : UInt8) (args : FragmentArgs) : List Bytes :=
  [leading 3 byte7, args.txID.bytes, spellNat 8 args.hashKey.toNat,
    spellNat 8 args.seqNum.toNat, args.subtreeID.bytes, spellNat 4 args.origPayloadLen.toNat,
    spellNat 2 args.fragIndex.toNat, spellNat 2 args.fragTotal.toNat,
    [args.origFrameVer, 0, 0, 0], spellNat 4 args.fragData.length, args.fragData]

def fragmentBytes (args : FragmentArgs) : Bytes :=
  (fragmentLayout 0 args).flatten

def encodeFragment (buf : Bytes) (args : FragmentArgs) : Option (Bytes × Nat) :=
  let size := headerSizeV3 + args.fragData.length
  if args.fragIndex < args.fragTotal ∧ args.fragData ≠ [] ∧ size ≤ buf.length then
    some (fragmentBytes args ++ buf.drop size, size)
  else none

def decodeFragment (raw : Bytes) : Option FragmentFrame :=
  let args : FragmentArgs := ⟨FixedBytes.copy 32 (field raw 8 32),
    FixedBytes.copy 32 (field raw 56 32), uint64At raw 40, uint64At raw 48, uint32At raw 88,
    uint16At raw 92, uint16At raw 94, byteAt raw 96, raw.drop headerSizeV3⟩
  if headerSizeV3 ≤ raw.length ∧ uint32At raw 0 = magicBSV ∧ byteAt raw 6 = 3 ∧
      args.fragIndex < args.fragTotal ∧ args.fragData ≠ [] ∧
      (uint32At raw 100).toNat = args.fragData.length % 2 ^ 32 then
    some ⟨args, byteAt raw 7⟩
  else none

theorem withByte7_fragmentBytes (byte7 : Option UInt8) (args : FragmentArgs) :
    withByte7 byte7 (fragmentBytes args) = (fragmentLayout (byte7.getD 0) args).flatten := by
  cases byte7 <;> rfl

theorem length_fragmentLayout (byte7 : UInt8) (args : FragmentArgs) :
    (fragmentLayout byte7 args).flatten.length = headerSizeV3 + args.fragData.length := by
  simp [fragmentLayout, leading, args.txID.size, args.subtreeID.size, headerSizeV3]
  omega

theorem fragmentLayout_hashKey (byte7 : UInt8) (args : FragmentArgs) :
    uint64At (fragmentLayout byte7 args).flatten 40 = args.hashKey :=
  uint64At_flatten 2 rfl (by simp [fragmentLayout, leading, args.txID.size])

theorem fragmentLayout_seqNum (byte7 : UInt8) (args : FragmentArgs) :
    uint64At (fragmentLayout byte7 args).flatten 48 = args.seqNum :=
  uint64At_flatten 3 rfl (by simp [fragmentLayout, leading, args.txID.size])

/-- The data is all that stands after the header. -/
theorem fragmentLayout_data (byte7 : UInt8) (args : FragmentArgs) :
    (fragmentLayout byte7 args).flatten.drop headerSizeV3 = args.fragData := by
  have hlength := length_fragmentLayout byte7 args
  have hfield : field (fragmentLayout byte7 args).flatten headerSizeV3 args.fragData.length =
      args.fragData :=
    field_flatten 10 rfl
      (by simp [fragmentLayout, leading, args.txID.size, args.subtreeID.size, headerSizeV3]) rfl
  rw [field, List.take_of_length_le (by rw [List.length_drop]; omega)] at hfield
  exact hfield

theorem decodeFragment_layout (byte7 : UInt8) {args : FragmentArgs} (hplaced : args.Placed) :
    decodeFragment (fragmentLayout byte7 args).flatten = some ⟨args, byte7⟩ := by
  have hid : field (fragmentLayout byte7 args).flatten 8 32 = args.txID.bytes :=
    field_flatten 1 rfl rfl args.txID.size
  have hsubtree : field (fragmentLayout byte7 args).flatten 56 32 = args.subtreeID.bytes :=
    field_flatten 4 rfl (by simp [fragmentLayout, leading, args.txID.size]) args.subtreeID.size
  have hlen : uint32At (fragmentLayout byte7 args).flatten 88 = args.origPayloadLen :=
    uint32At_flatten 5 rfl
      (by simp [fragmentLayout, leading, args.txID.size, args.subtreeID.size])
  have hindex : uint16At (fragmentLayout byte7 args).flatten 92 = args.fragIndex :=
    uint16At_flatten 6 rfl
      (by simp [fragmentLayout, leading, args.txID.size, args.subtreeID.size])
  have htotal : uint16At (fragmentLayout byte7 args).flatten 94 = args.fragTotal :=
    uint16At_flatten 7 rfl
      (by simp [fragmentLayout, leading, args.txID.size, args.subtreeID.size])
  have hversion : field (fragmentLayout byte7 args).flatten 96 4 =
      [args.origFrameVer, 0, 0, 0] :=
    field_flatten 8 rfl
      (by simp [fragmentLayout, leading, args.txID.size, args.subtreeID.size]) rfl
  have hdataLen : readNat (field (fragmentLayout byte7 args).flatten 100 4) =
      args.fragData.length % 256 ^ 4 :=
    readNat_flatten 9 rfl
      (by simp [fragmentLayout, leading, args.txID.size, args.subtreeID.size])
  have hbyte : byteAt (fragmentLayout byte7 args).flatten 96 = args.origFrameVer := by
    have hget := congrArg (fun bytes => bytes[0]?) hversion
    simp only [getElem?_field] at hget
    simp_all [byteAt]
  have hcount : (uint32At (fragmentLayout byte7 args).flatten 100).toNat =
      args.fragData.length % 2 ^ 32 := by
    rw [uint32At, hdataLen]
    simp
  have hsize := length_fragmentLayout byte7 args
  have hmagic : uint32At (fragmentLayout byte7 args).flatten 0 = magicBSV := rfl
  have hver : byteAt (fragmentLayout byte7 args).flatten 6 = 3 := rfl
  have hbyte7 : byteAt (fragmentLayout byte7 args).flatten 7 = byte7 := rfl
  rw [decodeFragment]
  simp only [hid, hsubtree, fragmentLayout_hashKey, fragmentLayout_seqNum, hlen, hindex, htotal,
    hbyte, fragmentLayout_data, hcount, hmagic, hver, hbyte7, FixedBytes.copy_bytes]
  exact if_pos ⟨by omega, trivial, trivial, hplaced.index, hplaced.data, trivial⟩

end Fragments

section Bundles

/-- A member's two-byte length, its TxID when the bundle carries them, and its
bytes. -/
def memberBytes (carry : Bool) (member : Member) : Bytes :=
  spellNat 2 member.tx.length ++ (if carry then member.txID.bytes else []) ++ member.tx

/-- The 66-byte bundle header and its members. -/
def bundleLayout (bundle : Bundle) : List Bytes :=
  let body := bundle.members.flatMap (memberBytes (bundle.flags &&& flagTxIDsPresent != 0))
  [leading frameVerV8 bundle.flags, bundle.subtreeID.bytes, spellNat 8 bundle.hashKey.toNat,
    spellNat 8 bundle.seqNum.toNat, spellNat 2 bundle.groupIdx.toNat, [bundle.shardBits, 0],
    spellNat 2 bundle.members.length, spellNat 4 body.length, body]

def encodeBundle (bundle : Bundle) : Option Bytes :=
  if bundle.members.length ≤ bundleMaxMembers ∧
      ∀ member ∈ bundle.members, member.tx.length < 2 ^ 16 then
    some (bundleLayout bundle).flatten
  else none

def memberOverhead (carry : Bool) : Nat :=
  if carry then 34 else 2

theorem encodeBundle_stamped {bundle : Bundle} {datagram : Bytes}
    (hencode : encodeBundle bundle = some datagram) :
    uint64At datagram 40 = bundle.hashKey ∧ uint64At datagram 48 = bundle.seqNum := by
  rw [encodeBundle] at hencode
  split at hencode
  · obtain rfl := Option.some.inj hencode
    constructor
    · exact uint64At_flatten 2 rfl (by simp [bundleLayout, leading, bundle.subtreeID.size])
    · exact uint64At_flatten 3 rfl (by simp [bundleLayout, leading, bundle.subtreeID.size])
  · cases hencode

/-- Read members off the body of a bundle. -/
def takeMembers (carry : Bool) : Nat → Bytes → Option (List Member)
  | 0, _ => some []
  | n + 1, rest =>
      let size := readNat (field rest 0 2)
      let body := rest.drop (memberOverhead carry)
      let id := if carry then FixedBytes.copy 32 (field rest 2 32) else zeroHash
      if rest.length < memberOverhead carry + size then none
      else (takeMembers carry n (body.drop size)).map (⟨id, body.take size⟩ :: ·)

def decodeBundle (raw : Bytes) : Option Bundle :=
  if bundleHeaderSize ≤ raw.length ∧ uint32At raw 0 = magicBSV ∧ byteAt raw 6 = frameVerV8 then
    (takeMembers (byteAt raw 7 &&& flagTxIDsPresent != 0) (uint16At raw 60).toNat
      (raw.drop bundleHeaderSize)).map fun members =>
        ⟨uint16At raw 56, byteAt raw 58, FixedBytes.copy 32 (field raw 8 32), byteAt raw 7,
          uint64At raw 40, uint64At raw 48, members⟩
  else none

theorem length_memberBytes (carry : Bool) (member : Member) :
    (memberBytes carry member).length = memberOverhead carry + member.tx.length := by
  cases carry <;> simp [memberBytes, memberOverhead, member.txID.size]
  omega

theorem takeMembers_flatMap (carry : Bool) {members : List Member}
    (hshort : ∀ member ∈ members, member.tx.length < 2 ^ 16) :
    takeMembers carry members.length (members.flatMap (memberBytes carry)) =
      some (members.map fun member =>
        ⟨if carry then member.txID else zeroHash, member.tx⟩) := by
  induction members with
  | nil => rfl
  | cons member rest ih =>
      have hlength := length_memberBytes carry member
      have hsmall := hshort member List.mem_cons_self
      have hsize : readNat (field ((member :: rest).flatMap (memberBytes carry)) 0 2) =
          member.tx.length := by
        rw [List.flatMap_cons, memberBytes, List.append_assoc, List.append_assoc, field,
          List.drop_zero, List.take_left' (length_spellNat 2 _), readNat_spellNat]
        exact Nat.mod_eq_of_lt hsmall
      have hbody : ((member :: rest).flatMap (memberBytes carry)).drop (memberOverhead carry) =
          member.tx ++ rest.flatMap (memberBytes carry) := by
        rw [List.flatMap_cons, memberBytes, List.append_assoc]
        apply List.drop_left'
        cases carry <;> simp [memberOverhead, member.txID.size]
      have hid : (if carry then FixedBytes.copy 32
          (field ((member :: rest).flatMap (memberBytes carry)) 2 32) else zeroHash) =
          if carry then member.txID else zeroHash := by
        cases carry with
        | false => rfl
        | true =>
            have hfield : field ((member :: rest).flatMap (memberBytes true)) 2 32 =
                member.txID.bytes := by
              rw [List.flatMap_cons, memberBytes, field, List.append_assoc, List.append_assoc,
                List.drop_left' (length_spellNat 2 _), if_pos rfl]
              exact List.take_left' member.txID.size
            rw [if_pos rfl, if_pos rfl, hfield, FixedBytes.copy_bytes]
      have hfit : ¬ ((member :: rest).flatMap (memberBytes carry)).length <
          memberOverhead carry + member.tx.length := by
        rw [List.flatMap_cons, List.length_append]
        omega
      rw [List.length_cons, takeMembers]
      simp only [hsize, hbody, hid, hfit, ↓reduceIte, List.drop_left, List.take_left,
        ih (fun later hlater => hshort later (List.mem_cons_of_mem member hlater)),
        Option.map_some, List.map_cons]

theorem encodeBundle_some {bundle : Bundle} {datagram : Bytes}
    (hencode : encodeBundle bundle = some datagram) :
    datagram = (bundleLayout bundle).flatten ∧ bundle.members.length ≤ bundleMaxMembers ∧
      ∀ member ∈ bundle.members, member.tx.length < 2 ^ 16 := by
  rw [encodeBundle] at hencode
  split at hencode
  · rename_i hlimits
    exact ⟨(Option.some.inj hencode).symm, hlimits⟩
  · cases hencode

theorem length_bundleLayout (bundle : Bundle) :
    (bundleLayout bundle).flatten.length = bundleHeaderSize +
      (bundle.members.flatMap (memberBytes bundle.carriesTxIDs)).length := by
  simp [bundleLayout, leading, bundle.subtreeID.size, bundleHeaderSize, Bundle.carriesTxIDs]
  omega

/-- The members are all that stands after the header. -/
theorem bundleLayout_body (bundle : Bundle) :
    (bundleLayout bundle).flatten.drop bundleHeaderSize =
      bundle.members.flatMap (memberBytes bundle.carriesTxIDs) := by
  have hfield : field (bundleLayout bundle).flatten bundleHeaderSize
      (bundle.members.flatMap (memberBytes bundle.carriesTxIDs)).length =
        bundle.members.flatMap (memberBytes bundle.carriesTxIDs) :=
    field_flatten 8 rfl
      (by simp [bundleLayout, leading, bundle.subtreeID.size, bundleHeaderSize]) rfl
  rw [field, List.take_of_length_le] at hfield
  · exact hfield
  · rw [List.length_drop, length_bundleLayout]
    omega

/-- Decoding gives back what was encoded, as far as it went on the wire. -/
theorem decodeBundle_encodeBundle {bundle : Bundle} {datagram : Bytes}
    (hencode : encodeBundle bundle = some datagram) :
    decodeBundle datagram = some bundle.onWire := by
  obtain ⟨rfl, hcount, hshort⟩ := encodeBundle_some hencode
  have hgroup : uint16At (bundleLayout bundle).flatten 56 = bundle.groupIdx :=
    uint16At_flatten 4 rfl (by simp [bundleLayout, leading, bundle.subtreeID.size])
  have hbits : field (bundleLayout bundle).flatten 58 2 = [bundle.shardBits, 0] :=
    field_flatten 5 rfl (by simp [bundleLayout, leading, bundle.subtreeID.size]) rfl
  have hshard : byteAt (bundleLayout bundle).flatten 58 = bundle.shardBits := by
    have hget := congrArg (fun bytes => bytes[0]?) hbits
    simp only [getElem?_field] at hget
    simp_all [byteAt]
  have hsubtree : field (bundleLayout bundle).flatten 8 32 = bundle.subtreeID.bytes :=
    field_flatten 1 rfl rfl bundle.subtreeID.size
  have hnumber : readNat (field (bundleLayout bundle).flatten 60 2) =
      bundle.members.length % 256 ^ 2 :=
    readNat_flatten 6 rfl (by simp [bundleLayout, leading, bundle.subtreeID.size])
  have hmembers : (uint16At (bundleLayout bundle).flatten 60).toNat = bundle.members.length := by
    rw [uint16At, hnumber]
    simp only [bundleMaxMembers] at hcount
    simp
    omega
  obtain ⟨hkey, hseq⟩ := encodeBundle_stamped hencode
  have hflags : byteAt (bundleLayout bundle).flatten 7 = bundle.flags := rfl
  have hmagic : uint32At (bundleLayout bundle).flatten 0 = magicBSV := rfl
  have hversion : byteAt (bundleLayout bundle).flatten 6 = frameVerV8 := rfl
  have hsize := length_bundleLayout bundle
  have hread := takeMembers_flatMap bundle.carriesTxIDs hshort
  rw [decodeBundle, if_pos ⟨by omega, hmagic, hversion⟩, hmembers, hflags, bundleLayout_body,
    hgroup, hshard, hsubtree, hkey, hseq, FixedBytes.copy_bytes]
  rw [Bundle.carriesTxIDs] at hread
  rw [Bundle.carriesTxIDs, hread, Option.map_some, Bundle.onWire, Bundle.carriesTxIDs]
  cases bundle.flags &&& flagTxIDsPresent != 0 with
  | true => simp
  | false => simp

end Bundles

section Transactions

def takeBytes (n : Nat) (rest : Bytes) : Option (Bytes × Bytes) :=
  if n ≤ rest.length then some (rest.take n, rest.drop n) else none

/-- A variable-length integer and its width. -/
def readVarint : Bytes → Option (Nat × Nat)
  | [] => none
  | byte :: rest =>
      if byte < 0xFD then some (byte.toNat, 1)
      else
        let width := if byte = 0xFD then 2 else if byte = 0xFE then 4 else 8
        if rest.length < width then none else some (littleNat rest 0 width, width + 1)

/-- A variable-length integer and that many bytes. -/
def takeCounted (rest : Bytes) : Option (Bytes × Bytes) := do
  let (n, width) ← readVarint rest
  takeBytes (width + n) rest

/-- An input; the satoshis and script of Extended Format are walked over and
not part of the standard serialization. -/
def takeInput (extended : Bool) (rest : Bytes) : Option (Bytes × Bytes) := do
  let (outpoint, rest) ← takeBytes 36 rest
  let (script, rest) ← takeCounted rest
  let (sequence, rest) ← takeBytes 4 rest
  if extended then do
    let (_, rest) ← takeBytes 8 rest
    let (_, rest) ← takeCounted rest
    some (outpoint ++ script ++ sequence, rest)
  else some (outpoint ++ script ++ sequence, rest)

def takeOutput (rest : Bytes) : Option (Bytes × Bytes) := do
  let (satoshis, rest) ← takeBytes 8 rest
  let (script, rest) ← takeCounted rest
  some (satoshis ++ script, rest)

def takeMany (one : Bytes → Option (Bytes × Bytes)) : Nat → Bytes → Option (Bytes × Bytes)
  | 0, rest => some ([], rest)
  | n + 1, rest => do
      let (head, rest) ← one rest
      let (tail, rest) ← takeMany one n rest
      some (head ++ tail, rest)

/-- A count and that many items. -/
def takeVector (one : Bytes → Option (Bytes × Bytes)) (rest : Bytes) :
    Option (Bytes × Bytes) := do
  let (n, width) ← readVarint rest
  let (count, rest) ← takeBytes width rest
  let (items, rest) ← takeMany one n rest
  some (count ++ items, rest)

/-- The Extended Format marker stands after the version. -/
def isEF (tx : Bytes) : Bool :=
  field tx 4 6 == [0, 0, 0, 0, 0, 0xEF]

/-- The standard serialization of a leading transaction, and what follows it. -/
def takeTx (tx : Bytes) : Option (Bytes × Bytes) := do
  let (version, rest) ← takeBytes 4 tx
  let (_, rest) ← takeBytes (if isEF tx then 6 else 0) rest
  let (inputs, rest) ← takeVector (takeInput (isEF tx)) rest
  let (outputs, rest) ← takeVector takeOutput rest
  let (lockTime, rest) ← takeBytes 4 rest
  some (version ++ inputs ++ outputs ++ lockTime, rest)

def txSize (tx : Bytes) : Option Nat :=
  (takeTx tx).map fun walked => tx.length - walked.2.length

def doubleHash (message : Bytes) : Hash32 :=
  Digest.sha256 (Digest.sha256 message).bytes

def txID (tx : Bytes) : Option Hash32 :=
  (takeTx tx).map fun walked => doubleHash walked.1

/-- The unstamped frame of a bare transaction, when its length can be told. -/
def multicastBytes (tx : Bytes) : Option Bytes :=
  if tx.length < 2 ^ 32 then
    (txID tx).map fun id => encodeFields frameVerV2 ⟨0, id, 0, 0, zeroHash, tx⟩
  else none

end Transactions

section Objects

/-- A topic is one to 64 bytes after its length. -/
def takeTopic : Bytes → Option (Bytes × Bytes)
  | [] => none
  | byte :: rest =>
      if 1 ≤ byte.toNat ∧ byte.toNat ≤ 64 then takeBytes byte.toNat rest else none

def takeTopics : Nat → Bytes → Option (List Bytes × Bytes)
  | 0, rest => some ([], rest)
  | n + 1, rest => do
      let (topic, rest) ← takeTopic rest
      let (topics, rest) ← takeTopics n rest
      some (topic :: topics, rest)

/-- A submission record: tag, version, one to fifteen topics, and the object
after its four-byte length. -/
def decodeBEEFRecord (rec : Bytes) : Option (BEEFRecord × Nat) := do
  let (head, rest) ← takeBytes 4 rec
  if uint16At head 0 = beefRecordTag ∧ 1 ≤ (byteAt head 3).toNat ∧
      (byteAt head 3).toNat ≤ 15 then do
    let (topics, rest) ← takeTopics (byteAt head 3).toNat rest
    let (len, rest) ← takeBytes 4 rest
    let (object, rest) ← takeBytes (readNat len) rest
    some (⟨topics, object⟩, rec.length - rest.length)
  else none

def splitBEEFPayload (payload : Bytes) : Option (Bytes × Option (List Bytes)) :=
  if 2 ≤ payload.length ∧ uint16At payload 0 = beefRecordTag then
    match decodeBEEFRecord payload with
    | some (record, n) =>
        if n = payload.length then some (record.object, some record.topics) else none
    | none => none
  else some (payload, none)

/-- The markers an object may start with. -/
def isBEEFObject (object : Bytes) : Bool :=
  field object 0 4 ∈ [[0x01, 0x00, 0xBE, 0xEF], [0x02, 0x00, 0xBE, 0xEF],
    [0x01, 0x01, 0x01, 0x01]]

def topicID (topic : Bytes) : Hash32 :=
  Digest.sha256 topic

def beefMulticastRecord (rec : Bytes) (deliver : Nat) : Option Bytes :=
  match decodeBEEFRecord rec with
  | some (⟨topic :: _, _⟩, n) =>
      if n = rec.length ∧ rec.length < 2 ^ 32 then
        some (encodeFields frameVerV9
          ⟨UInt8.ofNat deliver, doubleHash rec, 0, 0, topicID topic, rec⟩)
      else none
  | _ => none

end Objects

section Work

/-- The target a compact difficulty stands for. -/
def compactTarget (bits : Nat) : Nat :=
  let exponent := bits / 2 ^ 24
  let mantissa := bits % 2 ^ 23
  if exponent ≤ 3 then mantissa / 256 ^ (3 - exponent) else mantissa * 256 ^ (exponent - 3)

def powCheckHeader (header : Bytes) (floor : Option Nat) : Bool :=
  let target := compactTarget (littleNat header 72 4)
  decide (0 < target) && floor.all (fun limit => decide (target ≤ limit)) &&
    decide (littleNat (doubleHash header).bytes 0 32 ≤ target)

end Work

def seqHash (ip : IPv6) (grp : UInt32) (sub : Hash32) : UInt64 :=
  xxh64 (ip.bytes ++ spellNat 4 grp.toNat ++ sub.bytes)

def env : Env where
  decode := decode
  decodeBlock := decodeBlock
  decodeAnchor := decodeAnchor
  decodeSubtreeData := decodeSubtreeData
  decodeBEEF := decodeBEEF
  encodeFragment := encodeFragment
  fragmentBytes := fragmentBytes
  decodeFragment := decodeFragment
  encodeBundle := encodeBundle
  memberOverhead := memberOverhead
  seqHash := seqHash
  txSize := txSize
  isEF := isEF
  txID := txID
  multicastBytes := multicastBytes
  decodeBEEFRecord := decodeBEEFRecord
  splitBEEFPayload := splitBEEFPayload
  isBEEFObject := isBEEFObject
  beefMulticastRecord := beefMulticastRecord
  topicID := topicID
  contentID := doubleHash
  sha256 := Digest.sha256
  powHeaderSize := 80
  powCheckHeader := powCheckHeader
  subtreeDataPayloadHeaderSize := 24
  ipString ip := ".".intercalate (ip.map fun byte => toString byte.toNat)
  parseAddr _ := none
  mapOrder keys := keys
  poolBuffer size _ := List.replicate size 0
  maxProcs := 1
  mapOrder_perm _ := List.Perm.refl _
  length_poolBuffer _ _ := List.length_replicate

theorem decodeSubtreeData_encodeFields (fields : Fields)
    (hpayload : fields.payload.length < 2 ^ 32)
    (hmsgType : fields.byte7 = subtreeMsgHashesOnly ∨ fields.byte7 = subtreeMsgFullNodes) :
    env.decodeSubtreeData (encodeFields frameVerV5 fields) =
      some ⟨fields.byte7, fields.id, fields.payload⟩ := by
  change decodeSubtreeData (encodeFields frameVerV5 fields) = _
  rw [decodeSubtreeData, decodeFields_encodeFields _ _ hpayload, Option.bind_some,
    if_pos hmsgType]

theorem decodeLaws : DecodeLaws env where
  decode_version := by
    intro raw f hdecode
    simp only [env, decode] at hdecode
    split at hdecode
    · rw [decodeLegacy] at hdecode
      split at hdecode
      · exact Or.inl (congrArg Frame.version (Option.some.inj hdecode)).symm
      · cases hdecode
    · obtain ⟨fields, _, rfl⟩ := Option.map_eq_some_iff.mp hdecode
      exact Or.inr rfl
  decode_size := by
    intro raw f hdecode hversion
    obtain ⟨fields, hfields, rfl⟩ := decode_eq_toFrame hdecode hversion
    obtain ⟨hsize, hpayload, _⟩ := decodeFields_eq_some hfields
    exact ⟨hsize, hpayload⟩
  decodeBlock_size := by
    intro raw bf hdecode
    obtain ⟨fields, hfields, rfl⟩ := fields_of_guarded hdecode
    obtain ⟨hsize, hpayload, _⟩ := decodeFields_eq_some hfields
    exact ⟨hsize, hpayload⟩
  decodeAnchor_size := by
    intro raw f hdecode
    obtain ⟨fields, hfields, _⟩ := Option.map_eq_some_iff.mp hdecode
    exact (decodeFields_eq_some hfields).1
  decodeSubtreeData_size := by
    intro raw sf hdecode
    obtain ⟨fields, hfields, rfl⟩ := fields_of_guarded hdecode
    obtain ⟨hsize, hpayload, _⟩ := decodeFields_eq_some hfields
    exact ⟨hsize, hpayload⟩
  decodeBEEF_size := by
    intro raw bf hdecode
    obtain ⟨fields, hfields, rfl⟩ := Option.map_eq_some_iff.mp hdecode
    obtain ⟨hsize, hpayload, _⟩ := decodeFields_eq_some hfields
    exact ⟨hsize, hpayload⟩
  decodeBlock_msgType := by
    intro raw bf hdecode
    obtain ⟨fields, hfields, rfl⟩ := fields_of_guarded hdecode
    exact (decodeFields_eq_some hfields).2.2
  decodeSubtreeData_msgType := by
    intro raw sf hdecode
    obtain ⟨fields, hfields, rfl⟩ := fields_of_guarded hdecode
    exact (decodeFields_eq_some hfields).2.2
  decodeBEEF_deliverCount := by
    intro raw bf hdecode
    obtain ⟨fields, hfields, rfl⟩ := Option.map_eq_some_iff.mp hdecode
    exact (decodeFields_eq_some hfields).2.2

/-- A codec of the 92-byte header reads everything but the HashKey or the SeqNum the same. -/
theorem decodeFields_putUint64 {raw : Bytes} {off : Nat} (hoff : off = 40 ∨ off = 48)
    (hsize : off + 8 ≤ raw.length) (version : UInt8) (value : UInt64) :
    decodeFields version (putUint64 raw off value) =
      (decodeFields version raw).map fun fields =>
        { fields with
          hashKey := if off = 40 then value else fields.hashKey
          seqNum := if off = 48 then value else fields.seqNum } := by
  have hlength : (putUint64 raw off value).length = raw.length := length_putUint64 raw value hsize
  have hfield : ∀ {other width : Nat}, other + width ≤ 40 ∨ 56 ≤ other →
      field (putUint64 raw off value) other width = field raw other width :=
    fun hout => field_putUint64_of_disjoint raw value hsize (by omega)
  have hbyte : ∀ {pos : Nat}, pos < 40 →
      byteAt (putUint64 raw off value) pos = byteAt raw pos :=
    fun hpos => byteAt_putUint64_of_disjoint raw value hsize (by omega)
  have hmagic : uint32At (putUint64 raw off value) 0 = uint32At raw 0 := by
    rw [uint32At, uint32At, hfield (Or.inl (by decide))]
  have hpayload : uint32At (putUint64 raw off value) 88 = uint32At raw 88 := by
    rw [uint32At, uint32At, hfield (Or.inr (by decide))]
  rw [decodeFields, decodeFields, hlength, hmagic, hpayload, hbyte (by decide)]
  split
  · rw [hbyte (by decide), hfield (Or.inl (by decide)), hfield (Or.inr (by decide)),
      hfield (Or.inr (by decide))]
    rcases hoff with rfl | rfl
    · rw [uint64At_putUint64_self raw value hsize,
        uint64At_putUint64_of_disjoint raw value hsize (Or.inr (by decide))]
      rfl
    · rw [uint64At_putUint64_self raw value hsize,
        uint64At_putUint64_of_disjoint raw value hsize (Or.inl (by decide))]
      rfl
  · rfl

theorem hashKeyLaws : HashKeyLaws env where
  decode_byte6 := by
    intro raw f hdecode
    simp only [env, decode] at hdecode
    split at hdecode
    · rename_i hversion
      rw [decodeLegacy] at hdecode
      split at hdecode
      · rw [hversion, ← Option.some.inj hdecode]
      · cases hdecode
    · obtain ⟨fields, hfields, rfl⟩ := Option.map_eq_some_iff.mp hdecode
      exact (decodeFields_version hfields)
  decode := by
    intro raw hsize hversion key
    have hbyte := byteAt_putUint64_of_disjoint raw key hsize (Or.inl (show 6 < 40 by decide))
    simp only [env, decode]
    rw [hbyte, if_neg hversion, if_neg hversion, decodeFields_putUint64 (Or.inl rfl) hsize,
      Option.map_map]
    rfl
  decodeAnchor := by
    intro raw hsize key
    simp only [env, decodeAnchor]
    rw [decodeFields_putUint64 (Or.inl rfl) hsize, Option.map_map]
    rfl
  decodeBEEF := by
    intro raw hsize key
    simp only [env, decodeBEEF]
    rw [decodeFields_putUint64 (Or.inl rfl) hsize, Option.map_map]
    rfl

theorem fragmentBytes_seqNum (args : FragmentArgs) (seqNum : UInt64) :
    fragmentBytes { args with seqNum := seqNum } = putUint64 (fragmentBytes args) 48 seqNum := by
  have hhead : (leading 3 0 ++ args.txID.bytes ++ spellNat 8 args.hashKey.toNat).length = 48 := by
    simp [leading, args.txID.size]
  have hsplit : ∀ number : UInt64, fragmentBytes { args with seqNum := number } =
      (leading 3 0 ++ args.txID.bytes ++ spellNat 8 args.hashKey.toNat) ++
        (spellNat 8 number.toNat ++ ((fragmentLayout 0 args).drop 4).flatten) := by
    intro number
    simp [fragmentBytes, fragmentLayout]
  have hsame : fragmentBytes args = fragmentBytes { args with seqNum := args.seqNum } := rfl
  rw [putUint64, overwrite, hsame, hsplit, hsplit, List.take_left' hhead, length_spellNat,
    ← List.append_assoc _ (spellNat 8 args.seqNum.toNat)]
  rw [List.drop_left' (by rw [List.length_append, hhead, length_spellNat])]
  simp only [List.append_assoc]

theorem seqNumLaws : SeqNumLaws env where
  decode_seqNum := by
    intro raw f hdecode hversion
    obtain ⟨fields, hfields, rfl⟩ := decode_eq_toFrame hdecode hversion
    rw [decodeFields] at hfields
    split at hfields
    · rw [← Option.some.inj hfields]
      rfl
    · cases hfields
  decode := by
    intro raw hsize hversion seqNum
    have hroom : 48 + 8 ≤ raw.length := Nat.le_trans (by decide) hsize
    have hbyte := byteAt_putUint64_of_disjoint raw seqNum hroom (Or.inl (show 6 < 48 by decide))
    simp only [env, decode]
    rw [hbyte, if_neg hversion, if_neg hversion, decodeFields_putUint64 (Or.inr rfl) hroom,
      Option.map_map, Option.map_map]
    rfl
  decodeBEEF_version := by
    intro raw bf hdecode
    obtain ⟨fields, hfields, rfl⟩ := Option.map_eq_some_iff.mp hdecode
    exact decodeFields_version hfields
  fragment_version args := rfl
  fragment_seqNum := fragmentBytes_seqNum

theorem submissionLaws : SubmissionLaws env where
  reframe := by
    intro tx framed _ hframed
    change multicastBytes tx = some framed at hframed
    rw [multicastBytes] at hframed
    split at hframed
    · rename_i hlength
      obtain ⟨id, hid, rfl⟩ := Option.map_eq_some_iff.mp hframed
      exact ⟨id, hid, decode_encodeFields _ hlength⟩
    · cases hframed

theorem length_takeTopics {n : Nat} {rest after : Bytes} {topics : List Bytes}
    (htaken : takeTopics n rest = some (topics, after)) : topics.length = n := by
  induction n generalizing rest topics with
  | zero =>
      cases htaken
      rfl
  | succ n ih =>
      simp only [takeTopics, Option.bind_eq_bind, Option.bind_eq_some_iff] at htaken
      obtain ⟨first, _, others, hothers, hfound⟩ := htaken
      cases hfound
      exact congrArg (· + 1) (ih hothers)

/-- What a record that decodes starts with and names. -/
theorem decodeBEEFRecord_some {rec : Bytes} {record : BEEFRecord} {n : Nat}
    (hrecord : decodeBEEFRecord rec = some (record, n)) :
    4 ≤ rec.length ∧ uint16At rec 0 = beefRecordTag ∧ 1 ≤ record.topics.length ∧
      record.topics.length ≤ 15 := by
  simp only [decodeBEEFRecord, Option.bind_eq_bind, Option.bind_eq_some_iff] at hrecord
  obtain ⟨⟨head, rest⟩, hhead, hrecord⟩ := hrecord
  rw [takeBytes] at hhead
  split at hhead
  · rename_i hsize
    cases hhead
    split at hrecord
    · rename_i hchecks
      simp only [Option.bind_eq_some_iff] at hrecord
      obtain ⟨⟨topics, after⟩, htopics, _, _, _, _, hfound⟩ := hrecord
      cases hfound
      have hcount := length_takeTopics htopics
      refine ⟨hsize, ?_, ?_, ?_⟩
      · have htag := hchecks.1
        rwa [uint16At, field, List.drop_zero, List.take_take] at htag
      · rw [hcount]
        exact hchecks.2.1
      · rw [hcount]
        exact hchecks.2.2
    · cases hrecord
  · cases hhead

theorem takeBytes_some {n : Nat} {bytes taken after : Bytes}
    (htaken : takeBytes n bytes = some (taken, after)) :
    bytes = taken ++ after ∧ taken.length = n := by
  rw [takeBytes] at htaken
  split at htaken
  · rename_i hfits
    cases htaken
    exact ⟨(List.take_append_drop n bytes).symm, List.length_take_of_le hfits⟩
  · cases htaken

theorem takeBytes_append {n : Nat} {bytes taken after : Bytes}
    (htaken : takeBytes n bytes = some (taken, after)) (rest : Bytes) :
    takeBytes n (bytes ++ rest) = some (taken, after ++ rest) := by
  obtain ⟨rfl, rfl⟩ := takeBytes_some htaken
  rw [takeBytes, List.append_assoc, if_pos (by simp), List.take_left, List.drop_left]

theorem takeTopic_some {bytes topic after : Bytes}
    (htaken : takeTopic bytes = some (topic, after)) :
    bytes.length ≤ 65 + after.length ∧
      ∀ rest, takeTopic (bytes ++ rest) = some (topic, after ++ rest) := by
  cases bytes with
  | nil => cases htaken
  | cons byte body =>
      simp only [takeTopic] at htaken
      split at htaken
      · rename_i hsize
        obtain ⟨rfl, hlength⟩ := takeBytes_some htaken
        constructor
        · simp only [List.length_cons, List.length_append]
          omega
        · intro rest
          rw [List.cons_append, takeTopic, if_pos hsize, takeBytes_append htaken]
      · cases htaken

theorem takeTopics_some {n : Nat} {bytes after : Bytes} {topics : List Bytes}
    (htaken : takeTopics n bytes = some (topics, after)) :
    bytes.length ≤ 65 * n + after.length ∧
      ∀ rest, takeTopics n (bytes ++ rest) = some (topics, after ++ rest) := by
  induction n generalizing bytes topics with
  | zero =>
      cases htaken
      exact ⟨Nat.le_add_left _ _, fun rest => rfl⟩
  | succ n ih =>
      simp only [takeTopics, Option.bind_eq_bind, Option.bind_eq_some_iff] at htaken
      obtain ⟨⟨topic, body⟩, htopic, ⟨others, tail⟩, hothers, hfound⟩ := htaken
      cases hfound
      obtain ⟨htopicSize, htopicRest⟩ := takeTopic_some htopic
      obtain ⟨hothersSize, hothersRest⟩ := ih hothers
      dsimp only at htopicSize hothersSize hothersRest ⊢
      refine ⟨by omega, fun rest => ?_⟩
      simp only [takeTopics, Option.bind_eq_bind, htopicRest, hothersRest, Option.bind_some]

/-- A record is delimited by itself, and its envelope is bounded. -/
theorem decodeBEEFRecord_append {rec : Bytes} {record : BEEFRecord} {n : Nat}
    (hrecord : decodeBEEFRecord rec = some (record, n)) :
    n ≤ record.object.length + (4 + 15 * 65 + 4) ∧
      ∀ rest, decodeBEEFRecord (rec ++ rest) = some (record, n) := by
  simp only [decodeBEEFRecord, Option.bind_eq_bind, Option.bind_eq_some_iff] at hrecord
  obtain ⟨⟨head, body⟩, hhead, hrecord⟩ := hrecord
  split at hrecord
  · rename_i hchecks
    simp only [Option.bind_eq_some_iff] at hrecord
    obtain ⟨⟨topics, afterTopics⟩, htopics, ⟨len, afterLen⟩, hlen, ⟨object, tail⟩, hobject,
      hfound⟩ := hrecord
    cases hfound
    obtain ⟨rfl, hheadSize⟩ := takeBytes_some hhead
    obtain ⟨htopicsSize, htopicsRest⟩ := takeTopics_some htopics
    obtain ⟨rfl, hlenSize⟩ := takeBytes_some hlen
    obtain ⟨rfl, hobjectSize⟩ := takeBytes_some hobject
    dsimp only at hchecks htopicsSize htopicsRest hobjectSize ⊢
    constructor
    · have hcount := hchecks.2.2
      simp only [List.length_append] at htopicsSize ⊢
      omega
    · intro rest
      simp only [decodeBEEFRecord, Option.bind_eq_bind, takeBytes_append hhead rest,
        Option.bind_some, hchecks, and_self, ↓reduceIte, htopicsRest, takeBytes_append hlen rest,
        takeBytes_append hobject rest]
      congr 2
      simp only [List.length_append]
      omega
  · cases hrecord

/-- A codec of the 92-byte header reads everything but byte 7 the same. -/
theorem decodeFields_set (raw : Bytes) (version byte : UInt8) {fields : Fields}
    (hdecode : decodeFields version raw = some fields) :
    decodeFields version (raw.set 7 byte) = some { fields with byte7 := byte } := by
  have hfield : ∀ {off width : Nat}, 7 < off ∨ off + width ≤ 7 →
      field (raw.set 7 byte) off width = field raw off width :=
    fun hout => field_set_of_disjoint raw byte hout
  have hmagic : uint32At (raw.set 7 byte) 0 = uint32At raw 0 := by
    rw [uint32At, uint32At, hfield (Or.inr (by decide))]
  have hpayload : uint32At (raw.set 7 byte) 88 = uint32At raw 88 := by
    rw [uint32At, uint32At, hfield (Or.inl (by decide))]
  have hversion : byteAt (raw.set 7 byte) 6 = byteAt raw 6 := byteAt_set_ne raw byte (by decide)
  rw [decodeFields] at hdecode ⊢
  split at hdecode
  · rename_i hchecks
    cases hdecode
    have hseven : 7 < raw.length := Nat.lt_of_lt_of_le (by decide) hchecks.1
    rw [List.length_set, hmagic, hpayload, hversion, if_pos hchecks,
      byteAt_set_self raw byte hseven, hfield (Or.inl (by decide)),
      uint64At_set_of_disjoint raw byte (Or.inl (by decide)),
      uint64At_set_of_disjoint raw byte (Or.inl (by decide)), hfield (Or.inl (by decide)),
      hfield (Or.inl (by decide))]
  · cases hdecode

theorem splitLaws : SplitLaws env where
  topics := by
    intro payload object topics hsplit
    change splitBEEFPayload payload = _ at hsplit
    rw [splitBEEFPayload] at hsplit
    split at hsplit
    · split at hsplit
      · rename_i record n hrecord
        split at hsplit
        · cases hsplit
          exact (decodeBEEFRecord_some hrecord).2.2
        · cases hsplit
      · cases hsplit
    · cases hsplit

/-- The frame of a record, and the topics it was made for. -/
theorem beefMulticastRecord_some {rec frame : Bytes} {deliver : Nat}
    (hframe : beefMulticastRecord rec deliver = some frame) :
    ∃ first rest object,
      decodeBEEFRecord rec = some (⟨first :: rest, object⟩, rec.length) ∧ rec.length < 2 ^ 32 ∧
      frame = encodeFields frameVerV9
        ⟨UInt8.ofNat deliver, doubleHash rec, 0, 0, topicID first, rec⟩ := by
  rw [beefMulticastRecord] at hframe
  split at hframe
  · rename_i first rest object n hrecord
    split at hframe
    · rename_i hwhole
      exact ⟨first, rest, object, hwhole.1 ▸ hrecord, hwhole.2, (Option.some.inj hframe).symm⟩
    · cases hframe
  · cases hframe

theorem recordLaws : RecordLaws env where
  topics := fun hrecord => (decodeBEEFRecord_some hrecord).2.2
  split := by
    intro rec record hrecord
    obtain ⟨hfour, htag, _⟩ := decodeBEEFRecord_some hrecord
    have hsize : 2 ≤ rec.length := Nat.le_trans (by decide) hfour
    have hdecode : decodeBEEFRecord rec = some (record, rec.length) := hrecord
    change splitBEEFPayload rec = _
    simp only [splitBEEFPayload, hsize, htag, hdecode, and_self, ↓reduceIte]
  framed := by
    intro rec deliver frame hframe
    obtain ⟨first, rest, object, hrecord, hlength, rfl⟩ := beefMulticastRecord_some hframe
    exact ⟨_, first, rest, hrecord, rfl, decodeBEEF_encodeFields _ hlength⟩
  redeliver := by
    intro rec deliver frame record n hframe _ other _ _
    obtain ⟨first, rest, object, hrecord, hlength, rfl⟩ := beefMulticastRecord_some hframe
    change beefMulticastRecord rec other = _
    simp only [beefMulticastRecord, hrecord, hlength, and_self, ↓reduceIte]
    rfl
  byte7 := by
    intro raw bf hdecode deliver
    obtain ⟨fields, hfields, rfl⟩ := Option.map_eq_some_iff.mp hdecode
    exact congrArg (Option.map _) (decodeFields_set raw frameVerV9 deliver hfields)

theorem unstampedRecords : UnstampedRecords env where
  seqNum := by
    intro rec deliver frame hframe
    obtain ⟨_, _, _, _, _, rfl⟩ := beefMulticastRecord_some hframe
    exact encodeFields_seqNum _ _

theorem fragmentLaws : FragmentLaws env where
  encode hplaced _ hfit := if_pos ⟨hplaced.index, hplaced.data, hfit⟩
  length args := length_fragmentLayout 0 args
  hashKey args := fragmentLayout_hashKey 0 args
  seqNum args := fragmentLayout_seqNum 0 args
  decode hplaced byte7 := by
    change decodeFragment (withByte7 byte7 (fragmentBytes _)) = _
    rw [withByte7_fragmentBytes]
    exact decodeFragment_layout _ hplaced

theorem bundleLaws : BundleLaws env where
  encode _ hcount hsizes := ⟨_, if_pos ⟨hcount, hsizes⟩⟩
  stamped hencode := encodeBundle_stamped hencode

theorem bundleVersion : BundleVersion env where
  version hencode := by
    obtain ⟨rfl, _, _⟩ := encodeBundle_some hencode
    rfl

theorem bundleCodec : BundleCodec env decodeBundle where
  length := by
    intro bundle datagram hencode
    obtain ⟨rfl, _, _⟩ := encodeBundle_some hencode
    rw [length_bundleLayout, List.length_flatMap]
    simp only [length_memberBytes]
    rfl
  decode := decodeBundle_encodeBundle

section Samples

/-- A shard engine that indexes by the leading bits of a TxID. -/
def engine (bits : Nat) (hbits : bits ≤ 12) : Engine where
  shardBits := bits
  mcPrefix := 0xFF05
  mcGroupID := 0x000B
  groupIndex id := UInt32.ofNat (readNat (field id.bytes 0 4) / 2 ^ (32 - bits) % 2 ^ bits)
  shardBits_le := hbits
  groupIndex_lt id := by
    have hmod : readNat (field id.bytes 0 4) / 2 ^ (32 - bits) % 2 ^ bits < 2 ^ bits :=
      Nat.mod_lt _ (Nat.two_pow_pos bits)
    have hbound : 2 ^ bits ≤ 2 ^ 12 := Nat.pow_le_pow_right (by decide) hbits
    rw [UInt32.toNat_ofNat_of_lt' (Nat.lt_of_lt_of_le hmod (Nat.le_trans hbound (by decide)))]
    exact hmod

/-- A forwarder with eight shard bits and everything optional off. -/
def forwarder : Forwarder :=
  newForwarder (engine 8 (by decide)) 0xFF05 0x000B 9001

def dedupForwarder : Forwarder :=
  { forwarder with txDedup := some ⟨0, "tx"⟩ }

/-- Nothing sent, claimed, charged or published yet. -/
def state : FwState :=
  ⟨Dispenser.Registry.empty, fun _ => ∅, unlimited, none, [], none⟩

/-- A host of the documentation prefix. -/
def source (host : UInt8) : NetAddr :=
  .udp (some [0x20, 0x01, 0x0D, 0xB8, 0, 0, 0, 0, 0, 0, 0, 0, 0, 0, 0, host]) 40000 ""

/-- A transaction with one input and one output, told apart by its lock time. -/
def sampleTx (lockTime : UInt8) : Bytes :=
  [1, 0, 0, 0, 1] ++ List.replicate 32 0xAA ++ [0, 0, 0, 0, 0, 0xFF, 0xFF, 0xFF, 0xFF, 1] ++
    [0xE8, 3, 0, 0, 0, 0, 0, 0, 1, 0x51] ++ [lockTime, 0, 0, 0]

def sampleFrame (id : Hash32) (tx : Bytes) : Bytes :=
  encodeFields frameVerV2 ⟨0, id, 0, 0, zeroHash, tx⟩

theorem decode_sampleFrame (id : Hash32) {tx : Bytes} (hlength : tx.length < 2 ^ 32) :
    env.decode (sampleFrame id tx) = some ⟨frameVerV2, id, 0, zeroHash, tx⟩ :=
  decode_encodeFields _ hlength

def sampleAnchor (id : Hash32) (tx : Bytes) : Bytes :=
  encodeFields frameVerV6 ⟨0, id, 0, 0, zeroHash, tx⟩

theorem decodeAnchor_sampleAnchor (id : Hash32) {tx : Bytes} (hlength : tx.length < 2 ^ 32) :
    env.decodeAnchor (sampleAnchor id tx) = some ⟨frameVerV6, id, 0, zeroHash, tx⟩ :=
  decodeAnchor_encodeFields _ hlength

theorem length_sampleTx (lockTime : UInt8) : (sampleTx lockTime).length = 61 := rfl

def sampleID (byte : UInt8) : Hash32 :=
  ⟨List.replicate 32 byte, List.length_replicate⟩

/-- A plane engine that indexes by the leading byte of a TopicID. -/
def planeEngine : PlaneEngine where
  groupIndex topic := UInt32.ofNat (0x1000 + readNat (field topic.bytes 0 1) % 256)
  groupIndex_band topic := by
    have hmod : readNat (field topic.bytes 0 1) % 256 < 256 := Nat.mod_lt _ (by decide)
    have hsmall : 0x1000 + readNat (field topic.bytes 0 1) % 256 < 2 ^ 32 := by omega
    rw [UInt32.toNat_ofNat_of_lt' hsmall]
    omega

/-- A forwarder with the object plane on and sixteen data bytes a fragment. -/
def beefForwarder : Forwarder :=
  { dedupForwarder with beefEngine := some planeEngine, fragDataSize := 16 }

/-- An object that is a marker and two bytes, and its record under one topic. -/
def sampleObject (byte : UInt8) : Bytes := [0x01, 0x00, 0xBE, 0xEF, byte, byte]

def sampleRecord (object : Bytes) : Bytes :=
  [0xBE, 0xEF, 1, 1, 2, 0x74, 0x6D] ++ spellNat 4 object.length ++ object

end Samples

end ShardProxy.Reference
